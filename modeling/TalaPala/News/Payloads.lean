import TalaPala.News.SafeFetch

namespace TalaPala.News

abbrev Bytes := List UInt8

abbrev CodePoints := List ℕ

def ascii (s : String) : Bytes := s.toList.map (fun c ↦ UInt8.ofNat c.toNat)

/-- How `bytes.decode` ends. -/
inductive Decoded
  | text (s : CodePoints)
  | lookupError
  | unicodeDecodeError
  | raises

/-- What is used of the codecs and of `str.isdigit` and `int`. -/
structure Codecs where
  decode : Bytes → Text → Decoded
  decodeReplacing : Bytes → CodePoints
  /-- `str.encode("utf-8")`, or the UnicodeEncodeError. -/
  encode : CodePoints → Option Bytes
  isDigit : Text → Bool
  int : Text → Option ℕ

section XmlDeclaration

def isNameByte (b : UInt8) : Bool :=
  (97 ≤ b && b ≤ 122) || (65 ≤ b && b ≤ 90) || (48 ≤ b && b ≤ 57) || b = 46 || b = 95 || b = 45

def isByteSpace (b : UInt8) : Bool := (9 ≤ b && b ≤ 13) || b = 32

def isQuote (b : UInt8) : Bool := b = 34 || b = 39

/-- `encoding\s*=\s*["']([A-Za-z0-9._\-]+)["']` from here on: what is before the name and
the name. -/
def encodingHere (l : Bytes) : Option (Bytes × Bytes) :=
  if (ascii "encoding").isPrefixOf l then
    match (l.drop 8).dropWhile isByteSpace with
    | 61 :: rest =>
      match rest.dropWhile isByteSpace with
      | quote :: rest =>
        let name := rest.takeWhile isNameByte
        if isQuote quote && !name.isEmpty && (rest.drop name.length).head?.any isQuote then
          some (l.take (l.length - rest.length), name)
        else none
      | [] => none
    | _ => none
  else none

/-- `[^>]*?` before it. -/
def encodingWithin : Bytes → Option (Bytes × Bytes)
  | [] => none
  | b :: rest =>
    (encodingHere (b :: rest)).orElse (fun _ ↦
      if b = 62 then none
      else (encodingWithin rest).map (fun (front, name) ↦ (b :: front, name)))

def xmlEncoding : Bytes → Option (Bytes × Bytes)
  | [] => none
  | b :: rest =>
    (if (ascii "<?xml").isPrefixOf (b :: rest) then
      (encodingWithin ((b :: rest).drop 5)).map (fun (front, name) ↦ (ascii "<?xml" ++ front, name))
    else none).orElse (fun _ ↦ (xmlEncoding rest).map (fun (front, name) ↦ (b :: front, name)))

def lowerAscii (name : Bytes) : Text := name.map (fun b ↦ (Char.ofNat b.toNat).toLower)

def utf8 : Text := "utf-8".toList

end XmlDeclaration

section Decoding

def unquote (s : Text) : Text := (s.dropWhile (· = '"')).rdropWhile (· = '"')

def headerCharset (lib : Platform) (contentType : Text) : Text :=
  ((after ';' contentType).splitOn ';').foldl (fun charset param ↦
    if lib.lower (strip (before '=' param)) = "charset".toList then
      lib.lower (unquote (strip (after '=' param)))
    else charset) []

def declaredCharset (content : Bytes) (headerCharset : Text) : Text :=
  if headerCharset ≠ [] then headerCharset
  else match xmlEncoding (content.take 200) with
    | some (_, name) => lowerAscii name
    | none => utf8

inductive Strict
  | text (s : CodePoints)
  | blocked
  | raises
  deriving DecidableEq

def decodeStrictly (codecs : Codecs) (content : Bytes) (charset : Text) : Strict :=
  if content = [] then .text []
  else match codecs.decode content charset with
    | .text s => .text s
    | .lookupError => .blocked
    | .raises => .raises
    | .unicodeDecodeError =>
      if charset.map (fun c ↦ if c = '_' then '-' else c) ≠ utf8 then
        match codecs.decode content utf8 with
        | .text s => .text s
        | .unicodeDecodeError => .blocked
        | _ => .raises
      else .blocked

structure Page where
  status : ℕ
  location : Text
  contentLength : Text
  contentType : Text
  chunks : List Chunk
  bodyFails : Option Failure
  content : Bytes

variable (lib : Platform) (codecs : Codecs) (policy : FetchPolicy)

/-- The length a response declares; `none` where `int` raises. -/
def Page.declaredLength (p : Page) : Option (Option ℕ) :=
  if p.contentLength ≠ [] ∧ codecs.isDigit p.contentLength then
    (codecs.int p.contentLength).map some
  else some none

def Page.decoded (p : Page) : Strict :=
  decodeStrictly codecs p.content (declaredCharset p.content (headerCharset lib p.contentType))

def Page.readCapped (p : Page) : Except Ending Unit :=
  match p.declaredLength codecs with
  | none => .error (.fails .uncaught)
  | some length =>
    if length.any (policy.maxBytes < ·) then .error .tooLarge
    else if overflows policy 0 p.chunks then .error .tooLarge
    else match p.bodyFails with
      | some failure => .error (.fails failure)
      | none => .ok ()

def Page.read (p : Page) : Ending :=
  if p.status = 304 then .result p.status
  else match checkContentType policy (mediaType lib p.contentType) with
    | .error block => .blocked block
    | .ok () =>
      match p.readCapped codecs policy with
      | .error ending => ending
      | .ok () =>
        match p.decoded lib codecs with
        | .text _ => .result p.status
        | .blocked => .blocked .undecodable
        | .raises => .fails .uncaught

def Page.response (p : Page) : Response :=
  match p.declaredLength codecs with
  | none => ⟨p.status, p.location, none, p.contentType, [], some .uncaught, false⟩
  | some length =>
    { status := p.status
      location := p.location
      contentLength := length
      contentType := p.contentType
      chunks := p.chunks
      bodyFails := p.bodyFails.orElse (fun _ ↦
        if p.decoded lib codecs = .raises then some .uncaught else none)
      decodes := p.decoded lib codecs ≠ .blocked }

@[simp]
theorem response_status (p : Page) : (p.response lib codecs).status = p.status := by
  rw [Page.response]
  split <;> rfl

@[simp]
theorem response_location (p : Page) : (p.response lib codecs).location = p.location := by
  rw [Page.response]
  split <;> rfl

@[simp]
theorem response_contentType (p : Page) :
    (p.response lib codecs).contentType = p.contentType := by
  rw [Page.response]
  split <;> rfl

theorem readBody_response (p : Page) :
    readBody lib policy (p.response lib codecs) = p.read lib codecs policy := by
  rw [readBody, Page.read, response_status, response_contentType]
  by_cases hunchanged : p.status = 304
  · rw [if_pos hunchanged, if_pos hunchanged]
  rw [if_neg hunchanged, if_neg hunchanged]
  cases checkContentType policy (mediaType lib p.contentType) with
  | error block => rfl
  | ok =>
    rw [Page.response, Page.readCapped]
    cases p.declaredLength codecs with
    | none => rfl
    | some length =>
      simp only [readCapped]
      by_cases hlong : length.any (policy.maxBytes < ·)
      · rw [if_pos hlong, if_pos hlong]
      rw [if_neg hlong, if_neg hlong]
      by_cases hover : overflows policy 0 p.chunks
      · rw [if_pos hover, if_pos hover]
      rw [if_neg hover, if_neg hover]
      cases p.bodyFails with
      | some failure => rfl
      | none => cases p.decoded lib codecs <;> rfl

end Decoding

section Parsers

inductive Raised
  | tooLarge
  | blocked
  | parseError
  | other

inductive Payload
  | bytes (b : Bytes)
  | str (s : CodePoints)

def Payload.length : Payload → ℕ
  | .bytes b => b.length
  | .str s => s.length

def isSpacePoint (n : ℕ) : Bool :=
  (9 ≤ n && n ≤ 13) || (28 ≤ n && n ≤ 32) || n = 0x85 || n = 0xa0 || n = 0x1680 ||
    (0x2000 ≤ n && n ≤ 0x200a) || n = 0x2028 || n = 0x2029 || n = 0x202f || n = 0x205f || n = 0x3000

/-- What comes before the first `<[A-Za-z_]`. -/
def prolog : CodePoints → CodePoints
  | 60 :: n :: rest =>
    if (65 ≤ n && n ≤ 90) || (97 ≤ n && n ≤ 122) || n = 95 then []
    else 60 :: prolog (n :: rest)
  | n :: rest => n :: prolog rest
  | [] => []

/-- A letter whatever its case; the dotted capital and the dotless small I are an `I` too. -/
def sameLetter (letter : Char) (n : ℕ) : Bool :=
  n = letter.toNat || n = letter.toNat + 32 || (letter = 'I' && (n = 0x130 || n = 0x131))

/-- `<!\s*WORD` from here on. -/
def declaresHere (word : List Char) : CodePoints → Bool
  | 60 :: 33 :: rest =>
    let rest := rest.dropWhile isSpacePoint
    word.length ≤ rest.length && (word.zip rest).all (fun (letter, n) ↦ sameLetter letter n)
  | _ => false

def declares (word : List Char) (text : CodePoints) : Bool := text.tails.any (declaresHere word)

def rejectsDoctype (text : CodePoints) : Bool :=
  declares "DOCTYPE".toList (prolog text) || declares "ENTITY".toList (prolog text)

/-- The bytes for the parser, with a stale declaration rewritten, and the text for the guard;
`none` where a string cannot be encoded. -/
def prepareXmlBytes (codecs : Codecs) : Payload → Option (Bytes × CodePoints)
  | .bytes b => some (b, codecs.decodeReplacing b)
  | .str s => (codecs.encode s).map (fun encoded ↦
      match xmlEncoding (encoded.take 200) with
      | some (front, name) =>
        if lowerAscii name = utf8 ∨ lowerAscii name = "utf8".toList then (encoded, s)
        else (front ++ ascii "utf-8" ++ encoded.drop (front.length + name.length), s)
      | none => (encoded, s))

variable {α : Type*} (codecs : Codecs)

/-- `fromstring` is the parser; whatever it raises becomes a FetchParseError. -/
def parseXmlSafely (fromstring : Bytes → Option α) (data : Payload) (maxBytes : ℤ) :
    Except Raised α :=
  if maxBytes < data.length then .error .tooLarge
  else match prepareXmlBytes codecs data with
    | none => .error .other
    | some (payload, text) =>
      if rejectsDoctype text then .error .blocked
      else match fromstring payload with
        | none => .error .parseError
        | some root => .ok root

def jsonDepthFrom (maxDepth : ℤ) : ℤ → Bool → Bool → CodePoints → Bool
  | _, _, _, [] => true
  | depth, true, true, _ :: rest => jsonDepthFrom maxDepth depth true false rest
  | depth, true, false, n :: rest =>
    if n = 92 then jsonDepthFrom maxDepth depth true true rest
    else jsonDepthFrom maxDepth depth (n ≠ 34) false rest
  | depth, false, _, n :: rest =>
    if n = 34 then jsonDepthFrom maxDepth depth true false rest
    else if n = 91 ∨ n = 123 then
      if maxDepth < depth + 1 then false else jsonDepthFrom maxDepth (depth + 1) false false rest
    else if n = 93 ∨ n = 125 then jsonDepthFrom maxDepth (depth - 1) false false rest
    else jsonDepthFrom maxDepth depth false false rest

def jsonDepthOk (text : CodePoints) (maxDepth : ℤ) : Bool :=
  jsonDepthFrom maxDepth 0 false false text

/-- How `json.loads` ends; a constant that is no number raises a FetchBlocked. -/
inductive Loaded (α : Type*)
  | value (a : α)
  | constant
  | valueError
  | raises

def payloadText : Payload → Option CodePoints
  | .bytes b =>
    match codecs.decode b utf8 with
    | .text s => some s
    | _ => none
  | .str s => some s

def parseJsonSafely (loads : CodePoints → Loaded α) (data : Payload) (maxBytes maxDepth : ℤ) :
    Except Raised α :=
  if maxBytes < data.length then .error .tooLarge
  else match payloadText codecs data with
    | none => .error .other
    | some text =>
      if !jsonDepthOk text maxDepth then .error .blocked
      else match loads text with
        | .value a => .ok a
        | .constant => .error .blocked
        | .valueError => .error .parseError
        | .raises => .error .other

end Parsers

end TalaPala.News
