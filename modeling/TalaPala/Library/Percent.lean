import Mathlib.Data.List.TakeWhile

namespace TalaPala.Library.Urllib

open List

/-! What programs use of `urllib.parse` of Python 3.12 on a query. The code points of a string may
be lone surrogates. -/

abbrev Points := List ℕ

def points (s : String) : Points := s.toList.map Char.toNat

section Utf8

def isScalar (n : ℕ) : Bool := n < 0xd800 || (0xe000 ≤ n && n < 0x110000)

def encodePoint (n : ℕ) : List ℕ :=
  if n < 0x80 then [n]
  else if n < 0x800 then [0xc0 + n / 64, 0x80 + n % 64]
  else if n < 0x10000 then [0xe0 + n / 4096, 0x80 + n / 64 % 64, 0x80 + n % 64]
  else [0xf0 + n / 262144, 0x80 + n / 4096 % 64, 0x80 + n / 64 % 64, 0x80 + n % 64]

/-- `str.encode()`, or the UnicodeEncodeError. -/
def encode (x : Points) : Option (List ℕ) :=
  if x.all isScalar then some (x.flatMap encodePoint) else none

structure Begun where
  more : ℕ
  low : ℕ
  high : ℕ
  bits : ℕ

def begin? (b : ℕ) : Option Begun :=
  if 0xc2 ≤ b ∧ b ≤ 0xdf then some ⟨0, 0x80, 0xbf, b - 0xc0⟩
  else if b = 0xe0 then some ⟨1, 0xa0, 0xbf, 0⟩
  else if b = 0xed then some ⟨1, 0x80, 0x9f, 13⟩
  else if 0xe1 ≤ b ∧ b ≤ 0xef then some ⟨1, 0x80, 0xbf, b - 0xe0⟩
  else if b = 0xf0 then some ⟨2, 0x90, 0xbf, 0⟩
  else if b = 0xf4 then some ⟨2, 0x80, 0x8f, 4⟩
  else if 0xf1 ≤ b ∧ b ≤ 0xf3 then some ⟨2, 0x80, 0xbf, b - 0xf0⟩
  else none

def decodeFirst (b : ℕ) : Points × Option Begun :=
  if b < 0x80 then ([b], none)
  else match begin? b with
    | some s => ([], some s)
    | none => ([0xfffd], none)

def Begun.decodeNext (s : Begun) (b : ℕ) : Points × Option Begun :=
  if s.low ≤ b ∧ b ≤ s.high then
    match s.more with
    | 0 => ([64 * s.bits + (b - 0x80)], none)
    | more + 1 => ([], some ⟨more, 0x80, 0xbf, 64 * s.bits + (b - 0x80)⟩)
  else (0xfffd :: (decodeFirst b).1, (decodeFirst b).2)

def decodeByte (state : Option Begun) (b : ℕ) : Points × Option Begun :=
  state.elim (decodeFirst b) (·.decodeNext b)

/-- `bytes.decode(errors="replace")`: a U+FFFD for each sequence that breaks off. -/
def decodeFrom (state : Option Begun) : List ℕ → Points
  | [] => if state.isSome then [0xfffd] else []
  | b :: rest => (decodeByte state b).1 ++ decodeFrom (decodeByte state b).2 rest

def decode (bytes : List ℕ) : Points := decodeFrom none bytes

theorem isScalar_iff {n : ℕ} : isScalar n ↔ n < 0xd800 ∨ 0xe000 ≤ n ∧ n < 0x110000 := by
  simp [isScalar]

theorem Begun.decodeFrom_cons {s : Begun} {b : ℕ} (hb : s.low ≤ b ∧ b ≤ s.high) (rest : List ℕ) :
    decodeFrom (some s) (b :: rest) =
      match s.more with
      | 0 => (64 * s.bits + (b - 0x80)) :: decodeFrom none rest
      | more + 1 => decodeFrom (some ⟨more, 0x80, 0xbf, 64 * s.bits + (b - 0x80)⟩) rest := by
  rw [decodeFrom, decodeByte, Option.elim_some, decodeNext, if_pos hb]
  cases s.more <;> rfl

theorem decodeFrom_begin {b : ℕ} {s : Begun} (hb : 0x80 ≤ b) (h : begin? b = some s)
    (rest : List ℕ) : decodeFrom none (b :: rest) = decodeFrom (some s) rest := by
  rw [decodeFrom, decodeByte, Option.elim_none, decodeFirst, if_neg (by omega), h]
  rfl

theorem begin?_two {b : ℕ} (h : 0xc2 ≤ b ∧ b ≤ 0xdf) :
    begin? b = some ⟨0, 0x80, 0xbf, b - 0xc0⟩ := if_pos h

theorem begin?_three {b : ℕ} (h : 0xe0 ≤ b ∧ b ≤ 0xef) :
    begin? b = some ⟨1, if b = 0xe0 then 0xa0 else 0x80, if b = 0xed then 0x9f else 0xbf,
      b - 0xe0⟩ := by
  rw [begin?, if_neg (by omega)]
  split_ifs <;> first | omega | (subst b; rfl) | rfl

theorem begin?_four {b : ℕ} (h : 0xf0 ≤ b ∧ b ≤ 0xf4) :
    begin? b = some ⟨2, if b = 0xf0 then 0x90 else 0x80, if b = 0xf4 then 0x8f else 0xbf,
      b - 0xf0⟩ := by
  rw [begin?, if_neg (by omega), if_neg (by omega), if_neg (by omega), if_neg (by omega)]
  split_ifs <;> first | omega | (subst b; rfl) | rfl

theorem decode_encodePoint {n : ℕ} (hn : isScalar n) (rest : List ℕ) :
    decodeFrom none (encodePoint n ++ rest) = n :: decodeFrom none rest := by
  rw [isScalar_iff] at hn
  unfold encodePoint
  split_ifs with hone htwo hthree
  · rw [singleton_append, decodeFrom, decodeByte, Option.elim_none, decodeFirst, if_pos hone]
    rfl
  · rw [cons_append, singleton_append, decodeFrom_begin (by omega) (begin?_two (by omega)),
      Begun.decodeFrom_cons (by dsimp only; omega)]
    exact congrArg (· :: decodeFrom none rest) (by dsimp only; omega)
  · rw [cons_append, cons_append, singleton_append,
      decodeFrom_begin (by omega) (begin?_three (by omega)),
      Begun.decodeFrom_cons (by dsimp only; split_ifs <;> omega)]
    dsimp only
    rw [Begun.decodeFrom_cons (by dsimp only; omega)]
    exact congrArg (· :: decodeFrom none rest) (by dsimp only; omega)
  · rw [cons_append, cons_append, cons_append, singleton_append,
      decodeFrom_begin (by omega) (begin?_four (by omega)),
      Begun.decodeFrom_cons (by dsimp only; split_ifs <;> omega)]
    dsimp only
    rw [Begun.decodeFrom_cons (by dsimp only; omega)]
    dsimp only
    rw [Begun.decodeFrom_cons (by dsimp only; omega)]
    exact congrArg (· :: decodeFrom none rest) (by dsimp only; omega)

theorem decode_encode {x : Points} (hx : x.all isScalar) : decode (x.flatMap encodePoint) = x := by
  induction x with
  | nil => rfl
  | cons n rest ih =>
    obtain ⟨hn, hrest⟩ := Bool.and_eq_true_iff.mp (all_cons ▸ hx)
    rw [flatMap_cons, decode, decode_encodePoint hn]
    exact congrArg (n :: ·) (ih hrest)

theorem encodePoint_lt {n : ℕ} (hn : isScalar n) : ∀ b ∈ encodePoint n, b < 256 := by
  rw [isScalar_iff] at hn
  unfold encodePoint
  split_ifs <;>
    simp only [mem_cons, not_mem_nil, or_false, forall_eq_or_imp, forall_eq] <;> omega

end Utf8

section Quoting

def isAlwaysSafe (b : ℕ) : Bool :=
  (48 ≤ b && b ≤ 57) || (65 ≤ b && b ≤ 90) || (97 ≤ b && b ≤ 122) ||
    b = 95 || b = 46 || b = 45 || b = 126

def hexDigit (n : ℕ) : ℕ := if n < 10 then 48 + n else 55 + n

def hexValue (c : ℕ) : Option ℕ :=
  if 48 ≤ c ∧ c ≤ 57 then some (c - 48)
  else if 65 ≤ c ∧ c ≤ 70 then some (c - 55)
  else if 97 ≤ c ∧ c ≤ 102 then some (c - 87)
  else none

/-- A byte as itself, a space as `+`, any other byte as `%XX`. -/
def quoteByte (b : ℕ) : Points :=
  if isAlwaysSafe b then [b]
  else if b = 32 then [43]
  else [37, hexDigit (b / 16), hexDigit (b % 16)]

def quoted (x : Points) : Points := (x.flatMap encodePoint).flatMap quoteByte

/-- `quote_plus`, or the UnicodeEncodeError. -/
def quotePlus (x : Points) : Option Points := (encode x).map (·.flatMap quoteByte)

def unquoteToBytes : Points → List ℕ
  | 37 :: c :: d :: rest =>
    match hexValue c, hexValue d with
    | some high, some low => (16 * high + low) :: unquoteToBytes rest
    | _, _ => 37 :: unquoteToBytes (c :: d :: rest)
  | c :: rest => c :: unquoteToBytes rest
  | [] => []

def unquoteFrom (run : Points) : Points → Points
  | [] => decode (unquoteToBytes run)
  | c :: rest =>
    if c < 128 then unquoteFrom (run ++ [c]) rest
    else decode (unquoteToBytes run) ++ c :: unquoteFrom [] rest

def plusToSpace (c : ℕ) : ℕ := if c = 43 then 32 else c

def unquotePlus (x : Points) : Points := unquoteFrom [] (x.map plusToSpace)

theorem quotePlus_eq_some {x q : Points} :
    quotePlus x = some q ↔ x.all isScalar ∧ quoted x = q := by
  rw [quotePlus, encode]
  split_ifs with hx <;> simp [hx, quoted]

def isQuoted (c : ℕ) : Bool := isAlwaysSafe c || c = 43 || c = 37

theorem isAlwaysSafe_iff {b : ℕ} : isAlwaysSafe b ↔
    48 ≤ b ∧ b ≤ 57 ∨ 65 ≤ b ∧ b ≤ 90 ∨ 97 ≤ b ∧ b ≤ 122 ∨ b = 95 ∨ b = 46 ∨ b = 45 ∨ b = 126 := by
  simp only [isAlwaysSafe, Bool.or_eq_true, Bool.and_eq_true, decide_eq_true_eq, or_assoc]

theorem isQuoted_iff {c : ℕ} : isQuoted c ↔ isAlwaysSafe c ∨ c = 43 ∨ c = 37 := by
  simp only [isQuoted, Bool.or_eq_true, decide_eq_true_eq, or_assoc]

theorem hexDigit_mem {n : ℕ} (hn : n < 16) :
    48 ≤ hexDigit n ∧ hexDigit n ≤ 57 ∨ 65 ≤ hexDigit n ∧ hexDigit n ≤ 70 := by
  unfold hexDigit
  split_ifs <;> omega

theorem hexValue_hexDigit {n : ℕ} (hn : n < 16) : hexValue (hexDigit n) = some n := by
  unfold hexValue hexDigit
  split_ifs <;> first | omega | exact congrArg some (by omega)

theorem isQuoted_quoteByte {b : ℕ} (hb : b < 256) : ∀ c ∈ quoteByte b, isQuoted c := by
  have hhigh := hexDigit_mem (show b / 16 < 16 by omega)
  have hlow := hexDigit_mem (show b % 16 < 16 by omega)
  intro c hc
  rw [isQuoted_iff]
  unfold quoteByte at hc
  split_ifs at hc with hsafe hspace
  · rw [mem_singleton.mp hc]
    exact .inl hsafe
  · exact .inr (.inl (mem_singleton.mp hc))
  · rw [isAlwaysSafe_iff]
    simp only [mem_cons, not_mem_nil, or_false] at hc
    omega

theorem isQuoted_quoted {x : Points} (hx : x.all isScalar) : ∀ c ∈ quoted x, isQuoted c := by
  intro c hc
  obtain ⟨b, hb, hc⟩ := mem_flatMap.mp hc
  obtain ⟨n, hn, hb⟩ := mem_flatMap.mp hb
  exact isQuoted_quoteByte (encodePoint_lt (all_eq_true.mp hx n hn) b hb) c hc

theorem unquoteToBytes_cons {c : ℕ} (hc : c ≠ 37) (rest : Points) :
    unquoteToBytes (c :: rest) = c :: unquoteToBytes rest := by
  rw [unquoteToBytes]
  exact fun _ _ _ h ↦ absurd h hc

theorem unquoteToBytes_quoteByte {b : ℕ} (hb : b < 256) (rest : Points) :
    unquoteToBytes ((quoteByte b).map plusToSpace ++ rest) = b :: unquoteToBytes rest := by
  unfold quoteByte
  split_ifs with hsafe hspace
  · rw [isAlwaysSafe_iff] at hsafe
    rw [map_singleton, plusToSpace, if_neg (by omega)]
    exact unquoteToBytes_cons (by omega) rest
  · rw [hspace]
    exact unquoteToBytes_cons (c := 32) (by decide) rest
  · have hhigh : b / 16 < 16 := by omega
    have hlow : b % 16 < 16 := by omega
    have hplain : ∀ n < 16, plusToSpace (hexDigit n) = hexDigit n := fun n hn ↦
      if_neg (by have := hexDigit_mem hn; omega)
    simp only [map_cons, map_nil, hplain _ hhigh, hplain _ hlow, cons_append, nil_append]
    rw [plusToSpace, if_neg (by decide), unquoteToBytes, hexValue_hexDigit hhigh,
      hexValue_hexDigit hlow]
    exact congrArg (· :: unquoteToBytes rest) (by omega)

theorem unquoteToBytes_flatMap {bytes : List ℕ} (h : ∀ b ∈ bytes, b < 256) :
    unquoteToBytes ((bytes.flatMap quoteByte).map plusToSpace) = bytes := by
  induction bytes with
  | nil => rfl
  | cons b rest ih =>
    obtain ⟨hb, hrest⟩ := forall_mem_cons.mp h
    rw [flatMap_cons, map_append, unquoteToBytes_quoteByte hb, ih hrest]

theorem unquoteFrom_ascii (run : Points) {x : Points} (hx : ∀ c ∈ x, c < 128) :
    unquoteFrom run x = decode (unquoteToBytes (run ++ x)) := by
  induction x generalizing run with
  | nil => rw [unquoteFrom, append_nil]
  | cons c rest ih =>
    obtain ⟨hc, hrest⟩ := forall_mem_cons.mp hx
    rw [unquoteFrom, if_pos hc, ih _ hrest, append_assoc, singleton_append]

theorem isQuoted_lt {c : ℕ} (hc : isQuoted c) : 32 < c ∧ c < 128 := by
  rw [isQuoted_iff, isAlwaysSafe_iff] at hc
  omega

theorem unquotePlus_quoted {x : Points} (hx : x.all isScalar) : unquotePlus (quoted x) = x := by
  have hbytes : ∀ b ∈ x.flatMap encodePoint, b < 256 := by
    intro b hb
    obtain ⟨n, hn, hb⟩ := mem_flatMap.mp hb
    exact encodePoint_lt (all_eq_true.mp hx n hn) b hb
  have hascii : ∀ c ∈ (quoted x).map plusToSpace, c < 128 := by
    intro c hc
    obtain ⟨d, hd, rfl⟩ := mem_map.mp hc
    have hquoted := isQuoted_lt (isQuoted_quoted hx d hd)
    unfold plusToSpace
    split_ifs <;> omega
  rw [unquotePlus, unquoteFrom_ascii [] hascii, nil_append, quoted,
    unquoteToBytes_flatMap hbytes, decode_encode hx]

end Quoting

section Query

/-- `x.partition(k)`, the part before `k` and the part after it. -/
def upTo (k : ℕ) (x : Points) : Points := x.takeWhile (· ≠ k)

def past (k : ℕ) (x : Points) : Points := (x.dropWhile (· ≠ k)).tail

/-- `parse_qsl` with `keep_blank_values`. -/
def parseQsl (qs : Points) : List (Points × Points) :=
  ((qs.splitOn 38).filter (· ≠ [])).map (fun nameValue ↦
    (unquotePlus (upTo 61 nameValue), unquotePlus (past 61 nameValue)))

def quoteField (p : Points × Points) : Option Points := do
  let key ← quotePlus p.1
  let value ← quotePlus p.2
  some (key ++ 61 :: value)

/-- `urlencode`, or the UnicodeEncodeError. -/
def urlencode (query : List (Points × Points)) : Option Points :=
  (query.mapM quoteField).map [38].intercalate

def isEncodable (p : Points × Points) : Bool := p.1.all isScalar && p.2.all isScalar

variable {k : ℕ} {x : Points}

theorem upTo_of_not_mem (h : k ∉ x) : upTo k x = x :=
  takeWhile_eq_self_iff.mpr (fun _ hc ↦ decide_eq_true (ne_of_mem_of_not_mem hc h))

theorem past_of_not_mem (h : k ∉ x) : past k x = [] := by
  rw [past, dropWhile_eq_nil_iff.mpr
    (fun _ hc ↦ decide_eq_true (ne_of_mem_of_not_mem hc h))]
  rfl

theorem upTo_append (h : k ∉ x) (rest : Points) : upTo k (x ++ k :: rest) = x := by
  rw [upTo, takeWhile_append_of_pos
    (fun _ hc ↦ decide_eq_true (ne_of_mem_of_not_mem hc h))]
  simp

theorem past_append (h : k ∉ x) (rest : Points) : past k (x ++ k :: rest) = rest := by
  rw [past, dropWhile_append_of_pos
    (fun _ hc ↦ decide_eq_true (ne_of_mem_of_not_mem hc h))]
  simp

theorem not_mem_upTo (k : ℕ) (x : Points) : k ∉ upTo k x := by
  intro h
  have hne := mem_takeWhile_imp (p := fun c ↦ decide (c ≠ k)) h
  exact of_decide_eq_true hne rfl

theorem quoteField_eq_some {p : Points × Points} {field : Points} :
    quoteField p = some field ↔ isEncodable p ∧ quoted p.1 ++ 61 :: quoted p.2 = field := by
  simp only [quoteField, Option.bind_eq_bind, Option.bind_eq_some_iff, quotePlus_eq_some,
    Option.some_inj, isEncodable, Bool.and_eq_true]
  constructor
  · rintro ⟨_, ⟨hkey, rfl⟩, _, ⟨hvalue, rfl⟩, rfl⟩
    exact ⟨⟨hkey, hvalue⟩, rfl⟩
  · rintro ⟨⟨hkey, hvalue⟩, rfl⟩
    exact ⟨_, ⟨hkey, rfl⟩, _, ⟨hvalue, rfl⟩, rfl⟩

theorem mapM_quoteField {query : List (Points × Points)} {fields : List Points} :
    query.mapM quoteField = some fields ↔
      query.all isEncodable ∧ query.map (fun p ↦ quoted p.1 ++ 61 :: quoted p.2) = fields := by
  induction query generalizing fields with
  | nil => simp
  | cons p rest ih =>
    simp only [mapM_cons, Option.bind_eq_bind, Option.bind_eq_some_iff, quoteField_eq_some,
      Option.pure_def, Option.some_inj, all_cons, Bool.and_eq_true, map_cons, ih]
    constructor
    · rintro ⟨_, ⟨hp, rfl⟩, _, ⟨hrest, rfl⟩, rfl⟩
      exact ⟨⟨hp, hrest⟩, rfl⟩
    · rintro ⟨⟨hp, hrest⟩, rfl⟩
      exact ⟨_, ⟨hp, rfl⟩, _, ⟨hrest, rfl⟩, rfl⟩

theorem urlencode_eq_some {query : List (Points × Points)} {q : Points} :
    urlencode query = some q ↔ query.all isEncodable ∧
      [38].intercalate (query.map (fun p ↦ quoted p.1 ++ 61 :: quoted p.2)) = q := by
  simp only [urlencode, Option.map_eq_some_iff, mapM_quoteField]
  constructor
  · rintro ⟨_, ⟨hquery, rfl⟩, rfl⟩
    exact ⟨hquery, rfl⟩
  · rintro ⟨hquery, rfl⟩
    exact ⟨_, ⟨hquery, rfl⟩, rfl⟩

theorem not_mem_quoted {x : Points} (hx : x.all isScalar) (hk : isQuoted k = false) :
    k ∉ quoted x := by
  intro hmem
  rw [isQuoted_quoted hx k hmem] at hk
  cases hk

theorem parseQsl_urlencode {query : List (Points × Points)} {q : Points}
    (h : urlencode query = some q) : parseQsl q = query := by
  obtain ⟨hquery, rfl⟩ := urlencode_eq_some.mp h
  rcases query with _ | ⟨p, rest⟩
  · rfl
  set query := p :: rest
  have hencodable : ∀ p ∈ query, p.1.all isScalar ∧ p.2.all isScalar := fun p hp ↦
    Bool.and_eq_true_iff.mp (all_eq_true.mp hquery p hp)
  have hwhole : ∀ field ∈ query.map (fun p ↦ quoted p.1 ++ 61 :: quoted p.2), 38 ∉ field := by
    intro field hfield
    obtain ⟨p, hp, rfl⟩ := mem_map.mp hfield
    rw [mem_append, mem_cons]
    rintro (hmem | hmem | hmem)
    · exact not_mem_quoted (hencodable p hp).1 rfl hmem
    · cases hmem
    · exact not_mem_quoted (hencodable p hp).2 rfl hmem
  have hfilled : ∀ field ∈ query.map (fun p ↦ quoted p.1 ++ 61 :: quoted p.2),
      decide (field ≠ []) = true := by
    intro field hfield
    obtain ⟨p, -, rfl⟩ := mem_map.mp hfield
    simp
  rw [parseQsl, splitOn_intercalate 38 hwhole (by simp [query]),
    filter_eq_self.mpr hfilled, map_map]
  refine (map_congr_left (fun p hp ↦ ?_)).trans (map_id _)
  have hkey := not_mem_quoted (k := 61) (hencodable p hp).1 rfl
  rw [Function.comp_apply, upTo_append hkey, past_append hkey,
    unquotePlus_quoted (hencodable p hp).1, unquotePlus_quoted (hencodable p hp).2]
  rfl

theorem mem_intercalate {c : ℕ} {fields : List Points} (h : c ∈ [k].intercalate fields) :
    c = k ∨ ∃ field ∈ fields, c ∈ field := by
  induction fields with
  | nil => cases h
  | cons field rest ih =>
    rcases rest with _ | ⟨next, rest⟩
    · rw [intercalate_singleton] at h
      exact .inr ⟨field, mem_cons_self, h⟩
    · rw [intercalate_cons_cons, mem_append, mem_append, mem_singleton] at h
      rcases h with (h | h) | h
      · exact .inr ⟨field, mem_cons_self, h⟩
      · exact .inl h
      · exact (ih h).imp_right (fun ⟨field, hfield, h⟩ ↦ ⟨field, mem_cons_of_mem _ hfield, h⟩)

theorem mem_urlencode {query : List (Points × Points)} {q : Points} (h : urlencode query = some q) :
    ∀ c ∈ q, isQuoted c ∨ c = 61 ∨ c = 38 := by
  obtain ⟨hquery, rfl⟩ := urlencode_eq_some.mp h
  intro c hc
  rcases mem_intercalate hc with hsep | ⟨field, hfield, hc⟩
  · exact .inr (.inr hsep)
  · obtain ⟨p, hp, rfl⟩ := mem_map.mp hfield
    obtain ⟨hkey, hvalue⟩ := Bool.and_eq_true_iff.mp (all_eq_true.mp hquery p hp)
    rw [mem_append, mem_cons] at hc
    rcases hc with hc | hc | hc
    · exact .inl (isQuoted_quoted hkey c hc)
    · exact .inr (.inl hc)
    · exact .inl (isQuoted_quoted hvalue c hc)

theorem urlencode_eq_nil {query : List (Points × Points)} (h : urlencode query = some []) :
    query = [] := by
  rw [← parseQsl_urlencode h]
  rfl

end Query

end TalaPala.Library.Urllib
