import TalaPala.Library.Percent
import Mathlib.Data.List.DropRight
import Mathlib.Data.List.Infix
import Mathlib.Data.Nat.Digits.Defs

namespace TalaPala.Library.Urllib

open List

/-! `urlsplit`, the properties of what it returns, and `urlunsplit`. -/

section Lowering

def isUpper (c : ℕ) : Bool := 65 ≤ c && c ≤ 90

def isAlpha (c : ℕ) : Bool := isUpper c || (97 ≤ c && c ≤ 122)

def isDigit (c : ℕ) : Bool := 48 ≤ c && c ≤ 57

def lowerAscii (c : ℕ) : ℕ := if isUpper c then c + 32 else c

/-- The code points past ASCII whose NFKC form holds one of `/?#@:`. -/
def spellsDelimiter (c : ℕ) : Bool :=
  [0x2047, 0x2048, 0x2049, 0x2100, 0x2101, 0x2105, 0x2106, 0x2a74, 0xfe13, 0xfe16, 0xfe55, 0xfe56,
    0xfe5f, 0xfe6b, 0xff03, 0xff0f, 0xff1a, 0xff1f, 0xff20].contains c

def isPlain (c : ℕ) : Bool := (c < 128 && !isAlpha c) || spellsDelimiter c

/-- `str.lower`, of which only the ASCII part is spelled out. -/
structure Lowering where
  lower : Points → Points
  lower_ascii : ∀ x, (∀ c ∈ x, c < 128) → lower x = x.map lowerAscii
  lower_lower : ∀ x, ∀ c ∈ lower x, lower [c] = [c]
  lower_fixed : ∀ x, (∀ c ∈ x, lower [c] = [c]) → lower x = x
  mem_of_lower : ∀ x, ∀ c ∈ lower x, isPlain c → c ∈ x

theorem isUpper_iff {c : ℕ} : isUpper c ↔ 65 ≤ c ∧ c ≤ 90 := by
  simp [isUpper]

theorem isAlpha_iff {c : ℕ} : isAlpha c ↔ (65 ≤ c ∧ c ≤ 90) ∨ (97 ≤ c ∧ c ≤ 122) := by
  simp [isAlpha, isUpper]

theorem isDigit_iff {c : ℕ} : isDigit c ↔ 48 ≤ c ∧ c ≤ 57 := by
  simp [isDigit]

theorem lowerAscii_cases (c : ℕ) : 65 ≤ c ∧ c ≤ 90 ∧ lowerAscii c = c + 32 ∨
    ¬ (65 ≤ c ∧ c ≤ 90) ∧ lowerAscii c = c := by
  unfold lowerAscii
  by_cases h : isUpper c
  · rw [if_pos h]
    exact .inl ⟨(isUpper_iff.mp h).1, (isUpper_iff.mp h).2, rfl⟩
  · rw [if_neg h]
    exact .inr ⟨fun hc ↦ h (isUpper_iff.mpr hc), rfl⟩

theorem spellsDelimiter_of_ascii {c : ℕ} (hc : c < 128) : spellsDelimiter c = false := by
  rw [← Bool.not_eq_true, spellsDelimiter, contains_iff_mem]
  simp only [mem_cons, not_mem_nil, or_false]
  omega

theorem isPlain_of_ascii {c : ℕ} (hc : c < 128) (halpha : isAlpha c = false) : isPlain c := by
  simp [isPlain, hc, halpha]

theorem Lowering.lower_nil (l : Lowering) : l.lower [] = [] := l.lower_fixed [] (by simp)

theorem Lowering.lower_singleton (l : Lowering) {c : ℕ} (hc : c < 128)
    (hupper : isUpper c = false) : l.lower [c] = [c] := by
  rw [l.lower_ascii [c] (by simpa), map_singleton, lowerAscii, hupper]
  rfl

def Lowering.ascii : Lowering where
  lower := List.map lowerAscii
  lower_ascii _ _ := rfl
  lower_lower x c hc := by
    obtain ⟨d, -, rfl⟩ := mem_map.mp hc
    have hd := lowerAscii_cases d
    have hc := lowerAscii_cases (lowerAscii d)
    rw [map_singleton]
    congr 1
    omega
  lower_fixed x hx := by
    refine (map_congr_left (fun c hc ↦ ?_)).trans (map_id x)
    exact (singleton_inj.mp (hx c hc))
  mem_of_lower x c hc hplain := by
    obtain ⟨d, hd, rfl⟩ := mem_map.mp hc
    obtain ⟨hlow, hhigh, heq⟩ | ⟨-, heq⟩ := lowerAscii_cases d
    · have hletter : isAlpha (lowerAscii d) := isAlpha_iff.mpr (by omega)
      rw [isPlain, hletter, spellsDelimiter_of_ascii (by omega)] at hplain
      simp at hplain
    · rwa [heq]

end Lowering

section Blanks

/-- What `str.strip` removes. -/
def isBlank (c : ℕ) : Bool :=
  (9 ≤ c && c ≤ 13) || (28 ≤ c && c ≤ 32) || c = 0x85 || c = 0xa0 || c = 0x1680 ||
    (0x2000 ≤ c && c ≤ 0x200a) || c = 0x2028 || c = 0x2029 || c = 0x202f || c = 0x205f || c = 0x3000

def strip (x : Points) : Points := (x.dropWhile isBlank).rdropWhile isBlank

theorem isBlank_bounds {c : ℕ} (h : isBlank c) : c ≤ 32 ∨ 128 ≤ c := by
  simp only [isBlank, Bool.or_eq_true, Bool.and_eq_true, decide_eq_true_eq] at h
  omega

theorem isBlank_of_ascii {c : ℕ} (hlow : 32 < c) (hhigh : c < 128) : isBlank c = false := by
  rw [← Bool.not_eq_true]
  intro h
  have := isBlank_bounds h
  omega

theorem strip_cons {c : ℕ} (hc : isBlank c = false) (x : Points) :
    strip (c :: x) = (c :: x).rdropWhile isBlank := by
  rw [strip, dropWhile_cons_of_neg (by simp [hc])]

theorem rdropWhile_cons_of_not_blank {c : ℕ} (hc : isBlank c = false) (x : Points) :
    (c :: x).rdropWhile isBlank = c :: x.rdropWhile isBlank := by
  induction x using List.reverseRecOn with
  | nil => rw [rdropWhile_singleton, if_neg (by simp [hc])]; rfl
  | append_singleton x d ih =>
    rw [← cons_append]
    by_cases hd : isBlank d
    · rw [rdropWhile_concat_pos _ _ _ hd, rdropWhile_concat_pos _ _ _ hd, ih]
    · rw [rdropWhile_concat_neg _ _ _ hd, rdropWhile_concat_neg _ _ _ hd, cons_append]

theorem strip_strip (x : Points) : strip (strip x) = strip x := by
  cases hx : x.dropWhile isBlank with
  | nil =>
    have hstrip : strip x = [] := by
      rw [strip, hx]
      rfl
    rw [hstrip]
    rfl
  | cons c rest =>
    have hc : isBlank c = false := by
      have hstop := head?_dropWhile_not isBlank x
      rw [hx] at hstop
      exact hstop
    have hstrip : strip x = c :: rest.rdropWhile isBlank := by
      rw [strip, hx, rdropWhile_cons_of_not_blank hc]
    rw [hstrip, strip_cons hc, rdropWhile_cons_of_not_blank hc, rdropWhile_idempotent]

theorem rdropWhile_append_left {x y : Points} (h : y.rdropWhile isBlank ≠ []) :
    (x ++ y).rdropWhile isBlank = x ++ y.rdropWhile isBlank := by
  rw [List.rdropWhile, reverse_append, dropWhile_append]
  split
  · rename_i hempty
    rw [List.rdropWhile, List.isEmpty_iff.mp hempty] at h
    exact absurd rfl h
  · rw [reverse_append, reverse_reverse, List.rdropWhile]

end Blanks

section Splitting

structure Parts where
  scheme : Points
  netloc : Points
  path : Points
  query : Points
  fragment : Points
deriving DecidableEq

def isRemoved (c : ℕ) : Bool := c = 9 || c = 10 || c = 13

def cleaned (url : Points) : Points := (url.dropWhile (· ≤ 32)).filter (!isRemoved ·)

def isSchemeChar (c : ℕ) : Bool := isAlpha c || isDigit c || c = 43 || c = 45 || c = 46

def isSchemeText (x : Points) : Bool := x.head?.any isAlpha && x.all isSchemeChar

def splitScheme (l : Lowering) (url : Points) : Points × Points :=
  if 58 ∈ url ∧ isSchemeText (upTo 58 url) then (l.lower (upTo 58 url), past 58 url)
  else ([], url)

def endsNetloc (c : ℕ) : Bool := c = 47 || c = 63 || c = 35

def splitNetloc : Points → Points × Points
  | 47 :: 47 :: rest => (rest.takeWhile (!endsNetloc ·), rest.dropWhile (!endsNetloc ·))
  | url => ([], url)

/-- `x.rpartition(k)[2]`. -/
def pastLast (k : ℕ) (x : Points) : Points := (upTo k x.reverse).reverse

def isHex (c : ℕ) : Bool := (hexValue c).isSome

/-- `v[a-fA-F0-9]+\..+`, on one line. -/
def isIPvFuture : Points → Bool
  | 118 :: rest =>
    match rest.dropWhile isHex with
    | 46 :: address => rest.head?.any isHex && !address.isEmpty && !address.contains 10
    | _ => false
  | _ => false

/-- Whether `ip_address` reads an address of version 6 is a parameter. -/
def checkBracketedHost (isIPv6 : Points → Bool) (host : Points) : Bool :=
  if host.head? = some 118 then isIPvFuture host else isIPv6 host

def checkBracketedNetloc (isIPv6 : Points → Bool) (netloc : Points) : Bool :=
  let host := pastLast 64 netloc
  if 91 ∈ host then
    let port := past 93 (past 91 host)
    upTo 91 host = [] && (port = [] || port.head? = some 58) &&
      checkBracketedHost isIPv6 (upTo 93 (past 91 host))
  else checkBracketedHost isIPv6 (upTo 58 host)

/-- The checks under which `urlsplit` raises no ValueError. -/
def acceptsNetloc (isIPv6 : Points → Bool) (netloc : Points) : Bool :=
  decide (91 ∈ netloc ↔ 93 ∈ netloc) && (!netloc.contains 91 || checkBracketedNetloc isIPv6 netloc) &&
    !netloc.any spellsDelimiter

def splitRest (isIPv6 : Points → Bool) (scheme rest : Points) : Option Parts :=
  let (netloc, url) := splitNetloc rest
  if acceptsNetloc isIPv6 netloc then
    some ⟨scheme, netloc, upTo 63 (upTo 35 url), past 63 (upTo 35 url), past 35 url⟩
  else none

/-- `none` is the ValueError. -/
def urlsplit (l : Lowering) (isIPv6 : Points → Bool) (url : Points) : Option Parts :=
  splitRest isIPv6 (splitScheme l (cleaned url)).1 (splitScheme l (cleaned url)).2

def Parts.hostinfo (p : Parts) : Points := pastLast 64 p.netloc

def Parts.hostText (p : Parts) : Points :=
  if 91 ∈ p.hostinfo then upTo 93 (past 91 p.hostinfo) else upTo 58 p.hostinfo

def Parts.portText (p : Parts) : Points :=
  if 91 ∈ p.hostinfo then past 58 (past 93 (past 91 p.hostinfo)) else past 58 p.hostinfo

def Parts.hostname (l : Lowering) (p : Parts) : Points :=
  l.lower (upTo 37 p.hostText) ++ p.hostText.drop (upTo 37 p.hostText).length

def digitsValue (x : Points) : ℕ := Nat.ofDigits 10 (x.reverse.map (· - 48))

def Parts.port (p : Parts) : Option (Option ℕ) :=
  if p.portText = [] then some none
  else if p.portText.all isDigit && decide (digitsValue p.portText ≤ 65535) then
    some (some (digitsValue p.portText))
  else none

/-- `str` of a number. -/
def decimal (n : ℕ) : Points :=
  if n = 0 then [48] else (Nat.digits 10 n).reverse.map (48 + ·)

def usesNetloc : List Points :=
  ["ftp", "http", "gopher", "nntp", "telnet", "imap", "wais", "file", "mms", "https", "shttp",
    "snews", "prospero", "rtsp", "rtsps", "rtspu", "rsync", "svn", "svn+ssh", "sftp", "nfs", "git",
    "git+ssh", "ws", "wss", "itms-services"].map points

/-- What `urlunsplit` writes of the netloc and the path. -/
def hier (scheme netloc path : Points) : Points :=
  if netloc ≠ [] then
    47 :: 47 :: netloc ++ (if path ≠ [] ∧ path.head? ≠ some 47 then 47 :: path else path)
  else if [47, 47] <+: path then 47 :: 47 :: path
  else if scheme ∈ usesNetloc ∧ (path = [] ∨ path.head? = some 47) then 47 :: 47 :: path
  else path

def urlunsplit (p : Parts) : Points :=
  (if p.scheme ≠ [] then p.scheme ++ [58] else []) ++ hier p.scheme p.netloc p.path ++
    (if p.query ≠ [] then 63 :: p.query else []) ++ if p.fragment ≠ [] then 35 :: p.fragment else []

end Splitting

section Scheme

variable {l : Lowering} {scheme rest : Points}

/-- A scheme as `urlsplit` gives it. -/
structure IsScheme (l : Lowering) (scheme : Points) : Prop where
  text : isSchemeText scheme
  lower : l.lower scheme = scheme

theorem isSchemeChar_iff {c : ℕ} :
    isSchemeChar c ↔ isAlpha c ∨ isDigit c ∨ c = 43 ∨ c = 45 ∨ c = 46 := by
  simp only [isSchemeChar, Bool.or_eq_true, decide_eq_true_eq, or_assoc]

theorem isSchemeChar_bounds {c : ℕ} (h : isSchemeChar c) : 32 < c ∧ c < 128 ∧ c ≠ 58 := by
  rw [isSchemeChar_iff, isAlpha_iff, isDigit_iff] at h
  omega

theorem isSchemeText_iff {x : Points} :
    isSchemeText x ↔ (∃ c rest, x = c :: rest ∧ isAlpha c) ∧ ∀ c ∈ x, isSchemeChar c := by
  rcases x with _ | ⟨c, rest⟩
  · simp [isSchemeText]
  · simp [isSchemeText]

theorem IsScheme.ne_nil (h : IsScheme l scheme) : scheme ≠ [] := by
  rintro rfl
  cases h.text

theorem IsScheme.not_mem_colon (h : IsScheme l scheme) : 58 ∉ scheme := fun hmem ↦
  (isSchemeChar_bounds ((isSchemeText_iff.mp h.text).2 58 hmem)).2.2 rfl

theorem isSchemeChar_lowerAscii {c : ℕ} (h : isSchemeChar c) : isSchemeChar (lowerAscii c) := by
  have hlower := lowerAscii_cases c
  rw [isSchemeChar_iff, isAlpha_iff, isDigit_iff] at h ⊢
  omega

theorem splitScheme_cases (l : Lowering) (url : Points) :
    (splitScheme l url).1 = [] ∧ (splitScheme l url).2 = url ∨
      IsScheme l (splitScheme l url).1 ∧ ∃ front, url = front ++ 58 :: (splitScheme l url).2 := by
  unfold splitScheme
  split_ifs with h
  · obtain ⟨hcolon, htext⟩ := h
    obtain ⟨⟨c, rest, hcons, hc⟩, hchars⟩ := isSchemeText_iff.mp htext
    have hlower : l.lower (upTo 58 url) = (upTo 58 url).map lowerAscii :=
      l.lower_ascii _ (fun c hc ↦ (isSchemeChar_bounds (hchars c hc)).2.1)
    refine .inr ⟨⟨isSchemeText_iff.mpr ⟨?_, ?_⟩, ?_⟩, ?_⟩
    · have halpha := lowerAscii_cases c
      rw [isAlpha_iff] at hc
      exact ⟨lowerAscii c, rest.map lowerAscii, by rw [hlower, hcons, map_cons],
        isAlpha_iff.mpr (by omega)⟩
    · rw [hlower]
      intro d hd
      obtain ⟨c, hc, rfl⟩ := mem_map.mp hd
      exact isSchemeChar_lowerAscii (hchars c hc)
    · exact l.lower_fixed _ (l.lower_lower _)
    · obtain ⟨front, rest, rfl, hfront⟩ := eq_append_cons_of_mem hcolon
      exact ⟨front, by rw [past_append hfront]⟩
  · exact .inl ⟨rfl, rfl⟩

theorem splitScheme_scheme (h : IsScheme l scheme) (rest : Points) :
    splitScheme l (scheme ++ 58 :: rest) = (scheme, rest) := by
  rw [splitScheme, upTo_append h.not_mem_colon, past_append h.not_mem_colon,
    if_pos ⟨by simp, h.text⟩, h.lower]

theorem cleaned_scheme (h : IsScheme l scheme) (rest : Points) :
    cleaned (scheme ++ 58 :: rest) = scheme ++ 58 :: rest.filter (!isRemoved ·) := by
  obtain ⟨⟨c, tail, hcons, -⟩, hchars⟩ := isSchemeText_iff.mp h.text
  have hkept : scheme.filter (!isRemoved ·) = scheme := by
    refine filter_eq_self.mpr (fun d hd ↦ ?_)
    have hd := isSchemeChar_bounds (hchars d hd)
    simp only [isRemoved, Bool.not_eq_true', Bool.or_eq_false_iff, decide_eq_false_iff_not]
    omega
  have hfirst : (scheme ++ 58 :: rest).dropWhile (· ≤ 32) = scheme ++ 58 :: rest := by
    have hc := isSchemeChar_bounds (hchars c (hcons ▸ mem_cons_self))
    rw [hcons, cons_append, dropWhile_cons_of_neg (by simpa using hc.1)]
  rw [cleaned, hfirst, filter_append, hkept, filter_cons_of_pos rfl]

theorem urlsplit_scheme {isIPv6 : Points → Bool} {p : Parts} (h : IsScheme l scheme)
    (hp : urlsplit l isIPv6 (scheme ++ 58 :: rest) = some p) : p.scheme = scheme := by
  rw [urlsplit, cleaned_scheme h, splitScheme_scheme h, splitRest] at hp
  dsimp only at hp
  split_ifs at hp
  exact congrArg Parts.scheme (Option.some_inj.mp hp).symm

end Scheme

section Authority

variable {l : Lowering} {isIPv6 : Points → Bool} {scheme netloc lead path query : Points}

def Leads (netloc lead path : Points) : Prop :=
  lead = 47 :: 47 :: netloc ∧ (path = [] ∨ path.head? = some 47) ∨
    lead = [] ∧ netloc = [] ∧ ¬ [47, 47] <+: path

def queryTail (query : Points) : Points := if query ≠ [] then 63 :: query else []

theorem splitNetloc_of_not_prefix {url : Points} (h : ¬ [47, 47] <+: url) :
    splitNetloc url = ([], url) := by
  unfold splitNetloc
  split
  · rename_i rest
    exact absurd ⟨rest, rfl⟩ h
  · rfl

theorem endsNetloc_iff {c : ℕ} : endsNetloc c ↔ c = 47 ∨ c = 63 ∨ c = 35 := by
  simp only [endsNetloc, Bool.or_eq_true, decide_eq_true_eq, or_assoc]

theorem splitNetloc_append (hnetloc : ∀ c ∈ netloc, endsNetloc c = false) {tail : Points}
    (htail : ∀ c ∈ tail.head?, endsNetloc c) :
    splitNetloc (47 :: 47 :: netloc ++ tail) = (netloc, tail) := by
  have hkept : ∀ c ∈ netloc, (!endsNetloc c) = true := fun c hc ↦ by rw [hnetloc c hc]; rfl
  rw [cons_append, cons_append, splitNetloc, takeWhile_append_of_pos hkept,
    dropWhile_append_of_pos hkept]
  rcases tail with _ | ⟨c, tail⟩
  · simp
  · have hc : endsNetloc c := htail c rfl
    rw [takeWhile_cons_of_neg (by simp [hc]), dropWhile_cons_of_neg (by simp [hc]),
      append_nil]

theorem queryTail_head (query : Points) : ∀ c ∈ (queryTail query).head?, c = 63 := by
  unfold queryTail
  split_ifs
  · exact fun c hc ↦ (Option.some_inj.mp hc).symm
  · exact fun c hc ↦ by cases hc

theorem slashes_prefix_append {tail : Points} (htail : ∀ c ∈ tail.head?, c = 63) :
    [47, 47] <+: path ++ tail ↔ [47, 47] <+: path := by
  refine ⟨fun h ↦ ?_, fun h ↦ h.trans (prefix_append _ _)⟩
  rcases tail with _ | ⟨c, tail⟩
  · rwa [append_nil] at h
  · have hc : c = 63 := htail c rfl
    rcases path with _ | ⟨d, _ | ⟨e, path⟩⟩ <;> simp [hc] at h ⊢
    exact h

theorem splitNetloc_leads (h : Leads netloc lead path)
    (hnetloc : ∀ c ∈ netloc, endsNetloc c = false) (query : Points) :
    splitNetloc (lead ++ (path ++ queryTail query)) = (netloc, path ++ queryTail query) := by
  obtain ⟨rfl, hpath⟩ | ⟨rfl, rfl, hpath⟩ := h
  · refine splitNetloc_append hnetloc (fun c hc ↦ endsNetloc_iff.mpr ?_)
    rcases path with _ | ⟨d, path⟩
    · exact .inr (.inl (queryTail_head query c hc))
    · have hd : d = 47 := Option.some_inj.mp (hpath.resolve_left (cons_ne_nil _ _))
      exact .inl ((Option.some_inj.mp hc).symm.trans hd)
  · refine splitNetloc_of_not_prefix (fun hleads ↦ hpath ?_)
    exact (slashes_prefix_append (queryTail_head query)).mp hleads

/-- What a path is after `urlsplit`. -/
def isPathChar (c : ℕ) : Bool := c ≠ 63 && c ≠ 35 && !isRemoved c

def isNetlocChar (c : ℕ) : Bool := !endsNetloc c && !isRemoved c

theorem isPathChar_iff {c : ℕ} : isPathChar c ↔ c ≠ 63 ∧ c ≠ 35 ∧ isRemoved c = false := by
  simp [isPathChar, and_assoc]

theorem isNetlocChar_iff {c : ℕ} :
    isNetlocChar c ↔ endsNetloc c = false ∧ isRemoved c = false := by
  simp [isNetlocChar]

theorem urlsplit_leads (hscheme : IsScheme l scheme) (h : Leads netloc lead path)
    (hnetloc : ∀ c ∈ netloc, isNetlocChar c) (hpath : ∀ c ∈ path, isPathChar c)
    (hquery : ∀ c ∈ query, c ≠ 35 ∧ isRemoved c = false) :
    urlsplit l isIPv6 (scheme ++ 58 :: (lead ++ (path ++ queryTail query))) =
      if acceptsNetloc isIPv6 netloc then some ⟨scheme, netloc, path, query, []⟩ else none := by
  have htail : ∀ c ∈ queryTail query, c ≠ 35 ∧ isRemoved c = false := by
    unfold queryTail
    split_ifs
    · exact forall_mem_cons.mpr ⟨by decide, hquery⟩
    · exact fun c hc ↦ by cases hc
  have hlead : ∀ c ∈ lead, isRemoved c = false := by
    obtain ⟨rfl, -⟩ | ⟨rfl, -⟩ := h
    · refine forall_mem_cons.mpr ⟨rfl, forall_mem_cons.mpr ⟨rfl, fun c hc ↦ ?_⟩⟩
      exact (isNetlocChar_iff.mp (hnetloc c hc)).2
    · exact fun c hc ↦ by cases hc
  have hclean : ∀ c ∈ lead ++ (path ++ queryTail query), isRemoved c = false := by
    intro c hc
    rcases mem_append.mp hc with hc | hc
    · exact hlead c hc
    · rcases mem_append.mp hc with hc | hc
      · exact (isPathChar_iff.mp (hpath c hc)).2.2
      · exact (htail c hc).2
  have hfragment : 35 ∉ path ++ queryTail query := by
    rw [mem_append]
    rintro (hc | hc)
    · exact (isPathChar_iff.mp (hpath _ hc)).2.1 rfl
    · exact (htail _ hc).1 rfl
  have hmark : 63 ∉ path := fun hc ↦ (isPathChar_iff.mp (hpath _ hc)).1 rfl
  have hkept := filter_eq_self.mpr (fun c hc ↦ Bool.not_eq_true' _ ▸ hclean c hc)
  rw [urlsplit, cleaned_scheme hscheme, hkept, splitScheme_scheme hscheme, splitRest,
    splitNetloc_leads h (fun c hc ↦ (isNetlocChar_iff.mp (hnetloc c hc)).1)]
  dsimp only
  rw [upTo_of_not_mem hfragment, past_of_not_mem hfragment]
  unfold queryTail
  split_ifs with haccepts hfilled
  · rw [upTo_append hmark, past_append hmark]
  · rw [append_nil, upTo_of_not_mem hmark, past_of_not_mem hmark, not_not.mp hfilled]
  · rfl

theorem hier_leads (scheme : Points) (h : netloc ≠ [] → path = [] ∨ path.head? = some 47) :
    ∃ lead, hier scheme netloc path = lead ++ path ∧ Leads netloc lead path := by
  unfold hier
  split_ifs with hnetloc hrootless hslashes hroot
  · exact absurd (h hnetloc) (by rintro (hempty | hroot) <;> simp_all)
  · exact ⟨_, rfl, .inl ⟨rfl, h hnetloc⟩⟩
  · obtain ⟨rest, rfl⟩ := hslashes
    exact ⟨[47, 47], rfl, .inl ⟨by rw [not_not.mp hnetloc], .inr rfl⟩⟩
  · exact ⟨[47, 47], rfl, .inl ⟨by rw [not_not.mp hnetloc], hroot.2⟩⟩
  · exact ⟨[], rfl, .inr ⟨rfl, not_not.mp hnetloc, hslashes⟩⟩

theorem urlunsplit_eq (hscheme : scheme ≠ []) :
    urlunsplit ⟨scheme, netloc, path, query, []⟩ =
      scheme ++ 58 :: (hier scheme netloc path ++ queryTail query) := by
  simp [urlunsplit, hscheme, queryTail]

theorem length_hier_lt {netloc' : Points} (h : netloc'.length < netloc.length) :
    (hier scheme netloc' path).length < (hier scheme netloc path).length := by
  have hnetloc : netloc ≠ [] := ne_nil_of_length_pos (Nat.zero_lt_of_lt h)
  unfold hier
  rw [if_pos hnetloc]
  split_ifs <;> simp only [length_cons, length_append] <;> omega

theorem rdropWhile_root {path : Points} (h : path.head? = some 47) :
    ∃ rest, path.rdropWhile isBlank = 47 :: rest := by
  rcases path with _ | ⟨c, path⟩
  · cases h
  · obtain rfl := Option.some_inj.mp h
    exact ⟨_, rdropWhile_cons_of_not_blank rfl path⟩

theorem Leads.rdropWhile (h : Leads netloc lead path) :
    ∃ netloc' lead', (lead ++ path).rdropWhile isBlank = lead' ++ path.rdropWhile isBlank ∧
      Leads netloc' lead' (path.rdropWhile isBlank) ∧
      netloc' = if path = [] then netloc.rdropWhile isBlank else netloc := by
  obtain ⟨rfl, hpath⟩ | ⟨rfl, rfl, hpath⟩ := h
  · by_cases hempty : path = []
    · rw [hempty]
      refine ⟨_, 47 :: 47 :: netloc.rdropWhile isBlank, ?_, .inl ⟨rfl, .inl rfl⟩, (if_pos rfl).symm⟩
      rw [append_nil, rdropWhile_cons_of_not_blank rfl, rdropWhile_cons_of_not_blank rfl]
      exact (append_nil _).symm
    · obtain ⟨rest, hrest⟩ := rdropWhile_root (hpath.resolve_left hempty)
      refine ⟨netloc, 47 :: 47 :: netloc, ?_, .inl ⟨rfl, .inr ?_⟩, (if_neg hempty).symm⟩
      · exact rdropWhile_append_left (by rw [hrest]; simp)
      · rw [hrest]
        rfl
  · refine ⟨[], [], rfl, .inr ⟨rfl, rfl, ?_⟩, ?_⟩
    · exact fun hleads ↦ hpath (hleads.trans (List.rdropWhile_prefix _ _))
    · rw [rdropWhile_nil, ite_self]

/-- What `urlsplit` promises of its parts. -/
structure Parts.WellFormed (l : Lowering) (isIPv6 : Points → Bool) (p : Parts) : Prop where
  scheme : p.scheme = [] ∨ IsScheme l p.scheme
  accepts : acceptsNetloc isIPv6 p.netloc
  netloc : ∀ c ∈ p.netloc, isNetlocChar c
  path : ∀ c ∈ p.path, isPathChar c
  shape : p.netloc ≠ [] → p.path = [] ∨ p.path.head? = some 47

theorem not_isRemoved_cleaned {url : Points} : ∀ c ∈ cleaned url, isRemoved c = false := by
  intro c hc
  have hkept := (mem_filter.mp hc).2
  rwa [Bool.not_eq_true'] at hkept

theorem splitNetloc_spec (url : Points) :
    (∀ c ∈ (splitNetloc url).1, c ∈ url ∧ endsNetloc c = false) ∧
      (∀ c ∈ (splitNetloc url).2, c ∈ url) ∧
      ((splitNetloc url).1 ≠ [] → ∀ c ∈ (splitNetloc url).2.head?, endsNetloc c) := by
  unfold splitNetloc
  split
  · rename_i rest
    refine ⟨fun c hc ↦ ⟨?_, ?_⟩, fun c hc ↦ ?_, fun _ c hc ↦ ?_⟩
    · exact mem_cons_of_mem _ (mem_cons_of_mem _ ((List.takeWhile_prefix _).subset hc))
    · have hkept := mem_takeWhile_imp hc
      rwa [Bool.not_eq_true'] at hkept
    · exact mem_cons_of_mem _ (mem_cons_of_mem _ ((dropWhile_suffix _).subset hc))
    · have hstop := head?_dropWhile_not (!endsNetloc ·) rest
      rw [Option.mem_def.mp hc] at hstop
      simpa using hstop
  · exact ⟨fun _ hc ↦ absurd hc not_mem_nil, fun _ hc ↦ hc, fun h ↦ absurd rfl h⟩

theorem upTo_subset (k : ℕ) (x : Points) : ∀ c ∈ upTo k x, c ∈ x :=
  fun _ hc ↦ (List.takeWhile_prefix _).subset hc

theorem upTo_cons (k c : ℕ) (x : Points) :
    upTo k (c :: x) = if c = k then [] else c :: upTo k x := by
  unfold upTo
  split_ifs with h
  · rw [takeWhile_cons_of_neg (by simp [h])]
  · rw [takeWhile_cons_of_pos (by simp [h])]

theorem urlsplit_wellFormed {url : Points} {p : Parts} (h : urlsplit l isIPv6 url = some p) :
    p.WellFormed l isIPv6 := by
  rw [urlsplit] at h
  have hrest : ∀ c ∈ (splitScheme l (cleaned url)).2, isRemoved c = false := by
    intro c hc
    suffices hmem : c ∈ cleaned url from not_isRemoved_cleaned c hmem
    obtain ⟨-, heq⟩ | ⟨-, front, heq⟩ := splitScheme_cases l (cleaned url)
    · rwa [heq] at hc
    · rw [heq]
      exact mem_append_right _ (mem_cons_of_mem _ hc)
  have hscheme : (splitScheme l (cleaned url)).1 = [] ∨ IsScheme l (splitScheme l (cleaned url)).1 :=
    (splitScheme_cases l (cleaned url)).imp And.left And.left
  obtain ⟨hnetloc, hsubset, hends⟩ := splitNetloc_spec (splitScheme l (cleaned url)).2
  unfold splitRest at h
  dsimp only at h
  split_ifs at h with haccepts
  obtain rfl := Option.some_inj.mp h
  refine ⟨hscheme, haccepts, fun c hc ↦ ?_, fun c hc ↦ ?_, fun hfilled ↦ ?_⟩
  · exact isNetlocChar_iff.mpr ⟨(hnetloc c hc).2, hrest c (hnetloc c hc).1⟩
  · have hfront := upTo_subset _ _ c hc
    refine isPathChar_iff.mpr ⟨?_, ?_, hrest c (hsubset c (upTo_subset _ _ c hfront))⟩
    · exact fun heq ↦ not_mem_upTo 63 _ (heq ▸ hc)
    · exact fun heq ↦ not_mem_upTo 35 _ (heq ▸ hfront)
  · have hends := hends hfilled
    dsimp only
    cases htail : (splitNetloc (splitScheme l (cleaned url)).2).2 with
    | nil => exact .inl rfl
    | cons c tail =>
      rw [htail] at hends
      rw [upTo_cons]
      split_ifs with hhash
      · exact .inl rfl
      · rw [upTo_cons]
        split_ifs with hmark
        · exact .inl rfl
        · have hc := endsNetloc_iff.mp (hends c rfl)
          exact .inr (congrArg some (by omega))

end Authority

section Netloc

variable {l : Lowering} {p : Parts} {host text : Points}

theorem upTo_isPrefix (k : ℕ) (x : Points) : upTo k x <+: x := takeWhile_prefix _

theorem past_suffix (k : ℕ) (x : Points) : past k x <:+ x :=
  (tail_suffix _).trans (dropWhile_suffix _)

theorem pastLast_suffix (k : ℕ) (x : Points) : pastLast k x <:+ x := by
  rw [pastLast, ← reverse_prefix, reverse_reverse]
  exact upTo_isPrefix k x.reverse

theorem not_mem_pastLast (k : ℕ) (x : Points) : k ∉ pastLast k x := by
  rw [pastLast, mem_reverse]
  exact not_mem_upTo k _

theorem pastLast_of_not_mem {k : ℕ} {x : Points} (h : k ∉ x) : pastLast k x = x := by
  rw [pastLast, upTo_of_not_mem (by rwa [mem_reverse]), reverse_reverse]

theorem Parts.hostText_infix (p : Parts) : p.hostText <:+: p.hostinfo := by
  unfold hostText
  split_ifs
  · exact (upTo_isPrefix _ _).isInfix.trans (past_suffix _ _).isInfix
  · exact (upTo_isPrefix _ _).isInfix

theorem Parts.hostText_length_le (p : Parts) : p.hostText.length ≤ p.netloc.length :=
  p.hostText_infix.length_le.trans (pastLast_suffix _ _).length_le

theorem Parts.mem_netloc_of_hostText {c : ℕ} (h : c ∈ p.hostText) : c ∈ p.netloc :=
  (pastLast_suffix _ _).subset (p.hostText_infix.subset h)

theorem Parts.at_not_mem_hostText (p : Parts) : 64 ∉ p.hostText :=
  fun h ↦ not_mem_pastLast 64 p.netloc (p.hostText_infix.subset h)

theorem Parts.bracket_not_mem_hostText (p : Parts) : 91 ∉ p.hostText ∨ 93 ∉ p.hostText := by
  unfold hostText
  split_ifs with h
  · exact .inr (not_mem_upTo 93 _)
  · exact .inl (fun hmem ↦ h (upTo_subset _ _ _ hmem))

theorem Parts.hostname_fixed (h : ∀ c ∈ p.hostText, l.lower [c] = [c]) :
    p.hostname l = p.hostText := by
  rw [hostname, l.lower_fixed _ (fun c hc ↦ h c (upTo_subset _ _ c hc))]
  exact (prefix_append_drop (upTo_isPrefix _ _)).symm

theorem Parts.mem_hostText_of_lower {c : ℕ} (hplain : isPlain c)
    (h : c ∈ l.lower (p.hostname l)) : c ∈ p.hostText := by
  have hmem := l.mem_of_lower _ c h hplain
  rw [hostname, mem_append] at hmem
  rcases hmem with hmem | hmem
  · exact upTo_subset _ _ c (l.mem_of_lower _ c hmem hplain)
  · exact (drop_suffix _ _).subset hmem

theorem Parts.hostinfo_of_not_mem (h : 64 ∉ p.netloc) : p.hostinfo = p.netloc :=
  pastLast_of_not_mem h

theorem Parts.host_alone (hnetloc : p.netloc = host) (hat : 64 ∉ host) (hopen : 91 ∉ host)
    (hcolon : 58 ∉ host) : p.hostText = host ∧ p.portText = [] := by
  have hinfo : p.hostinfo = host := by rw [hostinfo_of_not_mem (by rwa [hnetloc]), hnetloc]
  rw [hostText, portText, hinfo, if_neg hopen, if_neg hopen]
  exact ⟨upTo_of_not_mem hcolon, past_of_not_mem hcolon⟩

theorem Parts.host_and_port (hnetloc : p.netloc = host ++ 58 :: text) (hat : 64 ∉ host ++ 58 :: text)
    (hopen : 91 ∉ host ++ 58 :: text) (hcolon : 58 ∉ host) :
    p.hostText = host ∧ p.portText = text := by
  have hinfo : p.hostinfo = host ++ 58 :: text := by
    rw [hostinfo_of_not_mem (by rwa [hnetloc]), hnetloc]
  rw [hostText, portText, hinfo, if_neg hopen, if_neg hopen]
  exact ⟨upTo_append hcolon _, past_append hcolon _⟩

theorem decimal_ne_nil (n : ℕ) : decimal n ≠ [] := by
  unfold decimal
  split_ifs with h
  · simp
  · have hdigits : Nat.digits 10 n ≠ [] := Nat.digits_ne_nil_iff_ne_zero.mpr h
    simpa using hdigits

theorem isDigit_decimal (n : ℕ) : ∀ c ∈ decimal n, isDigit c := by
  unfold decimal
  split_ifs with h
  · simp [isDigit]
  · intro c hc
    obtain ⟨d, hd, rfl⟩ := mem_map.mp hc
    have hlt := Nat.digits_lt_base (by decide) (mem_reverse.mp hd)
    exact isDigit_iff.mpr (by omega)

theorem digitsValue_decimal (n : ℕ) : digitsValue (decimal n) = n := by
  unfold decimal
  split_ifs with h
  · rw [h]
    rfl
  · rw [digitsValue, ← map_reverse, reverse_reverse, map_map]
    have hid : ((fun c ↦ c - 48) ∘ (48 + ·)) = (id : ℕ → ℕ) := by
      funext d
      exact Nat.add_sub_cancel_left 48 d
    rw [hid, map_id, Nat.ofDigits_digits]

theorem Parts.port_none (h : p.portText = []) : p.port = some none := if_pos h

theorem Parts.port_decimal {n : ℕ} (h : p.portText = decimal n) (hn : n ≤ 65535) :
    p.port = some (some n) := by
  rw [port, h, if_neg (decimal_ne_nil n), if_pos, digitsValue_decimal]
  rw [Bool.and_eq_true, all_eq_true, decide_eq_true_eq, digitsValue_decimal]
  exact ⟨isDigit_decimal n, hn⟩

theorem Parts.port_le {n : ℕ} (h : p.port = some (some n)) : n ≤ 65535 := by
  unfold port at h
  split_ifs at h with hempty hread
  · cases h
  · obtain rfl := Option.some_inj.mp (Option.some_inj.mp h)
    exact of_decide_eq_true (Bool.and_eq_true_iff.mp hread).2

end Netloc

end TalaPala.Library.Urllib
