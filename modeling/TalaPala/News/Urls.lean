import Mathlib.Data.List.DropRight
import Mathlib.Data.Nat.Digits.Defs

namespace TalaPala.News

open List

abbrev Text := List Char

instance : LawfulBEq Text := inferInstance

/-- What `str.strip` removes. -/
def isSpace (c : Char) : Bool :=
  let n := c.toNat
  (9 ≤ n && n ≤ 13) || (28 ≤ n && n ≤ 32) || n = 0x85 || n = 0xa0 || n = 0x1680 ||
    (0x2000 ≤ n && n ≤ 0x200a) || n = 0x2028 || n = 0x2029 || n = 0x202f || n = 0x205f || n = 0x3000

def strip (s : Text) : Text := (s.dropWhile isSpace).rdropWhile isSpace

/-- What the code uses of `str` and of the IDNA codec past ASCII, and the checks of
a netloc under which `urlsplit` raises. -/
structure Strings where
  lower : Text → Text
  lower_nil : lower [] = []
  lower_append : ∀ s v, (∀ c ∈ v, isSpace c) → lower (s ++ v) = lower s ++ v
  idna : Text → Option Text
  netlocAccepted : Text → Bool

/-- `s.partition(k)`, the part before `k` and the part after it. -/
def before (k : Char) (s : Text) : Text := s.takeWhile (· ≠ k)

def after (k : Char) (s : Text) : Text := (s.dropWhile (· ≠ k)).tail

/-- `s.rpartition(k)[2]` and `s.rpartition(k)[0]`. -/
def afterLast (k : Char) (s : Text) : Text := (before k s.reverse).reverse

def beforeLast (k : Char) (s : Text) : Text := (after k s.reverse).reverse

structure Parts where
  scheme : Text
  netloc : Text

def isControlOrSpace (c : Char) : Bool := c.toNat ≤ 32

def removed (c : Char) : Bool := c = '\t' || c = '\r' || c = '\n'

def cleaned (url : Text) : Text := (url.dropWhile isControlOrSpace).filter (!removed ·)

def isAsciiAlpha (c : Char) : Bool := ('a' ≤ c && c ≤ 'z') || ('A' ≤ c && c ≤ 'Z')

def isAsciiDigit (c : Char) : Bool := '0' ≤ c && c ≤ '9'

def isSchemeChar (c : Char) : Bool :=
  isAsciiAlpha c || isAsciiDigit c || c = '+' || c = '-' || c = '.'

def splitScheme (url : Text) : Text × Text :=
  let scheme := before ':' url
  if ':' ∈ url && scheme.head?.any isAsciiAlpha && scheme.all isSchemeChar then
    (scheme.map Char.toLower, after ':' url)
  else ([], url)

def splitNetloc : Text → Text
  | '/' :: '/' :: rest => rest.takeWhile (fun c ↦ c ≠ '/' && c ≠ '?' && c ≠ '#')
  | _ => []

/-- `none` is the ValueError. -/
def urlsplit (str : Strings) (url : Text) : Option Parts :=
  let (scheme, rest) := splitScheme (cleaned url)
  if str.netlocAccepted (splitNetloc rest) then some ⟨scheme, splitNetloc rest⟩ else none

def Parts.userinfo (p : Parts) : Text := beforeLast '@' p.netloc

def Parts.username (p : Parts) : Text := before ':' p.userinfo

def Parts.password (p : Parts) : Text := after ':' p.userinfo

def Parts.hostinfo (p : Parts) : Text := afterLast '@' p.netloc

/-- Empty where `hostname` is None. -/
def Parts.hostname (str : Strings) (p : Parts) : Text :=
  let host := if '[' ∈ p.hostinfo then before ']' (after '[' p.hostinfo) else before ':' p.hostinfo
  str.lower (before '%' host) ++ host.drop (before '%' host).length

def Parts.portText (p : Parts) : Text :=
  if '[' ∈ p.hostinfo then after ':' (after ']' (after '[' p.hostinfo)) else after ':' p.hostinfo

def digitsValue (s : Text) : ℕ := s.foldl (fun n c ↦ 10 * n + (c.toNat - '0'.toNat)) 0

def readPort (s : Text) : Option (Option ℕ) :=
  if s = [] then some none
  else if s.all isAsciiDigit && decide (digitsValue s ≤ 65535) then some (some (digitsValue s))
  else none

def Parts.port (p : Parts) : Option (Option ℕ) := readPort p.portText

def normalizeHost (str : Strings) (host : Text) : Text :=
  let host := str.lower ((strip host).rdropWhile (· = '.'))
  if host.all (fun c ↦ decide (c.toNat < 128)) then host else (str.idna host).getD host

def Padded (s s' : Text) : Prop := ∃ v, (∀ c ∈ v, isSpace c) ∧ s' = s ++ v

section Padding

variable {s s' : Text} {k : Char}

theorem Padded.refl (s : Text) : Padded s s := ⟨[], by simp, by simp⟩

theorem isSpace_toNat {c : Char} (h : isSpace c) : c.toNat ≤ 32 ∨ 133 ≤ c.toNat := by
  simp only [isSpace, Bool.or_eq_true, Bool.and_eq_true, decide_eq_true_eq] at h
  omega

theorem ne_of_isSpace (hk : isSpace k = false) {v : Text} (hv : ∀ c ∈ v, isSpace c) : k ∉ v := by
  intro hmem
  rw [hv k hmem] at hk
  cases hk

theorem ne_pos (h : k ∉ s) : ∀ c ∈ s, decide (c ≠ k) = true :=
  fun _ hc ↦ decide_eq_true (fun heq ↦ h (heq ▸ hc))

theorem before_of_not_mem (h : k ∉ s) : before k s = s :=
  takeWhile_eq_self_iff.mpr (ne_pos h)

theorem after_of_not_mem (h : k ∉ s) : after k s = [] := by
  rw [after, dropWhile_eq_nil_iff.mpr (ne_pos h)]
  rfl

theorem before_cons (h : k ∉ s) (rest : Text) : before k (s ++ k :: rest) = s := by
  rw [before, takeWhile_append_of_pos (ne_pos h)]
  simp

theorem after_cons (h : k ∉ s) (rest : Text) : after k (s ++ k :: rest) = rest := by
  rw [after, dropWhile_append_of_pos (ne_pos h)]
  simp

theorem partition_cases (k : Char) (s : Text) :
    (k ∉ s ∧ before k s = s ∧ after k s = []) ∨
      (k ∈ s ∧ s = before k s ++ k :: after k s ∧ k ∉ before k s) := by
  by_cases h : k ∈ s
  · obtain ⟨front, rest, rfl, hfront⟩ := eq_append_cons_of_mem h
    refine .inr ⟨h, ?_, ?_⟩ <;> rw [before_cons hfront]
    · rw [after_cons hfront]
    · exact hfront
  · exact .inl ⟨h, before_of_not_mem h, after_of_not_mem h⟩

theorem before_append_of_mem (h : k ∈ s) (v : Text) : before k (s ++ v) = before k s := by
  obtain ⟨hmem, -⟩ | ⟨-, hsplit, hbefore⟩ := partition_cases k s
  · exact absurd h hmem
  · conv_lhs => rw [hsplit, append_assoc]
    exact before_cons hbefore _

theorem after_append_of_mem (h : k ∈ s) (v : Text) : after k (s ++ v) = after k s ++ v := by
  obtain ⟨hmem, -⟩ | ⟨-, hsplit, hbefore⟩ := partition_cases k s
  · exact absurd h hmem
  · conv_lhs => rw [hsplit, append_assoc]
    exact after_cons hbefore _

theorem Padded.mem_iff (hk : isSpace k = false) (h : Padded s s') : k ∈ s' ↔ k ∈ s := by
  obtain ⟨v, hv, rfl⟩ := h
  rw [mem_append]
  exact or_iff_left (ne_of_isSpace hk hv)

theorem Padded.before (hk : isSpace k = false) (h : Padded s s') :
    Padded (before k s) (before k s') := by
  obtain ⟨v, hv, rfl⟩ := h
  by_cases hmem : k ∈ s
  · rw [before_append_of_mem hmem]
    exact .refl _
  · rw [before_of_not_mem hmem, before_of_not_mem (not_mem_append hmem (ne_of_isSpace hk hv))]
    exact ⟨v, hv, rfl⟩

theorem Padded.after (hk : isSpace k = false) (h : Padded s s') :
    Padded (after k s) (after k s') := by
  obtain ⟨v, hv, rfl⟩ := h
  by_cases hmem : k ∈ s
  · exact ⟨v, hv, after_append_of_mem hmem v⟩
  · rw [after_of_not_mem hmem, after_of_not_mem (not_mem_append hmem (ne_of_isSpace hk hv))]
    exact .refl _

theorem Padded.afterLast (hk : isSpace k = false) (h : Padded s s') :
    Padded (afterLast k s) (afterLast k s') ∧ beforeLast k s' = beforeLast k s := by
  obtain ⟨v, hv, rfl⟩ := h
  have hrev : k ∉ v.reverse := fun hmem ↦ ne_of_isSpace hk hv (mem_reverse.mp hmem)
  refine ⟨⟨v, hv, ?_⟩, ?_⟩
  · rw [News.afterLast, News.before, reverse_append, takeWhile_append_of_pos (ne_pos hrev),
      reverse_append, reverse_reverse]
    rfl
  · rw [News.beforeLast, News.after, reverse_append, dropWhile_append_of_pos (ne_pos hrev)]
    rfl

theorem rdropWhile_append {v : Text} (hv : ∀ c ∈ v, isSpace c) (s : Text) :
    (s ++ v).rdropWhile isSpace = s.rdropWhile isSpace := by
  rw [List.rdropWhile, reverse_append, dropWhile_append_of_pos, List.rdropWhile]
  exact fun c hc ↦ hv c (mem_reverse.mp hc)

theorem strip_append {v : Text} (hv : ∀ c ∈ v, isSpace c) : strip (s ++ v) = strip s := by
  rw [strip, dropWhile_append]
  split
  · rename_i hempty
    rw [strip, List.isEmpty_iff.mp hempty, dropWhile_eq_nil_iff.mpr hv]
  · rw [rdropWhile_append hv, strip]

theorem Padded.normalizeHost (str : Strings) (h : Padded s s') :
    normalizeHost str s' = normalizeHost str s := by
  obtain ⟨v, hv, rfl⟩ := h
  rw [News.normalizeHost, strip_append hv]
  rfl

theorem Padded.lowered (str : Strings) (h : Padded s s') :
    Padded (str.lower (News.before '%' s) ++ s.drop (News.before '%' s).length)
      (str.lower (News.before '%' s') ++ s'.drop (News.before '%' s').length) := by
  obtain ⟨v, hv, rfl⟩ := h
  by_cases hmem : '%' ∈ s
  · have hlen : (News.before '%' s).length ≤ s.length := (List.takeWhile_prefix _).length_le
    refine ⟨v, hv, ?_⟩
    rw [before_append_of_mem hmem, drop_append_of_le_length hlen, append_assoc]
  · have hmem' : '%' ∉ s ++ v := not_mem_append hmem (ne_of_isSpace (by decide) hv)
    rw [before_of_not_mem hmem, before_of_not_mem hmem', drop_length, drop_length,
      append_nil, append_nil]
    exact ⟨v, hv, str.lower_append s v hv⟩

theorem Padded.readPort {port : Option ℕ} (h : Padded s s') (hport : readPort s' = some port) :
    readPort s = some port := by
  obtain ⟨v, hv, rfl⟩ := h
  cases v with
  | nil => rwa [append_nil] at hport
  | cons c v =>
    have hdigit : isAsciiDigit c = false := by
      rw [← Bool.not_eq_true]
      intro hdigit
      have hblank := isSpace_toNat (hv c mem_cons_self)
      rw [isAsciiDigit, Bool.and_eq_true, decide_eq_true_eq, decide_eq_true_eq] at hdigit
      have hlow : 48 ≤ c.toNat := hdigit.1
      have hhigh : c.toNat ≤ 57 := hdigit.2
      omega
    have hnot : (s ++ c :: v).all isAsciiDigit = false := by
      simp [hdigit]
    rw [News.readPort, if_neg (by simp), hnot] at hport
    cases hport

end Padding

section Netloc

variable {str : Strings} {p p' : Parts}

theorem Padded.hostinfo (h : Padded p.netloc p'.netloc) : Padded p.hostinfo p'.hostinfo :=
  (h.afterLast (by decide)).1

theorem Padded.userinfo (h : Padded p.netloc p'.netloc) : p'.userinfo = p.userinfo :=
  (h.afterLast (by decide)).2

theorem Padded.hostname (h : Padded p.netloc p'.netloc) :
    Padded (p.hostname str) (p'.hostname str) := by
  have hinfo := h.hostinfo
  rw [Parts.hostname, Parts.hostname]
  simp only [hinfo.mem_iff (k := '[') (by decide)]
  split
  · exact ((hinfo.after (by decide)).before (by decide)).lowered str
  · exact (hinfo.before (by decide)).lowered str

theorem Padded.portText (h : Padded p.netloc p'.netloc) : Padded p.portText p'.portText := by
  have hinfo := h.hostinfo
  rw [Parts.portText, Parts.portText]
  simp only [hinfo.mem_iff (k := '[') (by decide)]
  split
  · exact ((hinfo.after (by decide)).after (by decide)).after (by decide)
  · exact hinfo.after (by decide)

end Netloc

section Stripped

variable {str : Strings} {url : Text}

theorem cleaned_lead {w : Text} (hw : ∀ c ∈ w, isSpace c) (t : Text) :
    cleaned (w ++ t) = cleaned t ∨ (splitScheme (cleaned (w ++ t))).1 = [] := by
  induction w with
  | nil => exact .inl rfl
  | cons c w ih =>
    obtain ⟨hc, hw⟩ := forall_mem_cons.mp hw
    by_cases hcontrol : isControlOrSpace c
    · have hsame : cleaned (c :: w ++ t) = cleaned (w ++ t) := by
        simp [cleaned, hcontrol]
      rw [hsame]
      exact ih hw
    · have hkept : removed c = false := by
        rw [← Bool.not_eq_true]
        intro hremoved
        simp only [removed, Bool.or_eq_true, decide_eq_true_eq] at hremoved
        rcases hremoved with (rfl | rfl) | rfl <;> exact hcontrol rfl
      have hne : c ≠ ':' := by
        rintro rfl
        cases hc
      have halpha : isAsciiAlpha c = false := by
        rw [← Bool.not_eq_true]
        intro halpha
        have hblank := isSpace_toNat hc
        have hlarge : ¬ c.toNat ≤ 32 := fun hle ↦ hcontrol (decide_eq_true hle)
        simp only [isAsciiAlpha, Bool.or_eq_true, Bool.and_eq_true, decide_eq_true_eq] at halpha
        have hsmall : c.toNat ≤ 122 := by
          rcases halpha with ⟨-, h⟩ | ⟨-, h⟩
          · exact h
          · exact le_trans (show c.toNat ≤ 90 from h) (by decide)
        omega
      have hhead : ∃ rest, cleaned (c :: w ++ t) = c :: rest := by
        simp [cleaned, hcontrol, hkept]
      obtain ⟨rest, hrest⟩ := hhead
      have hfirst : (before ':' (c :: rest)).head?.any isAsciiAlpha = false := by
        simp [before, hne, halpha]
      refine .inr ?_
      rw [hrest, splitScheme]
      simp only [hfirst, Bool.and_false, Bool.false_and]
      rfl

theorem cleaned_trail {v : Text} (hv : ∀ c ∈ v, isSpace c) {t : Text} (ht : cleaned t ≠ []) :
    Padded (cleaned t) (cleaned (t ++ v)) := by
  refine ⟨v.filter (!removed ·), fun c hc ↦ hv c (mem_of_mem_filter hc), ?_⟩
  rw [cleaned, dropWhile_append]
  split
  · rename_i hempty
    rw [cleaned, List.isEmpty_iff.mp hempty] at ht
    exact absurd rfl ht
  · rw [filter_append, cleaned]

theorem Padded.splitScheme {x y : Text} (h : Padded x y) (hx : (splitScheme x).1 ≠ []) :
    (splitScheme y).1 = (splitScheme x).1 ∧ Padded (splitScheme x).2 (splitScheme y).2 := by
  obtain ⟨v, hv, rfl⟩ := h
  by_cases hmem : ':' ∈ x
  · simp only [News.splitScheme, before_append_of_mem hmem, after_append_of_mem hmem, hmem,
      mem_append, true_or]
    split
    · exact ⟨rfl, v, hv, rfl⟩
    · exact ⟨rfl, v, hv, rfl⟩
  · simp [News.splitScheme, hmem] at hx

theorem Padded.splitNetloc {x y : Text} (h : Padded x y) (hx : splitNetloc x ≠ []) :
    Padded (splitNetloc x) (splitNetloc y) := by
  obtain ⟨v, hv, rfl⟩ := h
  obtain ⟨rest, rfl⟩ : ∃ rest, x = '/' :: '/' :: rest := by
    unfold News.splitNetloc at hx
    split at hx
    · exact ⟨_, rfl⟩
    · exact absurd rfl hx
  simp only [cons_append, News.splitNetloc, takeWhile_append]
  split
  · rename_i hwhole
    have hself := (List.takeWhile_prefix _).eq_of_length hwhole
    exact ⟨_, fun c hc ↦ hv c ((List.takeWhile_prefix _).subset hc), by rw [hself]⟩
  · exact .refl _

theorem urlsplit_some {p : Parts} (h : urlsplit str url = some p) :
    p.scheme = (splitScheme (cleaned url)).1 ∧
      p.netloc = splitNetloc (splitScheme (cleaned url)).2 := by
  simp only [urlsplit] at h
  split at h <;> cases h
  exact ⟨rfl, rfl⟩

theorem urlsplit_strip {p q : Parts} (hp : urlsplit str (strip url) = some p)
    (hscheme : p.scheme ≠ []) (hnetloc : p.netloc ≠ []) (hq : urlsplit str url = some q)
    (hread : q.scheme ≠ []) : q.scheme = p.scheme ∧ Padded p.netloc q.netloc := by
  obtain ⟨hpscheme, hpnetloc⟩ := urlsplit_some hp
  obtain ⟨hqscheme, hqnetloc⟩ := urlsplit_some hq
  rw [hpscheme] at hscheme
  rw [hpnetloc] at hnetloc
  rw [hqscheme] at hread
  have hlead := cleaned_lead (w := url.takeWhile isSpace) (fun _ ↦ mem_takeWhile_imp)
    (url.dropWhile isSpace)
  rw [takeWhile_append_dropWhile] at hlead
  have hcleaned := hlead.resolve_right hread
  have hfilled : cleaned (strip url) ≠ [] := by
    intro hempty
    rw [hempty] at hscheme
    exact hscheme rfl
  have hpadded := cleaned_trail (v := (url.dropWhile isSpace).rtakeWhile isSpace)
    (fun _ ↦ mem_rtakeWhile_imp) hfilled
  rw [strip, rdropWhile_append_rtakeWhile, ← hcleaned] at hpadded
  obtain ⟨hsame, hrest⟩ := hpadded.splitScheme hscheme
  rw [hpscheme, hqscheme, hpnetloc, hqnetloc]
  exact ⟨hsame, hrest.splitNetloc hnetloc⟩

end Stripped

end TalaPala.News
