import TalaPala.Library.CivilDate
import Mathlib.Data.List.DropRight
import Mathlib.Data.Nat.Digits.Defs

namespace TalaPala.Library

open List

/-! What programs use of Go's `strings`, `unicode`, `strconv` and `time` on texts. -/

abbrev Text := List Char

/-- `unicode.IsSpace`. -/
def isSpace (c : Char) : Bool :=
  let n := c.toNat
  (9 ≤ n && n ≤ 13) || n = 32 || n = 0x85 || n = 0xa0 || n = 0x1680 ||
    (0x2000 ≤ n && n ≤ 0x200a) || n = 0x2028 || n = 0x2029 || n = 0x202f || n = 0x205f || n = 0x3000

def trimSpace (s : Text) : Text := (s.dropWhile isSpace).rdropWhile isSpace

/-- `len` of a string, its bytes in UTF-8. -/
def byteLength (s : Text) : ℕ := (s.map Char.utf8Size).sum

/-- The case mappings of `unicode`, of which only the ASCII part is spelled out. -/
structure Letters where
  toLower : Char → Char
  toUpper : Char → Char
  toLower_ascii : ∀ c : Char, c.toNat < 128 → toLower c = c.toLower
  toUpper_ascii : ∀ c : Char, c.toNat < 128 → toUpper c = c.toUpper

def Letters.ascii : Letters where
  toLower := Char.toLower
  toUpper := Char.toUpper
  toLower_ascii _ _ := rfl
  toUpper_ascii _ _ := rfl

def digitsValue (s : Text) : Option ℕ :=
  if s ≠ [] ∧ s.all Char.isDigit then some (Nat.ofDigits 10 (s.reverse.map (·.toNat - 48)))
  else none

/-- `strconv.Atoi`, which fails outside of 64 bits. -/
def atoi (s : Text) : Option ℤ :=
  let value : Option ℤ := match s with
    | '-' :: rest => (digitsValue rest).map (fun n ↦ -(n : ℤ))
    | '+' :: rest => (digitsValue rest).map (fun n ↦ (n : ℤ))
    | _ => (digitsValue s).map (fun n ↦ (n : ℤ))
  value.filter (fun n ↦ -2 ^ 63 ≤ n ∧ n < 2 ^ 63)

/-- `strconv.Itoa`. -/
def itoa (n : ℤ) : Text := (toString n).toList

/-- `time.Parse` with the layout `2006-01-02`. -/
def parseDate : Text → Option Civil
  | [y₁, y₂, y₃, y₄, '-', m₁, m₂, '-', d₁, d₂] => do
    let year ← digitsValue [y₁, y₂, y₃, y₄]
    let month ← digitsValue [m₁, m₂]
    let day ← digitsValue [d₁, d₂]
    if (⟨year, month, day⟩ : Civil).Valid then some ⟨year, month, day⟩ else none
  | _ => none

/-- The last `k` digits of a number. -/
def padded (n : ℤ) : ℕ → Text
  | 0 => []
  | k + 1 => padded (n / 10) k ++ [Nat.digitChar (n % 10).toNat]

/-- `Format` with the layout `2006-01-02`, of a year below 10000. -/
def formatDate (c : Civil) : Text :=
  padded c.year 4 ++ '-' :: padded c.month 2 ++ '-' :: padded c.day 2

section Dates

theorem isDigit_digitChar {d : ℕ} (h : d < 10) :
    (Nat.digitChar d).isDigit = true ∧ (Nat.digitChar d).toNat - 48 = d := by
  interval_cases d <;> exact ⟨rfl, rfl⟩

theorem forall_isDigit_padded (n : ℤ) (k : ℕ) : ∀ c ∈ padded n k, c.isDigit = true := by
  induction k generalizing n with
  | zero => exact fun c hc ↦ by cases hc
  | succ k ih =>
    intro c hc
    rcases mem_append.mp hc with hc | hc
    · exact ih _ c hc
    · rw [mem_singleton.mp hc]
      exact (isDigit_digitChar (by omega)).1

theorem ofDigits_padded {n : ℤ} {k : ℕ} (hn : 0 ≤ n) (hlt : n < 10 ^ k) :
    ((Nat.ofDigits 10 ((padded n k).reverse.map (·.toNat - 48)) : ℕ) : ℤ) = n := by
  induction k generalizing n with
  | zero =>
    have hzero : n = 0 := by omega
    rw [hzero]
    rfl
  | succ k ih =>
    have ih := ih (n := n / 10) (by omega) (by omega)
    rw [padded, reverse_append, reverse_singleton, singleton_append, map_cons,
      Nat.ofDigits_cons, (isDigit_digitChar (by omega)).2]
    push_cast at ih ⊢
    omega

theorem digitsValue_padded {n : ℤ} {k : ℕ} (hn : 0 ≤ n) (hlt : n < 10 ^ (k + 1)) :
    ∃ m, digitsValue (padded n (k + 1)) = some m ∧ (m : ℤ) = n := by
  refine ⟨_, if_pos ⟨?_, all_eq_true.mpr (forall_isDigit_padded n (k + 1))⟩, ofDigits_padded hn hlt⟩
  simp [padded]

theorem digitsValue_lt {s : Text} {n : ℕ} (h : digitsValue s = some n) : n < 10 ^ s.length := by
  rw [digitsValue] at h
  obtain ⟨⟨-, hdigits⟩, hn⟩ := Option.ite_none_right_eq_some.mp h
  rw [← Option.some_inj.mp hn]
  have hlength : s.length = (s.reverse.map (·.toNat - 48)).length := by simp
  rw [hlength]
  refine Nat.ofDigits_lt_base_pow_length (by decide) (fun d hd ↦ ?_)
  obtain ⟨c, hc, rfl⟩ := mem_map.mp hd
  have hdigit := Char.isDigit_iff_toNat.mp
    (all_eq_true.mp hdigits c (mem_reverse.mp hc))
  have hnine : '9'.toNat = 57 := rfl
  omega

theorem parseDate_formatDate {s : Text} {c : Civil} (h : parseDate s = some c) :
    parseDate (formatDate c) = some c := by
  unfold parseDate at h
  split at h
  next y₁ y₂ y₃ y₄ m₁ m₂ d₁ d₂ =>
    simp only [Option.bind_eq_bind, Option.bind_eq_some_iff, Option.ite_none_right_eq_some] at h
    obtain ⟨year, hyear, month, hmonth, day, hday, hvalid, hc⟩ := h
    obtain rfl := Option.some_inj.mp hc
    have hyear := digitsValue_lt hyear
    have hmonth := digitsValue_lt hmonth
    have hday := digitsValue_lt hday
    obtain ⟨year', hyear', heq⟩ := digitsValue_padded (n := year) (k := 3) (by omega)
      (by exact_mod_cast hyear)
    obtain ⟨month', hmonth', heq'⟩ := digitsValue_padded (n := month) (k := 1) (by omega)
      (by exact_mod_cast hmonth)
    obtain ⟨day', hday', heq''⟩ := digitsValue_padded (n := day) (k := 1) (by omega)
      (by exact_mod_cast hday)
    change (digitsValue (padded year 4)).bind (fun y ↦ (digitsValue (padded month 2)).bind (fun m ↦
      (digitsValue (padded day 2)).bind (fun d ↦
        if (⟨y, m, d⟩ : Civil).Valid then some (⟨y, m, d⟩ : Civil) else none))) = _
    rw [hyear', Option.bind_some, hmonth', Option.bind_some, hday', Option.bind_some, heq, heq',
      heq'', if_pos hvalid]
  next => cases h

end Dates

section Trim

theorem trimSpace_eq_self {s : Text} (hhead : ∀ c ∈ s.head?, isSpace c = false)
    (hlast : ∀ c ∈ s.getLast?, isSpace c = false) : trimSpace s = s := by
  have hdrop : s.dropWhile isSpace = s := by
    cases s with
    | nil => rfl
    | cons c s => rw [dropWhile_cons, hhead c rfl, if_neg Bool.false_ne_true]
  rw [trimSpace, hdrop, rdropWhile_eq_self_iff]
  intro hs
  simpa using hlast _ (getLast?_eq_some_getLast hs)

theorem head?_trimSpace {s : Text} {c : Char} (h : c ∈ (trimSpace s).head?) : isSpace c = false := by
  have htrimmed := rdropWhile_prefix isSpace (l := s.dropWhile isSpace)
  have hhead : c ∈ (s.dropWhile isSpace).head? := by
    obtain ⟨back, hback⟩ := htrimmed
    rw [trimSpace] at h
    rw [← hback, head?_append, Option.mem_def.mp h]
    rfl
  have := head?_dropWhile_not isSpace s
  rw [Option.mem_def.mp hhead] at this
  simpa using this

theorem getLast?_trimSpace {s : Text} {c : Char} (h : c ∈ (trimSpace s).getLast?) :
    isSpace c = false := by
  have hne : trimSpace s ≠ [] := by
    rintro hnil
    rw [hnil] at h
    cases h
  rw [Option.mem_def, getLast?_eq_some_getLast hne, Option.some_inj] at h
  rw [← h, ← Bool.not_eq_true]
  exact rdropWhile_last_not isSpace _ hne

@[simp] theorem trimSpace_trimSpace (s : Text) : trimSpace (trimSpace s) = trimSpace s :=
  trimSpace_eq_self (fun _ ↦ head?_trimSpace) (fun _ ↦ getLast?_trimSpace)

end Trim

end TalaPala.Library
