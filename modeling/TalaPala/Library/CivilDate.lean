import Mathlib.Algebra.BigOperators.Group.List.Basic
import Mathlib.Tactic.IntervalCases

namespace TalaPala.Library

section Locate

/-- The block of a list of lengths that an offset falls in, and the offset in the
block; `i` blocks went before the list. -/
def locate : ℕ → ℤ → List ℤ → ℕ × ℤ
  | i, n, [] => (i, n)
  | i, n, len :: rest => if len ≤ n then locate (i + 1) (n - len) rest else (i, n)

theorem locate_spec {i : ℕ} {n : ℤ} {l : List ℤ} (hn : 0 ≤ n) (hsum : n < l.sum) :
    ∃ k < l.length, (locate i n l).1 = i + k ∧ 0 ≤ (locate i n l).2 ∧
      (locate i n l).2 < l.getD k 0 ∧ (l.take k).sum + (locate i n l).2 = n := by
  induction l generalizing i n with
  | nil =>
    rw [List.sum_nil] at hsum
    omega
  | cons len rest ih =>
    rw [locate]
    rw [List.sum_cons] at hsum
    split
    · obtain ⟨k, hk, hfst, hpos, hlt, htake⟩ := ih (i := i + 1) (n := n - len) (by omega) (by omega)
      refine ⟨k + 1, Nat.succ_lt_succ hk, by omega, hpos, hlt, ?_⟩
      rw [List.take_succ_cons, List.sum_cons]
      omega
    · refine ⟨0, Nat.zero_lt_succ _, rfl, hn, ?_, ?_⟩
      · rw [List.getD_cons_zero]
        omega
      · rw [List.take_zero, List.sum_nil]
        omega

end Locate

structure Civil where
  year : ℤ
  month : ℤ
  day : ℤ

def isLeap (y : ℤ) : Bool := (y % 4 = 0 && y % 100 ≠ 0) || y % 400 = 0

def monthLengths (leap : Bool) : List ℤ :=
  [31, if leap then 29 else 28, 31, 30, 31, 30, 31, 31, 30, 31, 30, 31]

def daysBeforeYear (y : ℤ) : ℤ := 365 * (y - 1) + (y - 1) / 4 - (y - 1) / 100 + (y - 1) / 400

def daysBeforeMonth (leap : Bool) (m : ℤ) : ℤ := ((monthLengths leap).take (m - 1).toNat).sum

def daysInMonth (leap : Bool) (m : ℤ) : ℤ := (monthLengths leap).getD (m - 1).toNat 0

def yearLength (y : ℤ) : ℤ := if isLeap y then 366 else 365

structure Civil.Valid (c : Civil) : Prop where
  month_pos : 1 ≤ c.month
  month_le : c.month ≤ 12
  day_pos : 1 ≤ c.day
  day_le : c.day ≤ daysInMonth (isLeap c.year) c.month

instance (c : Civil) : Decidable c.Valid :=
  decidable_of_iff (1 ≤ c.month ∧ c.month ≤ 12 ∧ 1 ≤ c.day ∧
    c.day ≤ daysInMonth (isLeap c.year) c.month)
    ⟨fun h ↦ ⟨h.1, h.2.1, h.2.2.1, h.2.2.2⟩, fun h ↦ ⟨h.1, h.2, h.3, h.4⟩⟩

def Civil.ordinal (c : Civil) : ℤ :=
  daysBeforeYear c.year + daysBeforeMonth (isLeap c.year) c.month + c.day

theorem isLeap_iff {y : ℤ} : isLeap y = true ↔ (y % 4 = 0 ∧ y % 100 ≠ 0) ∨ y % 400 = 0 := by
  simp [isLeap]

theorem daysBeforeYear_succ (y : ℤ) : daysBeforeYear (y + 1) = daysBeforeYear y + yearLength y := by
  rw [daysBeforeYear, daysBeforeYear, yearLength]
  split
  · rename_i h
    have := isLeap_iff.mp h
    omega
  · rename_i h
    rw [isLeap_iff] at h
    omega

theorem daysBeforeYear_mono {y z : ℤ} (h : y ≤ z) : daysBeforeYear y ≤ daysBeforeYear z := by
  rw [daysBeforeYear, daysBeforeYear]
  omega

theorem monthLengths_sum (y : ℤ) : (monthLengths (isLeap y)).sum = yearLength y := by
  rw [yearLength]
  cases isLeap y <;> rfl

theorem month_ends_before : ∀ leap : Bool, ∀ k < 12, ∀ j ≤ 12, k < j →
    ((monthLengths leap).take k).sum + (monthLengths leap).getD k 0 ≤
      ((monthLengths leap).take j).sum := by
  decide

variable {c c' : Civil}

theorem Civil.Valid.dayOfYear_le (h : c.Valid) {m : ℤ} (hm : c.month < m) (hm' : m ≤ 13) :
    daysBeforeMonth (isLeap c.year) c.month + c.day ≤ daysBeforeMonth (isLeap c.year) m := by
  have := h.month_pos
  have := h.month_le
  have hends := month_ends_before (isLeap c.year) (c.month - 1).toNat (by omega) (m - 1).toNat
    (by omega) (by omega)
  have := h.day_le
  rw [daysInMonth] at this
  rw [daysBeforeMonth, daysBeforeMonth]
  omega

theorem Civil.Valid.ordinal_le (h : c.Valid) : c.ordinal ≤ daysBeforeYear (c.year + 1) := by
  have hyear := h.dayOfYear_le (m := 13) (by have := h.month_le; omega) le_rfl
  have hsum : daysBeforeMonth (isLeap c.year) 13 = yearLength c.year := monthLengths_sum c.year
  rw [daysBeforeYear_succ, Civil.ordinal]
  omega

theorem daysBeforeMonth_nonneg (leap : Bool) {m : ℤ} (hm : m ≤ 13) :
    0 ≤ daysBeforeMonth leap m := by
  have hall : ∀ leap : Bool, ∀ k ≤ 12, 0 ≤ ((monthLengths leap).take k).sum := by decide
  exact hall leap _ (by omega)

theorem Civil.Valid.lt_ordinal (h : c.Valid) : daysBeforeYear c.year < c.ordinal := by
  have := daysBeforeMonth_nonneg (isLeap c.year) (m := c.month) (by have := h.month_le; omega)
  have := h.day_pos
  rw [Civil.ordinal]
  omega

theorem Civil.Valid.eq_of_ordinal_eq (h : c.Valid) (h' : c'.Valid) (he : c.ordinal = c'.ordinal) :
    c = c' := by
  have hyear : c.year = c'.year := by
    rcases lt_trichotomy c.year c'.year with hlt | heq | hlt
    · have := daysBeforeYear_mono (Int.add_one_le_of_lt hlt)
      have := h.ordinal_le
      have := h'.lt_ordinal
      omega
    · exact heq
    · have := daysBeforeYear_mono (Int.add_one_le_of_lt hlt)
      have := h'.ordinal_le
      have := h.lt_ordinal
      omega
  have hday : daysBeforeMonth (isLeap c.year) c.month + c.day =
      daysBeforeMonth (isLeap c.year) c'.month + c'.day := by
    rw [Civil.ordinal, Civil.ordinal, ← hyear] at he
    omega
  have := h.day_pos
  have := h'.day_pos
  have hmonth : c.month = c'.month := by
    rcases lt_trichotomy c.month c'.month with hlt | heq | hlt
    · have := h.dayOfYear_le hlt (by have := h'.month_le; omega)
      omega
    · exact heq
    · have := h'.dayOfYear_le hlt (by have := h.month_le; omega)
      rw [← hyear] at this
      omega
  rw [hmonth] at hday
  obtain ⟨y, m, d⟩ := c
  obtain ⟨y', m', d'⟩ := c'
  simp only [Civil.mk.injEq]
  exact ⟨hyear, hmonth, by dsimp only at hday; omega⟩

end TalaPala.Library
