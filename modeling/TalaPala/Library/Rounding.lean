import Mathlib.Data.Rat.Floor

namespace TalaPala.Library

def minInt64 : ℤ := -9223372036854775808

def maxInt64 : ℤ := 9223372036854775807

/-- Two's-complement arithmetic on 64 bits keeps the residue modulo `2 ^ 64`. -/
def wrap64 (x : ℤ) : ℤ := (x + 9223372036854775808) % 18446744073709551616 - 9223372036854775808

def saturate64 (x : ℤ) : ℤ := max minInt64 (min maxInt64 x)

theorem wrap64_range (x : ℤ) : minInt64 ≤ wrap64 x ∧ wrap64 x ≤ maxInt64 := by
  rw [wrap64, minInt64, maxInt64]
  omega

theorem wrap64_of_mem {x : ℤ} (h : minInt64 ≤ x) (h' : x ≤ maxInt64) : wrap64 x = x := by
  rw [minInt64] at h
  rw [maxInt64] at h'
  rw [wrap64]
  omega

theorem wrap64_emod_two (x : ℤ) : wrap64 x % 2 = x % 2 := by
  rw [wrap64]
  omega

theorem saturate64_of_mem {x : ℤ} (h : minInt64 ≤ x) (h' : x ≤ maxInt64) : saturate64 x = x := by
  rw [saturate64, min_eq_right h', max_eq_right h]

theorem saturate64_le_iff {x y : ℤ} (h : minInt64 ≤ y) (h' : y < maxInt64) :
    saturate64 x ≤ y ↔ x ≤ y := by
  rw [saturate64, minInt64, maxInt64] at *
  omega

section Rounding

variable {K : Type*} [Field K] [LinearOrder K] [IsStrictOrderedRing K] [FloorRing K]

def halfEven (x : K) : ℤ :=
  let whole := ⌊x⌋
  let rest := x - whole
  if rest + rest < 1 then whole else if 1 < rest + rest then whole + 1
    else if whole % 2 = 0 then whole else whole + 1

theorem halfEven_le_iff {x : K} {n : ℤ} :
    halfEven x ≤ n ↔ x < n + 1 / 2 ∨ x = n + 1 / 2 ∧ n % 2 = 0 := by
  have hlow : (⌊x⌋ : K) ≤ x := Int.floor_le x
  have hhigh : x < ⌊x⌋ + 1 := Int.lt_floor_add_one x
  rcases lt_trichotomy ⌊x⌋ n with hlt | rfl | hlt
  · have hcast : (⌊x⌋ : K) + 1 ≤ n := by exact_mod_cast hlt
    refine iff_of_true ?_ (.inl (by linarith))
    simp only [halfEven]
    split_ifs <;> omega
  · simp only [halfEven]
    split_ifs with hless hmore heven
    · exact iff_of_true le_rfl (.inl (by linarith))
    · refine iff_of_false (by omega) ?_
      rintro (hless' | ⟨heq, -⟩) <;> linarith
    · exact iff_of_true le_rfl (.inr ⟨by linarith, heven⟩)
    · refine iff_of_false (by omega) ?_
      rintro (hless' | ⟨-, heven'⟩)
      · linarith
      · exact heven heven'
  · have hcast : (n : K) + 1 ≤ ⌊x⌋ := by exact_mod_cast hlt
    refine iff_of_false ?_ ?_
    · simp only [halfEven]
      split_ifs <;> omega
    · rintro (hless | ⟨heq, -⟩) <;> linarith

theorem halfEven_le_of_even {x : K} {n : ℤ} (h : n % 2 = 0) :
    halfEven x ≤ n ↔ x ≤ n + 1 / 2 := by
  rw [halfEven_le_iff, le_iff_lt_or_eq]
  simp [h]

theorem halfEven_le_of_odd {x : K} {n : ℤ} (h : n % 2 = 1) :
    halfEven x ≤ n ↔ x < n + 1 / 2 := by
  rw [halfEven_le_iff]
  simp [h]

end Rounding

end TalaPala.Library
