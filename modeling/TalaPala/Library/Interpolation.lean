import Mathlib.Algebra.Order.Field.Basic
import Mathlib.Algebra.Order.Floor.Ring
import Mathlib.Data.List.GetD
import Mathlib.Order.SuccPred.IntervalSucc
import Mathlib.Tactic.FieldSimp
import Mathlib.Tactic.Linarith
import Mathlib.Data.Int.ConditionallyCompleteOrder

namespace TalaPala.Library

section Bisection

/-- Halves a range until it has no inside, keeping the half in which `below` ends. -/
def bisect (below : ℕ → Bool) (lo hi : ℕ) : ℕ × ℕ :=
  if hi - lo > 1 then
    let mid := (lo + hi) / 2
    if below mid then bisect below mid hi else bisect below lo mid
  else (lo, hi)
termination_by hi - lo
decreasing_by all_goals omega

theorem bisect_spec {below : ℕ → Bool} {lo hi : ℕ} (hlt : lo < hi) (hlo : below lo = true)
    (hhi : below hi = false) : ∃ i, bisect below lo hi = (i, i + 1) ∧ lo ≤ i ∧ i < hi ∧
      below i = true ∧ below (i + 1) = false := by
  induction lo, hi using bisect.induct below with
  | case1 lo hi hwide mid hmid ih =>
    obtain ⟨i, heq, hle, hlt', hbelow⟩ := ih (by omega) hmid hhi
    rw [bisect, if_pos hwide]
    dsimp only
    rw [if_pos hmid]
    exact ⟨i, heq, by omega, hlt', hbelow⟩
  | case2 lo hi hwide mid hmid ih =>
    obtain ⟨i, heq, hle, hlt', hbelow⟩ := ih (by omega) hlo (Bool.eq_false_iff.mpr hmid)
    rw [bisect, if_pos hwide]
    dsimp only
    rw [if_neg hmid]
    exact ⟨i, heq, hle, by omega, hbelow⟩
  | case3 lo hi hnarrow =>
    obtain rfl : hi = lo + 1 := by omega
    rw [bisect, if_neg hnarrow]
    exact ⟨lo, rfl, le_rfl, hlt, hlo, hhi⟩

end Bisection

section Interpolation

variable {K : Type*} [Field K] [LinearOrder K] [FloorRing K]

def interpolate (f : ℤ → K) (x : K) : K := f ⌊x⌋ + (f (⌊x⌋ + 1) - f ⌊x⌋) * Int.fract x

variable {f : ℤ → K} {x y t : K} {i : ℤ}

theorem interpolate_of_mem (hlow : (i : K) ≤ x) (hhigh : x < i + 1) :
    interpolate f x = f i + (f (i + 1) - f i) * (x - i) := by
  have hfloor : ⌊x⌋ = i := Int.floor_eq_iff.mpr ⟨hlow, hhigh⟩
  rw [interpolate, Int.fract, hfloor]

variable [IsStrictOrderedRing K]

theorem le_interpolate (hf : StrictMono f) : f ⌊x⌋ ≤ interpolate f x := by
  have hstep := sub_pos.mpr (hf (lt_add_one ⌊x⌋))
  exact le_add_of_nonneg_right (mul_nonneg hstep.le (Int.fract_nonneg x))

theorem interpolate_lt (hf : StrictMono f) : interpolate f x < f (⌊x⌋ + 1) := by
  have hstep := sub_pos.mpr (hf (lt_add_one ⌊x⌋))
  have hpart := mul_lt_of_lt_one_right hstep (Int.fract_lt_one x)
  rw [interpolate]
  linarith

theorem interpolate_strictMono (hf : StrictMono f) : StrictMono (interpolate f) := by
  intro x y hxy
  rcases (Int.floor_le_floor hxy.le).eq_or_lt with heq | hlt
  · have hstep := sub_pos.mpr (hf (lt_add_one ⌊x⌋))
    rw [interpolate, interpolate, ← heq]
    refine add_lt_add_right (mul_lt_mul_of_pos_left ?_ hstep) _
    rw [Int.fract, Int.fract, ← heq]
    exact sub_lt_sub_right hxy _
  · exact (interpolate_lt hf).trans_le
      ((hf.monotone (Int.add_one_le_of_lt hlt)).trans (le_interpolate hf))

theorem interpolate_place (hlow : f i ≤ t) (hhigh : t < f (i + 1)) :
    interpolate f (i + (t - f i) / (f (i + 1) - f i)) = t := by
  have hspan : 0 < f (i + 1) - f i := by linarith
  have hpart : (t - f i) / (f (i + 1) - f i) < 1 := by
    rw [div_lt_one hspan]
    linarith
  rw [interpolate_of_mem (le_add_of_nonneg_right (div_nonneg (sub_nonneg.mpr hlow) hspan.le))
    (add_lt_add_right hpart _), add_sub_cancel_left, mul_div_cancel₀ _ hspan.ne', add_sub_cancel]

end Interpolation

section Knots

variable {K : Type*} [Field K]

def knots (l : List K) (step : K) (i : ℤ) : K :=
  if i ≤ 0 then l.getD 0 0 + i * step
  else if (l.length : ℤ) - 1 ≤ i then l.getD (l.length - 1) 0 + (i - (l.length - 1)) * step
  else l.getD i.toNat 0

variable {l : List K} {step : K} {i : ℤ} {k : ℕ}

theorem knots_of_nonpos (h : i ≤ 0) : knots l step i = l.getD 0 0 + i * step := if_pos h

theorem knots_natCast (h : k < l.length) : knots l step k = l.getD k 0 := by
  rw [knots]
  rcases Nat.eq_zero_or_pos k with rfl | hpos
  · rw [if_pos (by simp)]
    simp
  · rw [if_neg (by omega)]
    by_cases hlast : (l.length : ℤ) - 1 ≤ k
    · obtain rfl : k = l.length - 1 := by omega
      have hcast : ((l.length - 1 : ℕ) : K) = l.length - 1 := by
        rw [Nat.cast_sub (by omega), Nat.cast_one]
      rw [if_pos hlast, Int.cast_natCast, hcast, sub_self, zero_mul, add_zero]
    · rw [if_neg hlast, Int.toNat_natCast]

theorem knots_of_le (hlength : 2 ≤ l.length) (h : (l.length : ℤ) - 1 ≤ i) :
    knots l step i = l.getD (l.length - 1) 0 + (i - (l.length - 1)) * step := by
  rw [knots, if_neg (by omega), if_pos h]

variable [LinearOrder K] [IsStrictOrderedRing K]

theorem strictMono_knots (hasc : l.Pairwise (· < ·)) (hlength : 2 ≤ l.length) (hstep : 0 < step) :
    StrictMono (knots l step) := by
  refine strictMono_int_of_lt_succ (fun i ↦ ?_)
  rcases lt_or_ge i 0 with hneg | hpos
  · rw [knots_of_nonpos hneg.le, knots_of_nonpos (Int.add_one_le_of_lt hneg)]
    push_cast
    linarith
  · rcases lt_or_ge i ((l.length : ℤ) - 1) with hin | hout
    · obtain ⟨k, rfl⟩ := Int.eq_ofNat_of_zero_le hpos
      have hk : k + 1 < l.length := by omega
      rw [knots_natCast (by omega), show (k : ℤ) + 1 = (k + 1 : ℕ) from rfl, knots_natCast hk,
        List.getD_eq_getElem _ _ (by omega), List.getD_eq_getElem _ _ hk]
      exact List.pairwise_iff_getElem.mp hasc k (k + 1) (by omega) hk (Nat.lt_succ_self k)
    · rw [knots_of_le hlength hout, knots_of_le hlength (by omega)]
      push_cast
      linarith

end Knots

end TalaPala.Library
