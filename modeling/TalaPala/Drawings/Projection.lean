import TalaPala.Library.Interpolation
import Mathlib.Data.Rat.Floor

namespace TalaPala.Drawings

open Library

variable {K : Type*} [Field K] [LinearOrder K] [FloorRing K]

/-! Coordinates are numbers of any ordered field; what the page reads as `NaN`
is nothing here. -/

structure ProjectorSource (K : Type*) where
  timeToX : K → Option K
  priceToY : K → Option K
  xToTime : K → Option K
  yToPrice : K → Option K

structure Projector (K : Type*) where
  x : K → Option K
  y : K → Option K
  t : K → Option K
  price : K → Option K

structure TimeCalibration (K : Type*) where
  times : List K
  x0 : K
  spacing : K
  step : K

def fractionalIndex (times : List K) (t step : K) : K :=
  let n := times.length
  if n = 0 then 0
  else if t ≤ times.getD 0 0 then (t - times.getD 0 0) / step
  else if t ≥ times.getD (n - 1) 0 then (n - 1 : ℕ) + (t - times.getD (n - 1) 0) / step
  else
    let (lo, hi) := bisect (fun mid ↦ times.getD mid 0 ≤ t) 0 (n - 1)
    let span := times.getD hi 0 - times.getD lo 0
    if span > 0 then lo + (t - times.getD lo 0) / span else lo

def timeAtIndex (times : List K) (index step : K) : K :=
  let n := times.length
  if n = 0 then 0
  else if index ≤ 0 then times.getD 0 0 + index * step
  else if index ≥ (n - 1 : ℕ) then times.getD (n - 1) 0 + (index - (n - 1 : ℕ)) * step
  else
    let lo := ⌊index⌋.toNat
    let frac := index - lo
    times.getD lo 0 + (times.getD (lo + 1) 0 - times.getD lo 0) * frac

def calibrateTime (src : ProjectorSource K) (times : List K) : Option (TimeCalibration K) :=
  let n := times.length
  if n < 2 then none
  else
    match src.timeToX (times.getD 0 0), src.timeToX (times.getD (n - 1) 0) with
    | some xFirst, some xLast =>
      if xFirst = xLast then none
      else
        let spacing := (xLast - xFirst) / (n - 1 : ℕ)
        if spacing = 0 then none
        else
          let step := (times.getD (n - 1) 0 - times.getD 0 0) / (n - 1 : ℕ)
          some ⟨times, xFirst, spacing, if step > 0 then step else 1⟩
    | _, _ => none

def createProjector (src : ProjectorSource K) (times : List K) : Projector K :=
  let cal := calibrateTime src times
  { x := fun t ↦ match cal with
      | some cal => some (cal.x0 + fractionalIndex cal.times t cal.step * cal.spacing)
      | none => src.timeToX t
    y := src.priceToY
    t := fun x ↦ match cal with
      | some cal => some (timeAtIndex cal.times ((x - cal.x0) / cal.spacing) cal.step)
      | none => src.xToTime x
    price := src.yToPrice }

section Indices

variable [IsStrictOrderedRing K] {times : List K} {t x step : K}

theorem timeAtIndex_eq (hlength : 2 ≤ times.length) :
    timeAtIndex times x step = interpolate (knots times step) x := by
  have hcast : ((times.length - 1 : ℕ) : K) = times.length - 1 := by
    rw [Nat.cast_sub (by omega), Nat.cast_one]
  have hlow := Int.floor_le x
  have hhigh := Int.lt_floor_add_one x
  rw [timeAtIndex, if_neg (by omega), interpolate_of_mem hlow hhigh]
  rcases lt_or_ge ⌊x⌋ 0 with hneg | hpos
  · have hx : x ≤ 0 := (Int.floor_lt.mp hneg).le.trans_eq Int.cast_zero
    rw [if_pos hx, knots_of_nonpos hneg.le, knots_of_nonpos (Int.add_one_le_of_lt hneg)]
    push_cast
    ring
  · obtain ⟨k, hk⟩ := Int.eq_ofNat_of_zero_le hpos
    rw [hk] at hlow hhigh ⊢
    rw [Int.cast_natCast] at *
    by_cases hlast : times.length - 1 ≤ k
    · have hbound : ((times.length - 1 : ℕ) : K) ≤ x := (Nat.cast_le.mpr hlast).trans hlow
      have hx : ¬ x ≤ 0 := by
        have : ((1 : ℕ) : K) ≤ (times.length - 1 : ℕ) := Nat.cast_le.mpr (by omega)
        rw [Nat.cast_one] at this
        linarith
      rw [if_neg hx, if_pos hbound, knots_of_le hlength (by omega), knots_of_le hlength (by omega),
        hcast]
      push_cast
      ring
    · have hbound : ¬ ((times.length - 1 : ℕ) : K) ≤ x := by
        have : ((k + 1 : ℕ) : K) ≤ (times.length - 1 : ℕ) := Nat.cast_le.mpr (by omega)
        rw [Nat.cast_add, Nat.cast_one] at this
        exact not_le.mpr (hhigh.trans_le this)
      rw [knots_natCast (by omega), show (k : ℤ) + 1 = (k + 1 : ℕ) from rfl,
        knots_natCast (by omega), if_neg hbound, Int.toNat_natCast]
      by_cases hx : x ≤ 0
      · obtain rfl : k = 0 := by
          have := Nat.cast_le.mp ((hlow.trans hx).trans_eq Nat.cast_zero.symm)
          omega
        obtain rfl : x = 0 := le_antisymm hx (Nat.cast_zero.symm.trans_le hlow)
        rw [if_pos hx, Nat.cast_zero, sub_zero, mul_zero, zero_mul]
      · rw [if_neg hx]

theorem timeAtIndex_strictMono (hasc : times.Pairwise (· < ·)) (hlength : 2 ≤ times.length)
    (hstep : 0 < step) : StrictMono (fun x ↦ timeAtIndex times x step) := by
  have heq : (fun x ↦ timeAtIndex times x step) = interpolate (knots times step) :=
    funext (fun x ↦ timeAtIndex_eq hlength)
  rw [heq]
  exact interpolate_strictMono (strictMono_knots hasc hlength hstep)

theorem timeAtIndex_fractionalIndex (hlength : 2 ≤ times.length) (hstep : 0 < step) (t : K) :
    timeAtIndex times (fractionalIndex times t step) step = t := by
  have hnone : times.length ≠ 0 := by omega
  by_cases hbefore : t ≤ times.getD 0 0
  · have hx : (t - times.getD 0 0) / step ≤ 0 :=
      div_nonpos_of_nonpos_of_nonneg (sub_nonpos.mpr hbefore) hstep.le
    rw [fractionalIndex, if_neg hnone, if_pos hbefore, timeAtIndex, if_neg hnone, if_pos hx,
      div_mul_cancel₀ _ hstep.ne', add_sub_cancel]
  · by_cases hafter : t ≥ times.getD (times.length - 1) 0
    · have hpart : 0 ≤ (t - times.getD (times.length - 1) 0) / step :=
        div_nonneg (sub_nonneg.mpr hafter) hstep.le
      have hone : ((1 : ℕ) : K) ≤ (times.length - 1 : ℕ) := Nat.cast_le.mpr (by omega)
      rw [Nat.cast_one] at hone
      rw [fractionalIndex, if_neg hnone, if_neg hbefore, if_pos hafter, timeAtIndex, if_neg hnone,
        if_neg (by linarith), if_pos (le_add_of_nonneg_right hpart), add_sub_cancel_left,
        div_mul_cancel₀ _ hstep.ne', add_sub_cancel]
    · obtain ⟨i, hfound, -, hi, hlow, hhigh⟩ :=
        @bisect_spec (fun mid ↦ times.getD mid 0 ≤ t) 0 (times.length - 1) (by omega)
          (decide_eq_true (not_le.mp hbefore).le) (decide_eq_false hafter)
      have hlow' := of_decide_eq_true hlow
      have hhigh' := not_le.mp (of_decide_eq_false hhigh)
      have hspan : times.getD (i + 1) 0 - times.getD i 0 > 0 := by linarith
      rw [fractionalIndex, if_neg hnone, if_neg hbefore, if_neg hafter, hfound]
      dsimp only
      have hknot : knots times step (i : ℤ) = times.getD i 0 := knots_natCast (by omega)
      have hnext : knots times step ((i : ℤ) + 1) = times.getD (i + 1) 0 := by
        rw [show (i : ℤ) + 1 = (i + 1 : ℕ) from rfl, knots_natCast (by omega)]
      have hplace := interpolate_place (hknot.trans_le hlow') (hhigh'.trans_eq hnext.symm)
      rw [hknot, hnext, Int.cast_natCast] at hplace
      rw [if_pos hspan, timeAtIndex_eq hlength, hplace]

theorem fractionalIndex_timeAtIndex (hasc : times.Pairwise (· < ·)) (hlength : 2 ≤ times.length)
    (hstep : 0 < step) (x : K) :
    fractionalIndex times (timeAtIndex times x step) step = x :=
  (timeAtIndex_strictMono hasc hlength hstep).injective
    (timeAtIndex_fractionalIndex hlength hstep (timeAtIndex times x step))

theorem fractionalIndex_strictMono (hasc : times.Pairwise (· < ·)) (hlength : 2 ≤ times.length)
    (hstep : 0 < step) : StrictMono (fun t ↦ fractionalIndex times t step) := by
  intro t t' hlt
  rw [← (timeAtIndex_strictMono hasc hlength hstep).lt_iff_lt]
  simp only [timeAtIndex_fractionalIndex hlength hstep]
  exact hlt

end Indices

section Projectors

variable [IsStrictOrderedRing K] {src : ProjectorSource K} {times : List K} {xFirst xLast : K}

structure Places (src : ProjectorSource K) (times : List K) (xFirst xLast : K) : Prop where
  ascending : times.Pairwise (· < ·)
  length : 2 ≤ times.length
  first : src.timeToX (times.getD 0 0) = some xFirst
  last : src.timeToX (times.getD (times.length - 1) 0) = some xLast
  apart : xFirst ≠ xLast

theorem Places.calibrateTime_eq (h : Places src times xFirst xLast) : ∃ spacing step : K,
    calibrateTime src times = some ⟨times, xFirst, spacing, step⟩ ∧ 0 < step ∧
      spacing = (xLast - xFirst) / (times.length - 1 : ℕ) ∧ spacing ≠ 0 := by
  have hbars : (0 : K) < (times.length - 1 : ℕ) :=
    Nat.cast_pos.mpr (by have := h.length; omega)
  have hspacing : (xLast - xFirst) / (times.length - 1 : ℕ) ≠ 0 :=
    div_ne_zero (sub_ne_zero.mpr h.apart.symm) hbars.ne'
  have hstep : (times.getD (times.length - 1) 0 - times.getD 0 0) / (times.length - 1 : ℕ) > 0 := by
    have hlength := h.length
    refine div_pos (sub_pos.mpr ?_) hbars
    rw [List.getD_eq_getElem _ _ (by omega), List.getD_eq_getElem _ _ (by omega)]
    exact List.pairwise_iff_getElem.mp h.ascending 0 _ (by omega) (by omega) (by omega)
  refine ⟨_, _, ?_, hstep, rfl, hspacing⟩
  rw [calibrateTime, if_neg (not_lt.mpr h.length), h.first, h.last]
  dsimp only
  rw [if_neg h.apart, if_neg hspacing, if_pos hstep]

theorem Places.exists_conversions (h : Places src times xFirst xLast) : ∃ X T : K → K,
    (∀ t, (createProjector src times).x t = some (X t)) ∧
      (∀ x, (createProjector src times).t x = some (T x)) ∧
      (∀ t, T (X t) = t) ∧ (∀ x, X (T x) = x) ∧
      (xFirst < xLast → StrictMono X) ∧ (xLast < xFirst → StrictAnti X) := by
  obtain ⟨spacing, step, hcal, hstep, hspacing, hne⟩ := h.calibrateTime_eq
  have hbars : (0 : K) < (times.length - 1 : ℕ) :=
    Nat.cast_pos.mpr (by have := h.length; omega)
  have hmono := fractionalIndex_strictMono h.ascending h.length hstep
  refine ⟨fun t ↦ xFirst + fractionalIndex times t step * spacing,
    fun x ↦ timeAtIndex times ((x - xFirst) / spacing) step, fun t ↦ ?_, fun x ↦ ?_, fun t ↦ ?_,
    fun x ↦ ?_, fun hright t t' hlt ↦ ?_, fun hleft t t' hlt ↦ ?_⟩
  · simp only [createProjector, hcal]
  · simp only [createProjector, hcal]
  · dsimp only
    rw [add_sub_cancel_left, mul_div_cancel_right₀ _ hne, timeAtIndex_fractionalIndex h.length hstep]
  · dsimp only
    rw [fractionalIndex_timeAtIndex h.ascending h.length hstep, div_mul_cancel₀ _ hne,
      add_sub_cancel]
  · have hpos : 0 < spacing := by
      rw [hspacing]
      exact div_pos (sub_pos.mpr hright) hbars
    exact add_lt_add_right (mul_lt_mul_of_pos_right (hmono hlt) hpos) _
  · have hneg : spacing < 0 := by
      rw [hspacing]
      exact div_neg_of_neg_of_pos (sub_neg.mpr hleft) hbars
    exact add_lt_add_right (mul_lt_mul_of_neg_right (hmono hlt) hneg) _

end Projectors

/-- On any bars, indices and times, and pixels and times, are each other's inverses and
run the same way, and an anchored time is the same after bars are loaded before. -/
theorem projection_bijective [IsStrictOrderedRing K] {src : ProjectorSource K} {times : List K}
    {xFirst xLast : K} (h : Places src times xFirst xLast) :
    (∀ step, 0 < step →
      (∀ t, timeAtIndex times (fractionalIndex times t step) step = t) ∧
      (∀ x, fractionalIndex times (timeAtIndex times x step) step = x) ∧
      StrictMono (fun t ↦ fractionalIndex times t step) ∧
      StrictMono (fun x ↦ timeAtIndex times x step)) ∧
    (∃ X T : K → K, (∀ t, (createProjector src times).x t = some (X t)) ∧
      (∀ x, (createProjector src times).t x = some (T x)) ∧
      (∀ t, T (X t) = t) ∧ (∀ x, X (T x) = x) ∧
      (xFirst < xLast → StrictMono X) ∧ (xLast < xFirst → StrictAnti X)) ∧
    ∀ src' older xFirst' xLast', Places src' (older ++ times) xFirst' xLast' → ∀ x,
      (((createProjector src times).t x).bind (createProjector src' (older ++ times)).x).bind
        (createProjector src' (older ++ times)).t = (createProjector src times).t x := by
  refine ⟨fun step hstep ↦ ?_, h.exists_conversions, fun src' older xFirst' xLast' h' x ↦ ?_⟩
  · exact ⟨timeAtIndex_fractionalIndex h.length hstep,
      fractionalIndex_timeAtIndex h.ascending h.length hstep,
      fractionalIndex_strictMono h.ascending h.length hstep,
      timeAtIndex_strictMono h.ascending h.length hstep⟩
  · obtain ⟨_, T, -, hT, -⟩ := h.exists_conversions
    obtain ⟨X', T', hX', hT', hinverse, -⟩ := h'.exists_conversions
    rw [hT, Option.bind_some, hX', Option.bind_some, hT', hinverse]

def gapChart : ProjectorSource ℚ where
  timeToX t := if t = 0 then some 100 else if t = 300 then some 120 else none
  priceToY _ := none
  xToTime _ := none
  yToPrice _ := none

theorem gap_chart_keeps_times :
    Places gapChart [0, 60, 300] 100 120 ∧
      ∃ X T : ℚ → ℚ, (∀ t, (createProjector gapChart [0, 60, 300]).x t = some (X t)) ∧
        (∀ t, T (X t) = t) ∧ StrictMono X := by
  have hplaces : Places gapChart [0, 60, 300] 100 120 := by
    refine ⟨by norm_num, by decide, rfl, ?_, by norm_num⟩
    decide
  obtain ⟨X, T, hX, -, hinverse, -, hmono, -⟩ := (projection_bijective hplaces).2.1
  exact ⟨hplaces, X, T, hX, hinverse, hmono (by norm_num)⟩

end TalaPala.Drawings
