import TalaPala.Library.OrderStatistics

namespace TalaPala.Forecast

open Library

def defaultAlpha : ℚ := 1 / 10

def minEvidenceRadius : ℚ := 1 / 20

def symmetricMinN (alpha : ℚ) : ℤ := max 1 (⌈1 / alpha⌉ - 1)

def twoSidedMinN (alpha : ℚ) : ℤ := max 1 (⌈2 / alpha⌉ - 1)

/-- `ordered[k - 1]`, the `k`-th order statistic. -/
def orderStatistic (residuals : List ℚ) (k : ℤ) : ℚ := ((ordered residuals)[(k - 1).toNat]?).getD 0

def conformalRadius (residuals : List ℚ) (alpha : ℚ) : ℚ × Bool :=
  let res := residuals.map (fun r ↦ |r|)
  let n := res.length
  if n = 0 then (minEvidenceRadius, false)
  else
    let k := ⌈((n : ℚ) + 1) * (1 - alpha)⌉
    if k ≤ n then (orderStatistic res k, true)
    else
      let inflation := ((n : ℚ) + 1) * (1 - alpha) / n
      (max (orderStatistic res n * inflation) minEvidenceRadius, false)

/-- `round(x, digits)`, half to even. -/
def roundTo (digits : ℕ) (x : ℚ) : ℚ :=
  let whole := ⌊x * 10 ^ digits⌋
  let rest := x * 10 ^ digits - whole
  (if rest < 1 / 2 then whole else if 1 / 2 < rest then whole + 1
    else if whole % 2 = 0 then whole else whole + 1 : ℤ) / 10 ^ digits

inductive IntervalMethod
  | conformalTwoSided (lowerResidual upperResidual : ℚ)
  | conformalSymmetric (radius : ℚ)
  | conformalExtrapolated (radius : ℚ)

structure IntervalDiagnostics where
  nResiduals : ℕ
  alpha : ℚ
  method : IntervalMethod
  coverageGuaranteed : Bool
  minNSymmetric : ℤ
  minNTwoSided : ℤ
  relWidthPct : ℚ

structure Interval where
  lower : ℚ
  upper : ℚ
  diag : IntervalDiagnostics

def Interval.covers (interval : Interval) (actual : ℚ) : Bool :=
  decide (interval.lower ≤ actual) && decide (actual ≤ interval.upper)

def residualBand (residuals : List ℚ) (alpha : ℚ) : ℚ × ℚ × IntervalMethod × Bool :=
  let n := residuals.length
  if twoSidedMinN alpha ≤ n then
    let loIdx := max 1 ⌊((n : ℚ) + 1) * (alpha / 2)⌋
    let hiIdx := min (n : ℤ) ⌈((n : ℚ) + 1) * (1 - alpha / 2)⌉
    let loQ := orderStatistic residuals loIdx
    let hiQ := orderStatistic residuals hiIdx
    (loQ, hiQ, .conformalTwoSided (roundTo 6 loQ) (roundTo 6 hiQ), true)
  else
    let (radius, guaranteed) := conformalRadius residuals alpha
    (-radius, radius, if guaranteed then .conformalSymmetric (roundTo 6 radius)
      else .conformalExtrapolated (roundTo 6 radius), guaranteed)

def conformalInterval (point : ℚ) (residuals : List ℚ) (alpha : ℚ) : Interval :=
  let (loQ, hiQ, method, guaranteed) := residualBand residuals alpha
  let lower := point * (1 + loQ)
  let upper := point * (1 + hiQ)
  let (lower, upper) := if upper < lower then (upper, lower) else (lower, upper)
  { lower := lower
    upper := upper
    diag :=
      { nResiduals := residuals.length
        alpha := roundTo 4 alpha
        method := method
        coverageGuaranteed := guaranteed
        minNSymmetric := symmetricMinN alpha
        minNTwoSided := twoSidedMinN alpha
        relWidthPct := roundTo 4 (if point = 0 then 0 else (upper - lower) / point * 100) } }

theorem coverageGuaranteed_eq (point : ℚ) (residuals : List ℚ) (alpha : ℚ) :
    (conformalInterval point residuals alpha).diag.coverageGuaranteed =
      (residualBand residuals alpha).2.2.2 := rfl

theorem guaranteed_iff (residuals : List ℚ) (alpha : ℚ) :
    (residualBand residuals alpha).2.2.2 = true ↔ twoSidedMinN alpha ≤ residuals.length ∨
      (residuals.length ≠ 0 ∧
        ⌈((residuals.length : ℚ) + 1) * (1 - alpha)⌉ ≤ residuals.length) := by
  unfold residualBand
  by_cases htwo : twoSidedMinN alpha ≤ residuals.length
  · simp [htwo]
  · simp only [htwo, if_false, false_or, conformalRadius, List.length_map]
    by_cases hnil : residuals.length = 0
    · simp [hnil]
    · by_cases hk : ⌈((residuals.length : ℚ) + 1) * (1 - alpha)⌉ ≤ residuals.length
      · simp [hnil, hk]
      · simp [hnil, hk]

theorem missed_of_not_covers {point : ℚ} (hpoint : 0 < point) {residuals : List ℚ} {alpha r : ℚ}
    (h : (conformalInterval point residuals alpha).covers (point * (1 + r)) = false) :
    r < (residualBand residuals alpha).1 ∨ (residualBand residuals alpha).2.1 < r := by
  by_contra hin
  rw [not_or, not_lt, not_lt] at hin
  obtain ⟨hlo, hhi⟩ := hin
  have hlo : point * (1 + (residualBand residuals alpha).1) ≤ point * (1 + r) := by gcongr
  have hhi : point * (1 + r) ≤ point * (1 + (residualBand residuals alpha).2.1) := by gcongr
  have hin : (conformalInterval point residuals alpha).covers (point * (1 + r)) = true := by
    rw [Interval.covers, conformalInterval]
    simp only [if_neg (not_lt.mpr (hlo.trans hhi)), hlo, hhi, decide_true, Bool.and_self]
  rw [hin] at h
  cases h

theorem orderStatistic_spec {residuals : List ℚ} {k : ℤ} (hk : 1 ≤ k)
    (hlen : k ≤ residuals.length) :
    (ordered residuals)[(k - 1).toNat]? = some (orderStatistic residuals k) := by
  obtain ⟨a, ha⟩ := exists_ordered (l := residuals) (k := (k - 1).toNat) (by omega)
  rw [orderStatistic, ha, Option.getD_some]

section Misses

variable {alpha : ℚ} (h₀ : 0 < alpha) (h₁ : alpha < 1)
include h₀

theorem twoSided_indices {n : ℕ} (hn : twoSidedMinN alpha ≤ n) :
    1 ≤ ⌊((n : ℚ) + 1) * (alpha / 2)⌋ ∧
    ⌈((n : ℚ) + 1) * (1 - alpha / 2)⌉ = n + 1 - ⌊((n : ℚ) + 1) * (alpha / 2)⌋ := by
  constructor
  · have hceil : ⌈2 / alpha⌉ ≤ (n : ℤ) + 1 := by
      rw [twoSidedMinN] at hn
      omega
    have hle : 2 / alpha ≤ (n : ℚ) + 1 := by
      have := Int.ceil_le.mp hceil
      push_cast at this
      exact this
    rw [div_le_iff₀ h₀] at hle
    apply Int.le_floor.mpr
    push_cast
    linarith
  · have hsplit : ((n : ℚ) + 1) * (1 - alpha / 2) =
        ((n + 1 : ℕ) : ℚ) + -(((n : ℚ) + 1) * (alpha / 2)) := by
      push_cast
      ring
    rw [hsplit, Int.ceil_natCast_add, Int.ceil_neg]
    push_cast
    ring

include h₁

theorem twoSided_rank {rs pool : List ℚ} {r : ℚ} (hp : (r :: pool).Perm rs)
    (hn : twoSidedMinN alpha ≤ pool.length)
    (hmiss : r < (residualBand pool alpha).1 ∨ (residualBand pool alpha).2.1 < r) {m : ℕ}
    (hm : (m : ℤ) = ⌊((pool.length : ℚ) + 1) * (alpha / 2)⌋) :
    rs.countP (fun b ↦ b ≤ r) ≤ m ∨ rs.countP (fun b ↦ r ≤ b) ≤ m := by
  obtain ⟨hone, hmirror⟩ := twoSided_indices h₀ hn
  have hhalf : 2 * (m : ℤ) < (pool.length : ℤ) + 1 := by
    have hfloor := Int.floor_le (((pool.length : ℚ) + 1) * (alpha / 2))
    rw [← hm] at hfloor
    have hlt : ((pool.length : ℚ) + 1) * alpha < pool.length + 1 :=
      mul_lt_of_lt_one_right (by positivity) h₁
    have hdouble : 2 * ((m : ℤ) : ℚ) < pool.length + 1 := by linarith
    exact_mod_cast hdouble
  have hlen : pool.length + 1 = rs.length := hp.length_eq
  rw [← hm] at hone hmirror
  rw [residualBand, if_pos hn, hmirror, ← hm] at hmiss
  simp only [max_eq_right hone] at hmiss
  have hmin : min (pool.length : ℤ) (pool.length + 1 - m) = pool.length + 1 - m := by omega
  rw [hmin] at hmiss
  rcases hmiss with hlow | hhigh
  · have := rank_of_lt_ordered hp (orderStatistic_spec hone (by omega)) hlow
    exact .inl (by omega)
  · have := rank_of_ordered_lt hp (orderStatistic_spec (by omega) (by omega)) hhigh
    exact .inr (by omega)

end Misses

instance totalDescending : Std.Total (fun a b : ℚ ↦ b ≤ a) := ⟨fun a b ↦ le_total b a⟩

instance transDescending : IsTrans ℚ (fun a b ↦ b ≤ a) := ⟨fun _ _ _ hab hbc ↦ hbc.trans hab⟩

theorem symmetric_rank {rs pool : List ℚ} {alpha r : ℚ} (hp : (r :: pool).Perm rs)
    (h₁ : alpha < 1) (hn : ¬ twoSidedMinN alpha ≤ pool.length)
    (hguaranteed : (residualBand pool alpha).2.2.2 = true)
    (hmiss : r < (residualBand pool alpha).1 ∨ (residualBand pool alpha).2.1 < r) {m : ℕ}
    (hm : (m : ℤ) = pool.length + 1 - ⌈((pool.length : ℚ) + 1) * (1 - alpha)⌉) :
    (rs.map (fun b ↦ |b|)).countP (fun b ↦ |r| ≤ b) ≤ m := by
  obtain ⟨hnil, hk⟩ := ((guaranteed_iff pool alpha).mp hguaranteed).resolve_left hn
  rw [residualBand, if_neg hn] at hmiss
  simp only [conformalRadius, List.length_map, if_neg hnil, if_pos hk] at hmiss
  have hpos : 1 ≤ ⌈((pool.length : ℚ) + 1) * (1 - alpha)⌉ := by
    have : 0 < 1 - alpha := by linarith
    apply Int.one_le_ceil_iff.mpr
    positivity
  have habs : orderStatistic (pool.map (fun b ↦ |b|))
      ⌈((pool.length : ℚ) + 1) * (1 - alpha)⌉ < |r| := by
    rcases hmiss with hlow | hhigh
    · exact lt_abs.mpr (.inr (by linarith))
    · exact lt_abs.mpr (.inl hhigh)
  have hmap : (|r| :: pool.map (fun b ↦ |b|)).Perm (rs.map (fun b ↦ |b|)) := by
    simpa using hp.map (fun b : ℚ ↦ |b|)
  have hlen : pool.length + 1 = rs.length := hp.length_eq
  have hrank := rank_of_ordered_lt hmap
    (orderStatistic_spec hpos (by rw [List.length_map]; exact hk)) habs
  rw [List.length_map] at hrank
  omega

def leaveOneOut (point : ℚ) (rs : List ℚ) (alpha : ℚ) (i : Fin rs.length) : Interval :=
  conformalInterval point (rs.eraseIdx i) alpha

def coveredCount (point : ℚ) (rs : List ℚ) (alpha : ℚ) : ℕ :=
  (List.finRange rs.length).countP (fun i ↦
    (leaveOneOut point rs alpha i).covers (point * (1 + rs.get i)))

def missedCount (point : ℚ) (rs : List ℚ) (alpha : ℚ) : ℕ :=
  (List.finRange rs.length).countP (fun i ↦
    !(leaveOneOut point rs alpha i).covers (point * (1 + rs.get i)))

theorem covered_add_missed (point : ℚ) (rs : List ℚ) (alpha : ℚ) :
    coveredCount point rs alpha + missedCount point rs alpha = rs.length := by
  have hsplit := List.length_eq_countP_add_countP (fun i ↦
    (leaveOneOut point rs alpha i).covers (point * (1 + rs.get i))) (l := List.finRange rs.length)
  rw [List.length_finRange] at hsplit
  rw [hsplit, coveredCount, missedCount]
  congr 1
  exact List.countP_congr (fun i _ ↦ by simp)

theorem length_eraseIdx_fin {rs : List ℚ} (i : Fin rs.length) :
    (rs.eraseIdx i).length + 1 = rs.length := by
  have := i.isLt
  rw [List.length_eraseIdx_of_lt i.isLt]
  omega

theorem get_cons_eraseIdx_perm {rs : List ℚ} (i : Fin rs.length) :
    (rs.get i :: rs.eraseIdx i).Perm rs := List.getElem_cons_eraseIdx_perm i.isLt

theorem missed_le_countP {rs : List ℚ} {missed : Fin rs.length → Bool} {p : ℚ → Bool}
    (h : ∀ i, missed i = true → p (rs.get i) = true) :
    (List.finRange rs.length).countP missed ≤ rs.countP p := by
  rw [← countP_finRange_get rs p]
  exact List.countP_mono_left (fun i _ ↦ h i)

section Misses

variable {alpha point : ℚ} (h₀ : 0 < alpha) (h₁ : alpha < 1) (hpoint : 0 < point) {rs : List ℚ}
include h₀ h₁ hpoint

theorem twoSided_missed {n : ℕ} (hn : rs.length = n + 1) (htwo : twoSidedMinN alpha ≤ n) :
    (missedCount point rs alpha : ℚ) ≤ alpha * rs.length := by
  obtain ⟨m, hm⟩ := Int.eq_ofNat_of_zero_le (zero_le_one.trans (twoSided_indices h₀ htwo).1)
  have hlen (i : Fin rs.length) : (rs.eraseIdx i).length = n := by
    have := length_eraseIdx_fin i
    omega
  have hmissed : missedCount point rs alpha ≤ m + m := by
    refine le_trans (missed_le_countP (p := fun r ↦ decide (rs.countP (fun b ↦ b ≤ r) ≤ m) ||
      decide (rs.countP (fun b ↦ r ≤ b) ≤ m)) ?_) ?_
    · intro i hi
      rw [Bool.not_eq_true'] at hi
      rw [Bool.or_eq_true, decide_eq_true_eq, decide_eq_true_eq]
      refine twoSided_rank h₀ h₁ (get_cons_eraseIdx_perm i) ?_ (missed_of_not_covers hpoint hi) ?_
      · rw [hlen i]
        exact htwo
      · rw [hlen i, hm]
    · have hbelow := countP_rank_le (· ≤ ·) rs m
      have habove := countP_rank_le (fun a b : ℚ ↦ b ≤ a) rs m
      have := countP_or_le (fun r ↦ decide (rs.countP (fun b ↦ b ≤ r) ≤ m))
        (fun r ↦ decide (rs.countP (fun b ↦ r ≤ b) ≤ m)) rs
      omega
  have hfloor := Int.floor_le (((n : ℚ) + 1) * (alpha / 2))
  rw [hm] at hfloor
  have hcast : (missedCount point rs alpha : ℚ) ≤ m + m := by exact_mod_cast hmissed
  have hlength : (rs.length : ℚ) = n + 1 := by exact_mod_cast hn
  rw [hlength]
  push_cast at hfloor
  linarith

omit h₀ in
theorem symmetric_missed {n : ℕ} (hn : rs.length = n + 1) (htwo : ¬ twoSidedMinN alpha ≤ n)
    (hguaranteed : n ≠ 0 ∧ ⌈((n : ℚ) + 1) * (1 - alpha)⌉ ≤ n) :
    (missedCount point rs alpha : ℚ) ≤ alpha * rs.length := by
  have hnonneg : 0 ≤ (n : ℤ) + 1 - ⌈((n : ℚ) + 1) * (1 - alpha)⌉ := by omega
  obtain ⟨m, hm⟩ := Int.eq_ofNat_of_zero_le hnonneg
  have hlen (i : Fin rs.length) : (rs.eraseIdx i).length = n := by
    have := length_eraseIdx_fin i
    omega
  have hmissed : missedCount point rs alpha ≤ m := by
    refine le_trans (missed_le_countP (p := fun r ↦
      decide ((rs.map (fun b ↦ |b|)).countP (fun b ↦ |r| ≤ b) ≤ m)) ?_) ?_
    · intro i hi
      rw [Bool.not_eq_true'] at hi
      rw [decide_eq_true_eq]
      refine symmetric_rank (get_cons_eraseIdx_perm i) h₁ ?_ ?_ (missed_of_not_covers hpoint hi) ?_
      · rw [hlen i]
        exact htwo
      · rw [guaranteed_iff, hlen i]
        exact .inr hguaranteed
      · rw [hlen i]
        exact hm.symm
    · have hrank := countP_rank_le (fun a b : ℚ ↦ b ≤ a) (rs.map (fun b ↦ |b|)) m
      rw [List.countP_map] at hrank
      exact hrank
  have hceil := Int.le_ceil (((n : ℚ) + 1) * (1 - alpha))
  have hk : ((⌈((n : ℚ) + 1) * (1 - alpha)⌉ : ℤ) : ℚ) = n + 1 - m := by
    have : ⌈((n : ℚ) + 1) * (1 - alpha)⌉ = (n : ℤ) + 1 - m := by omega
    rw [this]
    push_cast
    ring
  rw [hk] at hceil
  have hcast : (missedCount point rs alpha : ℚ) ≤ m := by exact_mod_cast hmissed
  have hlength : (rs.length : ℚ) = n + 1 := by exact_mod_cast hn
  rw [hlength]
  linarith

/-- Whenever the interval built from the other residuals calls its coverage
guaranteed, at least `(1 - alpha) * (n + 1)` of the `n + 1` left-out residuals
fall inside, ties and both regimes included. -/
theorem conformal_coverage (i : Fin rs.length)
    (hguaranteed : (leaveOneOut point rs alpha i).diag.coverageGuaranteed = true) :
    (1 - alpha) * rs.length ≤ coveredCount point rs alpha := by
  obtain ⟨n, hn⟩ : ∃ n, rs.length = n + 1 := ⟨rs.length - 1, by have := i.isLt; omega⟩
  have hlen : (rs.eraseIdx i).length = n := by
    have := length_eraseIdx_fin i
    omega
  rw [leaveOneOut, coverageGuaranteed_eq, guaranteed_iff, hlen] at hguaranteed
  have hmissed : (missedCount point rs alpha : ℚ) ≤ alpha * rs.length := by
    by_cases htwo : twoSidedMinN alpha ≤ n
    · exact twoSided_missed h₀ h₁ hpoint hn htwo
    · exact symmetric_missed h₁ hpoint hn htwo (hguaranteed.resolve_left htwo)
  have hsplit : (coveredCount point rs alpha : ℚ) + missedCount point rs alpha = rs.length := by
    exact_mod_cast covered_add_missed point rs alpha
  linarith

end Misses

/-- Ten residuals at 90%: the nine others reach the symmetric band, not the
two-sided one. -/
theorem ten_residuals_covered :
    (1 - defaultAlpha) * 10 ≤
      (coveredCount 1000 [1, -2, 3, 0, 0, -1, 2, -3, 9, 1] defaultAlpha : ℚ) := by
  have hguaranteed : (leaveOneOut 1000 [1, -2, 3, 0, 0, -1, 2, -3, 9, 1] defaultAlpha
      ⟨0, by decide⟩).diag.coverageGuaranteed = true := by decide +kernel
  exact conformal_coverage (by decide +kernel) (by decide +kernel) (by decide +kernel) _ hguaranteed

end TalaPala.Forecast
