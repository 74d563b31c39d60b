import TalaPala.Signals.Engine

namespace TalaPala.Signals

open Library Trend

section Bands

def Signal.level : Signal → ℤ
  | .strongSell => -2
  | .sell => -1
  | .hold => 0
  | .buy => 1
  | .strongBuy => 2

theorem Signal.level_bounds (call : Signal) : -2 ≤ call.level ∧ call.level ≤ 2 := by
  cases call <;> simp [Signal.level]

/-- No call beyond another on its side of hold, and none on the other side. -/
def NoMoreCommitted (base call : Signal) : Prop :=
  (base.level ≤ 0 → call.level ≤ 0) ∧ (0 ≤ base.level → 0 ≤ call.level) ∧
    call.level.natAbs ≤ base.level.natAbs

theorem NoMoreCommitted.refl (call : Signal) : NoMoreCommitted call call :=
  ⟨id, id, le_rfl⟩

theorem level_scoreToSignal (score : ℤ) :
    ((scoreToSignal score).level < 2 ↔ score ≤ 74) ∧
      ((scoreToSignal score).level < 1 ↔ score ≤ 59) ∧
        ((scoreToSignal score).level ≤ -1 ↔ score ≤ 40) ∧
          ((scoreToSignal score).level ≤ -2 ↔ score ≤ 25) := by
  unfold scoreToSignal
  split_ifs <;> simp only [Signal.level] <;> omega

def scoreAt (distance : ℚ) : ℤ := clip 0 100 (halfEven (50 + distance))

def classAt (distance : ℚ) : Signal := scoreToSignal (scoreAt distance)

variable {distance : ℚ}

theorem scoreAt_le {n : ℤ} (hlow : 0 ≤ n) (hhigh : n < 100) :
    scoreAt distance ≤ n ↔ halfEven (50 + distance) ≤ n := by
  unfold scoreAt clip
  omega

theorem classAt_lt_strongBuy : (classAt distance).level < 2 ↔ distance ≤ 49 / 2 := by
  rw [classAt, (level_scoreToSignal _).1, scoreAt_le (by decide) (by decide),
    halfEven_le_of_even (by decide)]
  constructor <;> intro h <;> norm_num at h ⊢ <;> linarith

theorem classAt_lt_buy : (classAt distance).level < 1 ↔ distance < 19 / 2 := by
  rw [classAt, (level_scoreToSignal _).2.1, scoreAt_le (by decide) (by decide),
    halfEven_le_of_odd (by decide)]
  constructor <;> intro h <;> norm_num at h ⊢ <;> linarith

theorem classAt_le_sell : (classAt distance).level ≤ -1 ↔ distance ≤ -(19 / 2) := by
  rw [classAt, (level_scoreToSignal _).2.2.1, scoreAt_le (by decide) (by decide),
    halfEven_le_of_even (by decide)]
  constructor <;> intro h <;> norm_num at h ⊢ <;> linarith

theorem classAt_le_strongSell : (classAt distance).level ≤ -2 ↔ distance < -(49 / 2) := by
  rw [classAt, (level_scoreToSignal _).2.2.2, scoreAt_le (by decide) (by decide),
    halfEven_le_of_odd (by decide)]
  constructor <;> intro h <;> norm_num at h ⊢ <;> linarith

structure KeepsEdges (base moved : ℚ) : Prop where
  buy : base < 19 / 2 → moved < 19 / 2
  strongBuy : base ≤ 49 / 2 → moved ≤ 49 / 2
  sell : -(19 / 2) < base → -(19 / 2) < moved
  strongSell : -(49 / 2) ≤ base → -(49 / 2) ≤ moved

theorem noMoreCommitted_iff {base moved : ℚ} :
    NoMoreCommitted (classAt base) (classAt moved) ↔ KeepsEdges base moved := by
  have hedges : KeepsEdges base moved ↔
      ((classAt base).level < 1 → (classAt moved).level < 1) ∧
        ((classAt base).level < 2 → (classAt moved).level < 2) ∧
          ((classAt moved).level ≤ -1 → (classAt base).level ≤ -1) ∧
            ((classAt moved).level ≤ -2 → (classAt base).level ≤ -2) := by
    simp only [classAt_lt_buy, classAt_lt_strongBuy, classAt_le_sell, classAt_le_strongSell]
    constructor
    · intro h
      exact ⟨h.buy, h.strongBuy, fun hm ↦ not_lt.mp (fun hb ↦ absurd hm (not_le.mpr (h.sell hb))),
        fun hm ↦ not_le.mp (fun hb ↦ absurd hm (not_lt.mpr (h.strongSell hb)))⟩
    · rintro ⟨hbuy, hstrong, hsell, hless⟩
      exact ⟨hbuy, hstrong, fun hb ↦ not_le.mp (fun hm ↦ absurd hb (not_lt.mpr (hsell hm))),
        fun hb ↦ not_lt.mp (fun hm ↦ absurd hb (not_le.mpr (hless hm)))⟩
  rw [hedges, NoMoreCommitted]
  obtain ⟨hlow, hhigh⟩ := (classAt base).level_bounds
  obtain ⟨hlow', hhigh'⟩ := (classAt moved).level_bounds
  omega

end Bands

section Boards

variable (inputs : SignalInputs)

def withoutPermission : SignalInputs := { inputs with trendAlignment := none, fundFlowZ := none }

def earlierPoints : ℚ :=
  (forecastFactor inputs).points + (confidenceFactor inputs).points +
    (agreementFactor inputs).points + (smaFactor inputs).points

def laterPoints : ℚ :=
  (rsiFactor inputs).points + (momentumFactor inputs).points + (premiumFactor inputs).points +
    (regimeFactor inputs).points

def permissionPoints : ℚ :=
  (trendFactor inputs (smaFactor inputs).points (50 + earlierPoints inputs)).points +
    (fundFlowFactor inputs).points

def keptShare : ℚ := if modelBacked inputs then 1 else technicalOnlyWeight

theorem computeSignal_score : (computeSignal inputs).score =
    if inputs.dataFresh then
      scoreAt (keptShare inputs * (earlierPoints inputs + laterPoints inputs +
        permissionPoints inputs))
    else 50 := by
  have hbefore : 50 + (forecastFactor inputs).points + (confidenceFactor inputs).points +
      (agreementFactor inputs).points + (smaFactor inputs).points = 50 + earlierPoints inputs := by
    unfold earlierPoints
    ring
  cases hfresh : inputs.dataFresh with
  | false => simp [computeSignal, hfresh]
  | true =>
    simp only [computeSignal, hfresh, if_true, hbefore, scoreAt]
    congr 2
    cases hmodel : modelBacked inputs with
    | true =>
      simp only [if_true, keptShare, hmodel, laterPoints, permissionPoints]
      ring
    | false =>
      simp only [Bool.false_eq_true, if_false, keptShare, hmodel, laterPoints, permissionPoints]
      ring

theorem computeSignal_signal : (computeSignal inputs).signal =
    if inputs.dataFresh then
      classAt (keptShare inputs * (earlierPoints inputs + laterPoints inputs +
        permissionPoints inputs))
    else .hold := by
  have hscore := computeSignal_score inputs
  cases hfresh : inputs.dataFresh with
  | false => simp [computeSignal, hfresh]
  | true =>
    rw [hfresh, if_pos rfl] at hscore
    rw [if_pos rfl, classAt, ← hscore]
    simp only [computeSignal, hfresh, if_true]

theorem permissionPoints_withoutPermission : permissionPoints (withoutPermission inputs) = 0 := by
  simp [permissionPoints, trendFactor, fundFlowFactor, withoutPermission]

def WithinRoom : Prop :=
  inputs.dataFresh = true →
    KeepsEdges (keptShare inputs * (earlierPoints inputs + laterPoints inputs))
      (keptShare inputs * (earlierPoints inputs + laterPoints inputs) +
        keptShare inputs * permissionPoints inputs)

end Boards

section LastWord

def bandOf : Signal → ℚ × ℚ
  | .strongSell => (0, 25)
  | .sell => (26, 40)
  | .hold => (41, 59)
  | .buy => (60, 74)
  | .strongBuy => (75, 100)

theorem holdWithinBand_eq (x y : ℚ) : holdWithinBand (50 + x) (50 + y) =
    if x < y then min (50 + y) (bandOf (classAt x)).2 else max (50 + y) (bandOf (classAt x)).1 := by
  have hlt : 50 + x < 50 + y ↔ x < y := add_lt_add_iff_left 50
  unfold holdWithinBand
  rw [show scoreToSignal (clip 0 100 (halfEven (50 + x))) = classAt x from rfl]
  cases classAt x <;> simp [signalBands, bandOf, hlt]

theorem classAt_spec (x : ℚ) :
    match classAt x with
    | .strongSell => x < -(49 / 2)
    | .sell => -(49 / 2) ≤ x ∧ x ≤ -(19 / 2)
    | .hold => -(19 / 2) < x ∧ x < 19 / 2
    | .buy => 19 / 2 ≤ x ∧ x ≤ 49 / 2
    | .strongBuy => 49 / 2 < x := by
  have hbuy : (classAt x).level < 1 ↔ _ := classAt_lt_buy
  have hstrong : (classAt x).level < 2 ↔ _ := classAt_lt_strongBuy
  have hsell : (classAt x).level ≤ -1 ↔ _ := classAt_le_sell
  have hless : (classAt x).level ≤ -2 ↔ _ := classAt_le_strongSell
  cases hclass : classAt x <;> simp [hclass, Signal.level] at hbuy hstrong hsell hless ⊢ <;> grind

theorem keepsEdges_holdWithinBand {x y : ℚ} (h : |x| < |y|) :
    KeepsEdges x (holdWithinBand (50 + x) (50 + y) - 50) := by
  have hspec := classAt_spec x
  rw [holdWithinBand_eq]
  obtain ⟨hxlow, hxhigh⟩ := abs_le.mp h.le
  split_ifs with hlt
  · have hpos : 0 < y := by
      by_contra hy
      rw [abs_of_nonpos (not_lt.mp hy)] at hxlow
      linarith
    rcases min_cases (50 + y) (bandOf (classAt x)).2 with ⟨hmin, hle⟩ | ⟨hmin, hle⟩ <;> rw [hmin] <;>
      cases hclass : classAt x <;> simp only [hclass, bandOf] at hspec hle ⊢ <;>
        constructor <;> intro hedge <;> linarith
  · have hneg : y < 0 := by
      by_contra hy
      rw [abs_of_nonneg (not_lt.mp hy)] at h hxhigh
      linarith [le_abs_self x]
    rcases max_cases (50 + y) (bandOf (classAt x)).1 with ⟨hmax, hle⟩ | ⟨hmax, hle⟩ <;> rw [hmax] <;>
      cases hclass : classAt x <;> simp only [hclass, bandOf] at hspec hle ⊢ <;>
        constructor <;> intro hedge <;> linarith

def alignmentMove (direction weight sma : ℚ) : ℚ :=
  direction * weight * (if 0 < sma * direction then 1 / 2 else 1)

theorem alignmentPoints_eq (direction weight sma x : ℚ) :
    alignmentPoints direction weight sma (50 + x) =
      if |x| < |x + alignmentMove direction weight sma| then
        holdWithinBand (50 + x) (50 + (x + alignmentMove direction weight sma)) - (50 + x)
      else alignmentMove direction weight sma := by
  have hmove : direction * weight * (if 0 < sma * direction then 1 / 2 else 1) =
      alignmentMove direction weight sma := rfl
  simp only [alignmentPoints, hmove]
  rw [add_sub_cancel_left, add_assoc, add_sub_cancel_left, add_sub_add_left_eq_sub,
    add_sub_cancel_left]

theorem keepsEdges_alignmentPoints {direction weight sma x : ℚ} (hdirection : |direction| = 1)
    (hpos : 0 < weight) (hweight : weight < 19) :
    KeepsEdges x (x + alignmentPoints direction weight sma (50 + x)) := by
  have hsmall : |alignmentMove direction weight sma| < 19 := by
    have hshare : |(if 0 < sma * direction then 1 / 2 else 1 : ℚ)| ≤ 1 := by
      split_ifs <;> norm_num [abs_le]
    rw [alignmentMove, abs_mul, abs_mul, hdirection, one_mul, abs_of_pos hpos]
    exact (mul_le_of_le_one_right hpos.le hshare).trans_lt hweight
  obtain ⟨hlow, hhigh⟩ := abs_lt.mp hsmall
  rw [alignmentPoints_eq]
  split_ifs with hfurther
  · have hheld := keepsEdges_holdWithinBand hfurther
    convert hheld using 1
    ring
  · -- a move that is no further from hold reaches the other side only by crossing it
    obtain ⟨hxlow, hxhigh⟩ := abs_le.mp (not_lt.mp hfurther)
    rcases abs_cases x with ⟨habs, hx⟩ | ⟨habs, hx⟩ <;> rw [habs] at hxlow hxhigh <;>
      constructor <;> intro hedge <;> linarith

theorem alignment_withdraws {inputs : SignalInputs} (hmodel : modelBacked inputs = true)
    (hlater : laterPoints inputs = 0) (hflow : (fundFlowFactor inputs).points = 0)
    (hweight : inputs.trendWeight < 19) : WithinRoom inputs := by
  intro hfresh
  simp only [keptShare, hmodel, if_true, one_mul, hlater, add_zero, permissionPoints, hflow]
  have hnone : KeepsEdges (earlierPoints inputs) (earlierPoints inputs + 0) := by
    rw [add_zero]
    exact ⟨id, id, id, id⟩
  unfold trendFactor
  split
  · split_ifs with hpos
    · exact keepsEdges_alignmentPoints (by norm_num) hpos hweight
    · exact hnone
  · split_ifs with hpos
    · exact keepsEdges_alignmentPoints (by norm_num) hpos hweight
    · exact hnone
  · dsimp only
    split_ifs <;> exact hnone
  · exact hnone

end LastWord

section Calls

def neutralBoard : SignalInputs :=
  { expectedChangePct := [("1d", some 0)], confidence := [("1d", some (1 / 2))] }

def oversoldBoard : SignalInputs :=
  { neutralBoard with rsi14 := some 30, trendAlignment := some .fullBullish, trendWeight := 10 }

def crowdedBoard : SignalInputs :=
  { neutralBoard with
    lastPrice := some 100, sma20 := some 110, sma50 := some 105, fundFlowZ := some 3 }

end Calls

end TalaPala.Signals
