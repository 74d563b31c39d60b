import TalaPala.Signals.Commitment
import Mathlib.Algebra.Order.Group.MinMax

namespace TalaPala.Signals

open Library Trend List

section Scale

variable {x y : ℚ}

theorem halfEven_mono (h : x ≤ y) : halfEven x ≤ halfEven y := by
  rcases (@halfEven_le_iff ℚ _ _ _ _ y (halfEven y)).mp le_rfl with hlt | ⟨heq, heven⟩
  · exact halfEven_le_iff.mpr (.inl (h.trans_lt hlt))
  · rcases h.lt_or_eq with hlt | rfl
    · exact halfEven_le_iff.mpr (.inl (hlt.trans_eq heq))
    · exact le_rfl

theorem clip_mono {α : Type*} [LinearOrder α] {low high a b : α} (h : a ≤ b) :
    clip low high a ≤ clip low high b :=
  min_le_min_right high (max_le_max_right low h)

theorem scoreAt_mono (h : x ≤ y) : scoreAt x ≤ scoreAt y :=
  clip_mono (halfEven_mono (add_le_add_right h 50))

theorem level_mono {score score' : ℤ} (h : score ≤ score') :
    (scoreToSignal score).level ≤ (scoreToSignal score').level := by
  unfold scoreToSignal
  split_ifs <;> simp only [Signal.level] <;> omega

theorem bandOf_mono (h : x ≤ y) :
    (bandOf (classAt x)).1 ≤ (bandOf (classAt y)).1 ∧
      (bandOf (classAt x)).2 ≤ (bandOf (classAt y)).2 := by
  have hlevel := level_mono (scoreAt_mono h)
  rw [← classAt, ← classAt] at hlevel
  revert hlevel
  cases classAt x <;> cases classAt y <;> simp [Signal.level, bandOf] <;> norm_num

end Scale

section Alignments

variable {x y move : ℚ}

def aligned (move x : ℚ) : ℚ :=
  if |x| < |x + move| then holdWithinBand (50 + x) (50 + (x + move)) - 50 else x + move

theorem aligned_alignmentMove (direction weight sma x : ℚ) :
    x + alignmentPoints direction weight sma (50 + x) =
      aligned (alignmentMove direction weight sma) x := by
  rw [alignmentPoints_eq, aligned]
  split_ifs
  · ring
  · rfl

theorem aligned_of_pos (h : 0 < move) : aligned move x =
    if -(move / 2) < x then min (x + move) ((bandOf (classAt x)).2 - 50) else x + move := by
  have hfurther : |x| < |x + move| ↔ -(move / 2) < x := by
    rw [← sq_lt_sq]
    constructor <;> intro hx <;> nlinarith
  have hshift : 50 + (x + move) - 50 = x + move := add_sub_cancel_left 50 _
  simp only [aligned, hfurther, holdWithinBand_eq, if_pos (lt_add_of_pos_right x h)]
  rw [← min_sub_sub_right, hshift]

theorem aligned_of_neg (h : move < 0) : aligned move x =
    if x < -(move / 2) then max (x + move) ((bandOf (classAt x)).1 - 50) else x + move := by
  have hfurther : |x| < |x + move| ↔ x < -(move / 2) := by
    rw [← sq_lt_sq]
    constructor <;> intro hx <;> nlinarith
  have hshift : 50 + (x + move) - 50 = x + move := add_sub_cancel_left 50 _
  simp only [aligned, hfurther, holdWithinBand_eq, if_neg (not_lt.mpr (add_lt_of_neg_right x h).le)]
  rw [← max_sub_sub_right, hshift]

theorem band_high_of_lt (h : x < 19 / 2) : (bandOf (classAt x)).2 ≤ 59 := by
  have hspec := classAt_spec x
  cases hclass : classAt x <;> simp only [hclass, bandOf] at hspec ⊢ <;> linarith

theorem le_band_high (h : -(19 / 2) < x) : 59 ≤ (bandOf (classAt x)).2 := by
  have hspec := classAt_spec x
  cases hclass : classAt x <;> simp only [hclass, bandOf] at hspec ⊢ <;> linarith

theorem band_low_le (h : x < 19 / 2) : (bandOf (classAt x)).1 ≤ 41 := by
  have hspec := classAt_spec x
  cases hclass : classAt x <;> simp only [hclass, bandOf] at hspec ⊢ <;> linarith

theorem le_band_low (h : -(19 / 2) < x) : 41 ≤ (bandOf (classAt x)).1 := by
  have hspec := classAt_spec x
  cases hclass : classAt x <;> simp only [hclass, bandOf] at hspec ⊢ <;> linarith

theorem aligned_monotone_iff_of_pos (h : 0 < move) : Monotone (aligned move) ↔ move ≤ 18 := by
  constructor
  · intro hmono
    by_contra hlarge
    have hle := @hmono (-(move / 2)) (-(move / 2) + 1) (by linarith)
    rw [aligned_of_pos h, aligned_of_pos h, if_neg (lt_irrefl _), if_pos (by linarith)] at hle
    have hedge := band_high_of_lt (show -(move / 2) + 1 < 19 / 2 by linarith)
    linarith [hle.trans (min_le_right _ _)]
  · intro hsmall x y hxy
    rw [aligned_of_pos h, aligned_of_pos h]
    split_ifs with hx hy hy
    · exact min_le_min (by linarith) (by linarith [(bandOf_mono hxy).2])
    · exact absurd (hx.trans_le hxy) hy
    · have hedge := le_band_high (show -(19 / 2) < y by linarith)
      exact le_min (by linarith) (by linarith)
    · linarith

theorem aligned_monotone_iff_of_neg (h : move < 0) : Monotone (aligned move) ↔ -18 ≤ move := by
  constructor
  · intro hmono
    by_contra hlarge
    have hle := @hmono (-(move / 2) - 1) (-(move / 2)) (by linarith)
    rw [aligned_of_neg h, aligned_of_neg h, if_pos (by linarith), if_neg (lt_irrefl _)] at hle
    have hedge := le_band_low (show -(19 / 2) < -(move / 2) - 1 by linarith)
    linarith [(le_max_right _ _).trans hle]
  · intro hsmall x y hxy
    rw [aligned_of_neg h, aligned_of_neg h]
    split_ifs with hx hy hy
    · exact max_le_max (by linarith) (by linarith [(bandOf_mono hxy).1])
    · have hedge := band_low_le (show x < 19 / 2 by linarith)
      exact max_le (by linarith) (by linarith)
    · exact absurd (hxy.trans_lt hy) hx
    · linarith

theorem aligned_zero : aligned 0 x = x := by
  rw [aligned, add_zero, if_neg (lt_irrefl _)]

theorem aligned_mono (h : |move| ≤ 18) : Monotone (aligned move) := by
  obtain ⟨hlow, hhigh⟩ := abs_le.mp h
  rcases lt_trichotomy move 0 with hneg | rfl | hpos
  · exact (aligned_monotone_iff_of_neg hneg).mpr hlow
  · intro x y hxy
    rw [aligned_zero, aligned_zero]
    exact hxy
  · exact (aligned_monotone_iff_of_pos hpos).mpr hhigh

end Alignments

section Forecasts

def Raised (changes changes' : List (String × Option ℚ)) : Prop :=
  ∃ front horizon x y back, changes = front ++ (horizon, some x) :: back ∧
    changes' = front ++ (horizon, some y) :: back ∧ x < y

def forecastPoints (changes : List (String × Option ℚ)) (cost : ℚ) : ℚ :=
  (forecastFactor { expectedChangePct := changes, roundTripCostPct := cost }).points +
    (agreementFactor { expectedChangePct := changes }).points

variable (board : SignalInputs) (changes : List (String × Option ℚ))

def withForecasts : SignalInputs := { board with expectedChangePct := changes }

def trendMove : ℚ :=
  match board.trendAlignment with
  | some .fullBullish =>
    if 0 < board.trendWeight then alignmentMove 1 board.trendWeight (smaFactor board).points
    else 0
  | some .fullBearish =>
    if 0 < board.trendWeight then alignmentMove (-1) board.trendWeight (smaFactor board).points
    else 0
  | _ => 0

theorem trendFactor_points (x : ℚ) :
    x + (trendFactor board (smaFactor board).points (50 + x)).points =
      aligned (trendMove board) x := by
  unfold trendFactor trendMove
  cases board.trendAlignment with
  | none => rw [add_zero, aligned_zero]
  | some alignment =>
    cases alignment with
    | fullBullish =>
      dsimp only
      split_ifs
      · exact aligned_alignmentMove _ _ _ x
      · rw [add_zero, aligned_zero]
    | fullBearish =>
      dsimp only
      split_ifs
      · exact aligned_alignmentMove _ _ _ x
      · rw [add_zero, aligned_zero]
    | notAligned =>
      dsimp only
      split_ifs <;> rw [add_zero, aligned_zero]

def distanceWith : ℚ :=
  keptShare board *
    (aligned (trendMove board) (forecastPoints changes board.roundTripCostPct +
      ((confidenceFactor board).points + (smaFactor board).points)) +
      (laterPoints board + (fundFlowFactor board).points))

theorem score_withForecasts : (computeSignal (withForecasts board changes)).score =
    if board.dataFresh then scoreAt (distanceWith board changes) else 50 := by
  have hearlier : earlierPoints (withForecasts board changes) =
      forecastPoints changes board.roundTripCostPct +
        ((confidenceFactor board).points + (smaFactor board).points) := by
    have hconfidence : confidenceFactor (withForecasts board changes) = confidenceFactor board := rfl
    have hsma : smaFactor (withForecasts board changes) = smaFactor board := rfl
    have hforecast : forecastFactor (withForecasts board changes) = forecastFactor
      { expectedChangePct := changes, roundTripCostPct := board.roundTripCostPct } := rfl
    have hagreement : agreementFactor (withForecasts board changes) =
      agreementFactor { expectedChangePct := changes } := rfl
    rw [earlierPoints, hconfidence, hsma, hforecast, hagreement, forecastPoints]
    ring
  have htrend := trendFactor_points board (earlierPoints (withForecasts board changes))
  have hboard : trendFactor (withForecasts board changes) = trendFactor board := rfl
  have hlater : laterPoints (withForecasts board changes) = laterPoints board := rfl
  have hflow : fundFlowFactor (withForecasts board changes) = fundFlowFactor board := rfl
  have hsma : smaFactor (withForecasts board changes) = smaFactor board := rfl
  have hshare : keptShare (withForecasts board changes) = keptShare board := rfl
  have hfresh : (withForecasts board changes).dataFresh = board.dataFresh := rfl
  have hdistance : distanceWith board changes = keptShare (withForecasts board changes) *
      (earlierPoints (withForecasts board changes) + laterPoints (withForecasts board changes) +
        permissionPoints (withForecasts board changes)) := by
    rw [distanceWith, ← hearlier, ← htrend, permissionPoints, hboard, hlater, hflow, hsma, hshare]
    ring
  rw [computeSignal_score, hfresh, hdistance]

variable {board changes} {changes' : List (String × Option ℚ)} {cost : ℚ}

theorem keptShare_nonneg : 0 ≤ keptShare board := by
  rw [keptShare]
  split_ifs <;> norm_num [technicalOnlyWeight]

theorem distanceWith_mono (hmove : |trendMove board| ≤ 18)
    (h : forecastPoints changes board.roundTripCostPct ≤
      forecastPoints changes' board.roundTripCostPct) :
    distanceWith board changes ≤ distanceWith board changes' :=
  mul_le_mul_of_nonneg_left
    (add_le_add_left (aligned_mono hmove (add_le_add_left h _)) _) keptShare_nonneg

theorem signal_level (inputs : SignalInputs) : (computeSignal inputs).signal.level =
    (scoreToSignal (computeSignal inputs).score).level := by
  rw [computeSignal_signal, computeSignal_score]
  split_ifs <;> rfl

def edgeBoard (points cost : ℚ) : SignalInputs :=
  { confidence := [("1d", some (1 / 2 + (-(1 / 2) - points) / 20))], roundTripCostPct := cost }

theorem distanceWith_edgeBoard (points : ℚ) :
    distanceWith (edgeBoard points cost) changes =
      forecastPoints changes cost + (-(1 / 2) - points) := by
  have hmodel : modelBacked (edgeBoard points cost) = true := rfl
  have hmove : trendMove (edgeBoard points cost) = 0 := rfl
  have hconfidence : (confidenceFactor (edgeBoard points cost)).points = -(1 / 2) - points := by
    have hmean : meanConfidence (edgeBoard points cost) =
        1 / 2 + (-(1 / 2) - points) / 20 := by
      simp [meanConfidence, confidences, edgeBoard]
    rw [confidenceFactor, if_pos hmodel, hmean]
    dsimp only
    split_ifs <;> ring
  have hsma : (smaFactor (edgeBoard points cost)).points = 0 := rfl
  have hlater : laterPoints (edgeBoard points cost) = 0 := by
    simp [laterPoints, rsiFactor, momentumFactor, premiumFactor, regimeFactor, edgeBoard]
  have hflow : (fundFlowFactor (edgeBoard points cost)).points = 0 := rfl
  rw [distanceWith, keptShare, hmodel, if_pos rfl, one_mul, hmove, aligned_zero, hconfidence, hsma,
    hlater, hflow, add_zero, add_zero, add_zero]
  rfl

section Edges

theorem forecastWeight_pos (horizon : String) : 0 < forecastWeight horizon := by
  have hlisted : ∀ item ∈ forecastWeights, 0 < item.2 := by
    simp [forecastWeights]
  rw [forecastWeight]
  cases hfound : forecastWeights.lookup horizon with
  | none => norm_num
  | some weight =>
    obtain ⟨before, after, heq, -⟩ := lookup_eq_some_iff.mp hfound
    exact hlisted (horizon, weight) (heq ▸ mem_append_right _ mem_cons_self)

theorem edge_mono {weighted weighted' : ℚ} (h : weighted ≤ weighted') :
    edge weighted cost ≤ edge weighted' cost := by
  unfold edge
  split_ifs <;> linarith

theorem weights_pos (items : List (String × ℚ)) (hne : items ≠ []) :
    0 < (items.map (fun item ↦ forecastWeight item.1)).sum := by
  refine sum_pos _ (fun weight hweight ↦ ?_) (by simpa using hne)
  obtain ⟨item, -, rfl⟩ := mem_map.mp hweight
  exact forecastWeight_pos item.1

theorem weightedExp_raised (h : Raised changes changes') :
    ∃ weighted weighted', weightedExp { expectedChangePct := changes } = some weighted ∧
      weightedExp { expectedChangePct := changes' } = some weighted' ∧ weighted < weighted' := by
  obtain ⟨front, horizon, x, y, back, rfl, rfl, hlt⟩ := h
  have hitems : ∀ z : ℚ, horizonItems { expectedChangePct := front ++ (horizon, some z) :: back } =
      horizonItems { expectedChangePct := front } ++
        (horizon, z) :: horizonItems { expectedChangePct := back } := by
    intro z
    simp [horizonItems, filterMap_append]
  have hne : ∀ z : ℚ, horizonItems { expectedChangePct := front ++ (horizon, some z) :: back } ≠ [] :=
    fun z ↦ hitems z ▸ append_ne_nil_of_right_ne_nil _ (cons_ne_nil _ _)
  have hsome : ∀ z : ℚ, weightedExp { expectedChangePct := front ++ (horizon, some z) :: back } =
      some (((horizonItems { expectedChangePct := front ++ (horizon, some z) :: back }).map
        (fun item ↦ forecastWeight item.1 * item.2)).sum /
          ((horizonItems { expectedChangePct := front ++ (horizon, some z) :: back }).map
            (fun item ↦ forecastWeight item.1)).sum) := by
    intro z
    rw [weightedExp, if_neg (by simpa using hne z)]
  refine ⟨_, _, hsome x, hsome y, ?_⟩
  have hpos := weights_pos _ (hne x)
  have hstep := mul_lt_mul_of_pos_left hlt (forecastWeight_pos horizon)
  rw [hitems] at hpos
  rw [hitems, hitems]
  simp only [map_append, map_cons, sum_append, sum_cons] at hpos ⊢
  exact div_lt_div_of_pos_right (by linarith) hpos

theorem forecastFactor_points {weighted : ℚ}
    (h : weightedExp { expectedChangePct := changes } = some weighted) :
    (forecastFactor { expectedChangePct := changes, roundTripCostPct := cost }).points =
      clip (-25) 25 (edge weighted cost * 8) := by
  have hsame : weightedExp { expectedChangePct := changes, roundTripCostPct := cost } =
      weightedExp { expectedChangePct := changes } := rfl
  rw [forecastFactor, hsame, h]
  dsimp only
  split_ifs <;> rfl

theorem forecastPoints_lt_of_raised (h : Raised changes changes')
    (hlower : forecastPoints changes' cost < forecastPoints changes cost) :
    (agreementFactor { expectedChangePct := changes' }).points <
      (agreementFactor { expectedChangePct := changes }).points := by
  obtain ⟨weighted, weighted', hweighted, hweighted', hlt⟩ := weightedExp_raised h
  have hedge : clip (-25) 25 (edge weighted cost * 8) ≤ clip (-25) 25 (edge weighted' cost * 8) :=
    clip_mono (mul_le_mul_of_nonneg_right (edge_mono hlt.le) (by norm_num))
  rw [forecastPoints, forecastPoints, forecastFactor_points hweighted,
    forecastFactor_points hweighted'] at hlower
  linarith

end Edges

end Forecasts

section Calls

def bearishPair : List (String × Option ℚ) := [("1d", some (-(1 / 10))), ("7d", some (-(1 / 10)))]

def splitPair : List (String × Option ℚ) := [("1d", some (-(1 / 10))), ("7d", some (1 / 10))]

def confidentBoard : SignalInputs :=
  { confidence := [("1d", some (7 / 10)), ("7d", some (7 / 10))] }

def heavyBoard : SignalInputs :=
  { confidence := [("1d", some (1 / 2))], trendAlignment := some .fullBullish, trendWeight := 40 }

end Calls

end TalaPala.Signals
