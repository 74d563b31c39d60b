import TalaPala.Clock
import TalaPala.Forecast.WalkForward
import TalaPala.Library.OrderStatistics
import Mathlib.Data.List.MinMax

namespace TalaPala.Forecast

open Library

def minEdgePct : ℚ := 2 / 100

def bootstrapConf : ℚ := 9 / 10

def degenerateFoldTolerance : ℚ := 1 / 1000000000

def maxDegenerateShare : ℚ := 1 / 2

structure Fold where
  tIndex : ℕ
  tTime : Instant
  base : ℚ
  pred : ℚ
  actual : ℚ
  deriving DecidableEq

structure Walk where
  folds : List Fold
  ascending : (folds.map Fold.tIndex).Pairwise (· < ·)

structure Metrics where
  smape : ℚ
  mase : Option ℚ

structure CandidateResult where
  folds : List Fold
  metrics : Metrics
  selMetrics : Metrics
  holdoutMetrics : Option Metrics
  weights : Option (List (String × ℚ))
  selFolds : Option (List Fold)

abbrev Results := List (String × CandidateResult)

section Metrics

def Fold.smapeTerm (f : Fold) : ℚ :=
  let denom := |f.actual| + |f.pred|
  if 0 < denom then 2 * |f.actual - f.pred| / denom else 0

def foldMetrics (folds : List Fold) : Metrics :=
  let mae := mean (folds.map (fun f ↦ |f.actual - f.pred|))
  let naiveMae := mean (folds.map (fun f ↦ |f.actual - f.base|))
  ⟨mean (folds.map Fold.smapeTerm) * 100, if 0 < naiveMae then some (mae / naiveMae) else none⟩

end Metrics

section Ensemble

def foldAt (folds : List Fold) (i : ℕ) : Option Fold := folds.find? (·.tIndex = i)

def Results.foldsOf (results : Results) (name : String) : List Fold :=
  ((results.lookup name).map CandidateResult.folds).getD []

def memberSmapes (results : Results) : List (String × ℚ) :=
  match results.lookup "naive" with
  | none => []
  | some naive =>
    (results.filter (fun r ↦ decide (r.1 ≠ "naive") &&
      decide (r.2.selMetrics.smape < naive.selMetrics.smape))).map
        (fun r ↦ (r.1, r.2.selMetrics.smape))

def samePredictions (left right : List Fold) : Bool :=
  decide (left.length = right.length) &&
    (left.zip right).all (fun p ↦ |p.1.pred - p.2.pred| ≤ 1 / 1000000000000)

def keepMember (folds : String → List Fold) (kept : List (String × ℚ)) (m : String × ℚ) :
    List (String × ℚ) :=
  if kept.any (fun k ↦ samePredictions (folds k.1) (folds m.1)) then kept else kept ++ [m]

def dropDuplicateMembers (members : List (String × ℚ)) (folds : String → List Fold) :
    List (String × ℚ) :=
  (members.insertionSort (fun a b ↦ a.2 ≤ b.2)).foldl (keepMember folds) []

def members (results : Results) : List (String × ℚ) :=
  if 2 ≤ (memberSmapes results).length then
    dropDuplicateMembers (memberSmapes results) results.foldsOf
  else memberSmapes results

def inverseSmapeWeights (smapes : List (String × ℚ)) : List (String × ℚ) :=
  let raw := smapes.map (fun m ↦ (m.1, 1 / max m.2 (1 / 1000000)))
  let total := (raw.map Prod.snd).sum
  if total ≤ 0 then raw.map (fun m ↦ (m.1, 1 / max (raw.length : ℚ) 1))
  else raw.map (fun m ↦ (m.1, m.2 / total))

def combine (predictions weights : List (String × ℚ)) : ℚ :=
  let common := predictions.filterMap (fun p ↦ (weights.lookup p.1).map (p.2, ·))
  (common.map (fun p ↦ p.1 * p.2)).sum / (common.map Prod.snd).sum

def ensembleWeights (results : Results) : Option (List (String × ℚ)) :=
  if 2 ≤ (members results).length then some (inverseSmapeWeights (members results)) else none

def commonIndices (folds : String → List Fold) (weights : List (String × ℚ)) (first : String) :
    List ℕ :=
  ((folds first).map Fold.tIndex).filter (fun i ↦
    weights.all (fun m ↦ (foldAt (folds m.1) i).isSome))

def ensembleFold (folds : String → List Fold) (weights : List (String × ℚ)) (first : String)
    (i : ℕ) : Option Fold :=
  (foldAt (folds first) i).map (fun f ↦ { f with
    pred := combine (weights.map (fun m ↦
      (m.1, ((foldAt (folds m.1) i).map Fold.pred).getD 0))) weights })

def ensembleFolds (folds : String → List Fold) : List (String × ℚ) → List Fold
  | [] => []
  | weights@((first, _) :: _) =>
    (commonIndices folds weights first).filterMap (ensembleFold folds weights first)

end Ensemble

/-- What a tournament is run with besides the folds. `resample` is the bootstrap's
draw of index rows for a number of pairs. -/
structure Tournament where
  candidates : List String
  nodup : candidates.Nodup
  plain : "ensemble" ∉ candidates
  seriesLength : ℕ
  horizonSteps : ℕ
  maxFolds : ℕ
  resample : ℕ → List (List ℕ)

def Tournament.step (t : Tournament) : ℕ := foldStep t.seriesLength t.horizonSteps t.maxFolds

section Evaluate

variable (t : Tournament)

/-- The entry of a candidate: there is no key `sel_folds` in it. -/
def Tournament.entry (folds : List Fold) : CandidateResult :=
  let (sel, hold) := splitFolds folds t.horizonSteps t.step
  { folds := folds
    metrics := foldMetrics folds
    selMetrics := foldMetrics sel
    holdoutMetrics := if hold = [] then none else some (foldMetrics hold)
    weights := none
    selFolds := none }

def Tournament.candidateResults (walk : String → Walk) : Results :=
  (t.candidates.filter (fun name ↦ (walk name).folds ≠ [])).map
    (fun name ↦ (name, t.entry (walk name).folds))

def evaluateCandidates (walk : String → Walk) : Results :=
  let results := t.candidateResults walk
  match ensembleWeights results with
  | none => results
  | some weights =>
    match ensembleFolds results.foldsOf weights with
    | [] => results
    | folds => results ++ [("ensemble", { t.entry folds with weights := some weights })]

end Evaluate

section Select

def paired (candidate naive : List Fold) : List (Fold × Fold) :=
  candidate.filterMap (fun f ↦ (foldAt naive f.tIndex).map (f, ·))

def reproduces (p : Fold × Fold) : Bool :=
  |p.1.pred - p.2.pred| ≤ degenerateFoldTolerance * max 1 |p.2.pred|

def degenerateShare (candidate naive : List Fold) : ℚ :=
  let pairs := paired candidate naive
  if pairs = [] then 0 else pairs.countP reproduces / pairs.length

def bootstrapUpper (resample : ℕ → List (List ℕ)) (diffs : List ℚ) : ℚ :=
  quantile bootstrapConf ((resample diffs.length).map (fun idx ↦
    mean (idx.map (fun i ↦ diffs.getD i 0))))

def smapeDiff (p : Fold × Fold) : ℚ := p.1.smapeTerm * 100 - p.2.smapeTerm * 100

def bootstrapBeats (resample : ℕ → List (List ℕ)) (candidate baseline : List Fold) :
    Option Bool :=
  let pairs := paired candidate baseline
  if pairs.length < 8 then none
  else some (decide (bootstrapUpper resample (pairs.map smapeDiff) < 0))

inductive Rejection
  | reproducedNaive (share : ℚ)
  | thinEdge (edge : ℚ)
  | noImprovement
  | noHoldout
  | holdoutEdge (edge : ℚ)
  | mase (value : ℚ)

inductive ActivationState
  | confirmed
  | insufficientHoldout
  | rejectedMase
  | rejectedHoldout
  | rejectedInstability
  | rejectedMateriality
  | naiveNoEdge

def stateFor (reasons : List Rejection) : ActivationState :=
  if reasons.any (· matches .noHoldout) then .insufficientHoldout
  else if reasons.any (· matches .mase _) then .rejectedMase
  else if reasons.any (· matches .holdoutEdge _) then .rejectedHoldout
  else if reasons.any (· matches .noImprovement | .reproducedNaive _) then .rejectedInstability
  else if reasons.any (· matches .thinEdge _) then .rejectedMateriality
  else .naiveNoEdge

/-- `r.get("sel_folds") or r.get("folds", [])`. -/
def CandidateResult.gateFolds (r : CandidateResult) : List Fold :=
  match r.selFolds with
  | some (f :: folds) => f :: folds
  | _ => r.folds

def exerciseGate (best naive : CandidateResult) : Option Rejection :=
  let share := degenerateShare best.gateFolds naive.gateFolds
  if maxDegenerateShare < share then some (.reproducedNaive share) else none

def edgeGate (best naive : CandidateResult) : Option Rejection :=
  let edge := (naive.selMetrics.smape - best.selMetrics.smape) / naive.selMetrics.smape
  if 0 < naive.selMetrics.smape ∧ edge < minEdgePct then some (.thinEdge edge) else none

def bootstrapGate (resample : ℕ → List (List ℕ)) (best naive : CandidateResult) :
    Option Rejection :=
  if bootstrapBeats resample best.gateFolds naive.gateFolds = some false then some .noImprovement
  else none

def holdoutGate (best naive : CandidateResult) : Option Rejection :=
  match best.holdoutMetrics, naive.holdoutMetrics with
  | some winnerHold, some naiveHold =>
    let edge := if 0 < naiveHold.smape then
      (naiveHold.smape - winnerHold.smape) / naiveHold.smape else 0
    if edge < minEdgePct then some (.holdoutEdge edge) else none
  | _, _ => some .noHoldout

def maseGate (best : CandidateResult) : Option Rejection :=
  match best.holdoutMetrics.bind Metrics.mase with
  | some value => if 1 ≤ value then some (.mase value) else none
  | none => none

/-- The entry with the least selection sMAPE below naive's, the first of equals;
`none` when naive stands. -/
def rank (results : Results) (naiveSel : ℚ) : Option (String × CandidateResult) :=
  results.foldl (fun best r ↦
    let bestSmape := best.elim naiveSel (·.2.selMetrics.smape)
    if r.1 ≠ "naive" ∧ r.2.selMetrics.smape < bestSmape ∧ r.2.selMetrics.smape < naiveSel then
      some r
    else best) none

structure Selection where
  winner : String
  rejections : List Rejection
  state : Option ActivationState

def selectWinner (resample : ℕ → List (List ℕ)) (results : Results) : Selection :=
  match results.lookup "naive" with
  | none => ⟨((results.argmin (·.2.selMetrics.smape)).map Prod.fst).getD "", [], none⟩
  | some naive =>
    match rank results naive.selMetrics.smape with
    | none => ⟨"naive", [], none⟩
    | some (name, best) =>
      let reasons := [exerciseGate best naive, edgeGate best naive,
        bootstrapGate resample best naive, holdoutGate best naive, maseGate best].reduceOption
      if reasons = [] then ⟨name, [], some .confirmed⟩
      else ⟨"naive", reasons, some (stateFor reasons)⟩

end Select

end TalaPala.Forecast
