import TalaPala.Forecast.Intervals
import TalaPala.Library.Rounding
import TalaPala.Trend.Resample

namespace TalaPala.Signals

open Forecast Library Trend

inductive Signal
  | strongSell
  | sell
  | hold
  | buy
  | strongBuy
  deriving DecidableEq

/-- The five answers of `detect_regime`. -/
inductive Regime
  | trendingUp
  | trendingDown
  | ranging
  | highVolatility
  | unknown
  deriving DecidableEq

def technicalOnlyConfidence : ℚ := 3 / 10
def staleConfidenceMultiplier : ℚ := 3 / 10
def technicalOnlyWeight : ℚ := 1 / 2
def defaultRoundTripCostPct : ℚ := 2 * (1 / 2) + 1 + 2 * (1 / 10)

def forecastWeights : List (String × ℚ) :=
  [("1h", 1 / 2), ("4h", 3 / 4), ("eod", 1), ("1d", 1), ("3d", 4 / 5), ("7d", 3 / 5),
    ("30d", 2 / 5)]

structure SignalInputs where
  symbol : Option String := none
  expectedChangePct : List (String × Option ℚ) := []
  confidence : List (String × Option ℚ) := []
  lastPrice : Option ℚ := none
  sma20 : Option ℚ := none
  sma50 : Option ℚ := none
  rsi14 : Option ℚ := none
  momentum10Pct : Option ℚ := none
  premiumZ : Option ℚ := none
  regime : Regime := .unknown
  dataFresh : Bool := true
  marketClosed : Bool := false
  roundTripCostPct : ℚ := defaultRoundTripCostPct
  trendAlignment : Option Trend.Alignment := none
  trendStates : List (Timeframe × TrendState) := []
  trendAlignmentAgeDays : Option ℚ := none
  trendWeight : ℚ := 0
  fundFlowZ : Option ℚ := none
  marketRisk : String :=
    "Iranian gold prices are exposed to currency policy shocks and liquidity gaps."

inductive Note
  | forecastAbove (weighted cost : ℚ)
  | forecastBelow (weighted cost : ℚ)
  | forecastNotPositive (weighted : ℚ)
  | confident (mean : ℚ)
  | lowConfidence (mean : ℚ)
  | noForecast
  | horizonsAgree
  | horizonsDisagree
  | aboveBothAverages
  | aboveSma20
  | belowBothAverages
  | belowSma20
  | stacked (alignment : Trend.Alignment) (held : Option ℚ) (confirmsSma : Bool)
  | timeframesContradict (states : List (Timeframe × TrendState))
  | oversold (rsi : ℚ)
  | overbought (rsi : ℚ)
  | positiveMomentum (pct : ℚ)
  | negativeMomentum (pct : ℚ)
  | richPremium (z : ℚ)
  | cheapPremium (z : ℚ)
  | highVolatility
  | retailBuying (z : ℚ)

inductive Risk
  | estimates
  | market (sentence : String)
  | technicalOnly
  | timeframesDisagree
  | premiumMeanReverts
  | topDecileVolatility
  | crowdedRetail
  | stale
  | lastSession

structure Factor where
  points : ℚ := 0
  supporting : List Note := []
  conflicting : List Note := []
  risks : List Risk := []

/-- `np.clip`. -/
def clip {α : Type*} [LinearOrder α] (low high x : α) : α := min (max x low) high

def signalBands : List (Signal × ℤ × ℤ) :=
  [(.strongSell, 0, 25), (.sell, 26, 40), (.hold, 41, 59), (.buy, 60, 74), (.strongBuy, 75, 100)]

def scoreToSignal (score : ℤ) : Signal :=
  if 75 ≤ score then .strongBuy
  else if 60 ≤ score then .buy
  else if score ≤ 25 then .strongSell
  else if score ≤ 40 then .sell
  else .hold

def holdWithinBand (before after : ℚ) : ℚ :=
  let band := scoreToSignal (clip 0 100 (halfEven before))
  match signalBands.find? (fun b ↦ b.1 = band) with
  | none => after
  | some (_, low, high) => if before < after then min after high else max after low

section Factors

variable (inputs : SignalInputs)

def horizonItems : List (String × ℚ) :=
  inputs.expectedChangePct.filterMap (fun item ↦ item.2.map (fun chg ↦ (item.1, chg)))

def forecastWeight (horizon : String) : ℚ := (forecastWeights.lookup horizon).getD (1 / 2)

def weightedExp : Option ℚ :=
  let items := horizonItems inputs
  if items.isEmpty then none
  else some ((items.map (fun item ↦ forecastWeight item.1 * item.2)).sum /
    (items.map (fun item ↦ forecastWeight item.1)).sum)

def edge (weighted cost : ℚ) : ℚ :=
  if cost < weighted then weighted - cost
  else if weighted < -cost then weighted + cost
  else 0

def forecastFactor : Factor :=
  match weightedExp inputs with
  | none => {}
  | some weighted =>
    let cost := inputs.roundTripCostPct
    let points := clip (-25) 25 (edge weighted cost * 8)
    if cost < weighted then
      { points, supporting := [.forecastAbove weighted cost] }
    else if 0 < weighted then
      { points, conflicting := [.forecastBelow weighted cost] }
    else { points, conflicting := [.forecastNotPositive weighted] }

def confidences : List ℚ := inputs.confidence.filterMap Prod.snd

def modelBacked : Bool := !(confidences inputs).isEmpty

def meanConfidence : ℚ := (confidences inputs).sum / (confidences inputs).length

def confidenceFactor : Factor :=
  if modelBacked inputs then
    let mean := meanConfidence inputs
    let points := (mean - 1 / 2) * 20
    if 3 / 5 ≤ mean then { points, supporting := [.confident mean] }
    else if mean < 9 / 20 then { points, conflicting := [.lowConfidence mean] }
    else { points }
  else { conflicting := [.noForecast], risks := [.technicalOnly] }

def agreementFactor : Factor :=
  let items := horizonItems inputs
  let signs : List ℚ := (items.filter (fun item ↦ item.2 ≠ 0)).map
    (fun item ↦ if 0 < item.2 then 1 else -1)
  if 2 ≤ items.length ∧ signs ≠ [] then
    let agreement := |signs.sum| / signs.length
    let points := (agreement - 1 / 2) * 12
    if 3 / 4 ≤ agreement then { points, supporting := [.horizonsAgree] }
    else if agreement < 1 / 2 then { points, conflicting := [.horizonsDisagree] }
    else { points }
  else {}

def truthy (figure : Option ℚ) : Option ℚ := figure.filter (· ≠ 0)

def smaFactor : Factor :=
  match truthy inputs.lastPrice, truthy inputs.sma20, truthy inputs.sma50 with
  | some price, some sma20, some sma50 =>
    if sma20 < price ∧ sma50 < sma20 then { points := 12, supporting := [.aboveBothAverages] }
    else if sma20 < price then { points := 6, supporting := [.aboveSma20] }
    else if price < sma20 ∧ sma20 < sma50 then
      { points := -12, conflicting := [.belowBothAverages] }
    else if price < sma20 then { points := -6, conflicting := [.belowSma20] }
    else {}
  | _, _, _ => {}

def alignmentPoints (direction weight sma score : ℚ) : ℚ :=
  let contribution := direction * weight * (if 0 < sma * direction then 1 / 2 else 1)
  let proposed := score + contribution
  if |score - 50| < |proposed - 50| then holdWithinBand score proposed - score
  else proposed - score

def trendFactor (sma score : ℚ) : Factor :=
  match inputs.trendAlignment with
  | some .fullBullish =>
    if 0 < inputs.trendWeight then
      { points := alignmentPoints 1 inputs.trendWeight sma score
        supporting := [.stacked .fullBullish inputs.trendAlignmentAgeDays (0 < sma)] }
    else {}
  | some .fullBearish =>
    if 0 < inputs.trendWeight then
      { points := alignmentPoints (-1) inputs.trendWeight sma score
        conflicting := [.stacked .fullBearish inputs.trendAlignmentAgeDays (sma < 0)] }
    else {}
  | some .notAligned =>
    let states := inputs.trendStates.map Prod.snd
    if .bullish ∈ states ∧ .bearish ∈ states then
      { conflicting := [.timeframesContradict inputs.trendStates]
        risks := [.timeframesDisagree] }
    else {}
  | none => {}

def rsiFactor : Factor :=
  match inputs.rsi14 with
  | none => {}
  | some rsi =>
    if rsi ≤ 30 then { points := 8, supporting := [.oversold rsi] }
    else if 70 ≤ rsi then { points := -8, conflicting := [.overbought rsi] }
    else {}

def momentumFactor : Factor :=
  match inputs.momentum10Pct with
  | none => {}
  | some pct =>
    let points := clip (-8) 8 (pct * 2)
    if 1 < pct then { points, supporting := [.positiveMomentum pct] }
    else if pct < -1 then { points, conflicting := [.negativeMomentum pct] }
    else { points }

def premiumFactor : Factor :=
  match inputs.premiumZ with
  | none => {}
  | some z =>
    if 0 < z then
      { points := -min 10 (z * 4)
        conflicting := if 1 < z then [.richPremium z] else []
        risks := if 1 < z then [.premiumMeanReverts] else [] }
    else
      { points := min 6 (-z * 3)
        supporting := if z < -1 then [.cheapPremium z] else [] }

def regimeFactor : Factor :=
  if inputs.regime = .highVolatility then
    { points := -5, conflicting := [.highVolatility], risks := [.topDecileVolatility] }
  else {}

def fundFlowFactor : Factor :=
  match inputs.fundFlowZ with
  | none => {}
  | some z =>
    if 1 < z then
      { points := -min 4 ((z - 1) * 4), conflicting := [.retailBuying z]
        risks := [.crowdedRetail] }
    else {}

end Factors

inductive ConfidenceBasis
  | modelMean (count : ℕ) (discounted : Bool)
  | assumed

inductive Invalidation
  | stale
  | closesBelow (sma20 : ℚ)
  | closesAbove (sma20 : ℚ)

inductive Headline
  | conditions (signal : Signal) (score : ℤ)
  | stale

/-- A row of `signals`, its sentences as data. -/
structure SignalRow where
  symbol : Option String
  signal : Signal
  score : ℤ
  confidence : ℚ
  headline : Headline
  weightedMove : Option ℚ
  supporting : List Note
  conflicting : List Note
  risks : List Risk
  invalidation : Invalidation
  dataFresh : Bool
  evidenceModelBacked : Bool
  confidenceBasis : ConfidenceBasis
  modelConfidence : Option ℚ
  technicalOnlyPoints : ℚ
  fundFlowPoints : ℚ
  trendAlignmentPoints : ℚ

def invalidationOf (inputs : SignalInputs) (score : ℤ) : Invalidation :=
  match truthy inputs.sma20, truthy inputs.lastPrice with
  | some sma20, some _ =>
    if 60 ≤ score then .closesBelow sma20
    else if score ≤ 40 then .closesAbove sma20
    else .stale
  | _, _ => .stale

def computeSignal (inputs : SignalInputs) : SignalRow :=
  let forecast := forecastFactor inputs
  let model := confidenceFactor inputs
  let agreement := agreementFactor inputs
  let sma := smaFactor inputs
  let before := 50 + forecast.points + model.points + agreement.points + sma.points
  let trend := trendFactor inputs sma.points before
  let rsi := rsiFactor inputs
  let momentum := momentumFactor inputs
  let premium := premiumFactor inputs
  let regime := regimeFactor inputs
  let fundFlow := fundFlowFactor inputs
  let counted := before + trend.points + rsi.points + momentum.points + premium.points +
    regime.points + fundFlow.points
  let score :=
    if modelBacked inputs then counted else 50 + (counted - 50) * technicalOnlyWeight
  let finalScore := if inputs.dataFresh then clip 0 100 (halfEven score) else 50
  let signal := if inputs.dataFresh then scoreToSignal finalScore else .hold
  let confidence :=
    (if modelBacked inputs then meanConfidence inputs else technicalOnlyConfidence) *
      (if inputs.dataFresh then 1 else staleConfidenceMultiplier)
  let factors := [forecast, model, agreement, sma, trend, rsi, momentum, premium, regime, fundFlow]
  { symbol := inputs.symbol
    signal
    score := finalScore
    confidence := roundTo 3 (clip (1 / 20) (19 / 20) confidence)
    headline := if inputs.dataFresh then .conditions signal finalScore else .stale
    weightedMove := if inputs.dataFresh then weightedExp inputs else none
    supporting := factors.flatMap Factor.supporting
    conflicting := factors.flatMap Factor.conflicting
    risks := (if inputs.dataFresh then [] else [.stale]) ++
      [.estimates, .market inputs.marketRisk] ++ factors.flatMap Factor.risks ++
      (if inputs.dataFresh ∧ inputs.marketClosed then [.lastSession] else [])
    invalidation := invalidationOf inputs finalScore
    dataFresh := inputs.dataFresh
    evidenceModelBacked := modelBacked inputs
    confidenceBasis :=
      if modelBacked inputs then .modelMean (confidences inputs).length (!inputs.dataFresh)
      else .assumed
    modelConfidence := if modelBacked inputs then some (roundTo 4 (meanConfidence inputs)) else none
    technicalOnlyPoints := roundTo 2 (score - counted)
    fundFlowPoints := roundTo 2 fundFlow.points
    trendAlignmentPoints := roundTo 2 trend.points }

end TalaPala.Signals
