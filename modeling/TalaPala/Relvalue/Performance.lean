import TalaPala.Relvalue.Statistics

namespace TalaPala.Relvalue

inductive Numeraire
  | irt
  | usd
  | gold
  deriving DecidableEq

def usdSeriesCode : String := "USD_IRT"

def goldSeriesCode : String := "IR_GOLD_18K"

namespace Numeraire

/-- The series whose close is one unit, or `""` for the hub. -/
def series : Numeraire → String
  | irt => ""
  | usd => usdSeriesCode
  | gold => goldSeriesCode

def unit : Numeraire → String
  | irt => "toman"
  | usd => "USD"
  | gold => "grams of 18k gold"

end Numeraire

inductive QuoteCurrency
  | irt
  | usd
  | other (code : String)

/-- The chain that carries a quote into a numeraire, through toman. What is no
price in a currency has none. -/
def conversionSteps : QuoteCurrency → Numeraire → Option (List ConvStep)
  | .irt, .irt => some []
  | .irt, .usd => some [⟨usdSeriesCode, .divide⟩]
  | .irt, .gold => some [⟨goldSeriesCode, .divide⟩]
  | .usd, .irt => some [⟨usdSeriesCode, .multiply⟩]
  | .usd, .usd => some []
  | .usd, .gold => some [⟨usdSeriesCode, .multiply⟩, ⟨goldSeriesCode, .divide⟩]
  | .other _, _ => none

structure Instrument where
  code : String
  quoteCurrency : QuoteCurrency
  notes : String
  derivedFrom : String

def identityNumeraire (inst : Instrument) (key : Numeraire) : Bool :=
  key.series ≠ "" && key.series = inst.code

def derivedNumeraire (inst : Instrument) (key : Numeraire) : Bool :=
  key.series ≠ "" && inst.derivedFrom = key.series

inductive Note
  | registry (notes : String)
  | unpriceable (unit : String) (quoteCurrency : QuoteCurrency)
  | noObservation
  | outsideWindow (first last : Date)
  | missingSeries (key : Numeraire) (series : String)
  | allDropped (days : ℕ) (key : Numeraire) (chain : List String)
  | noPriorQuote (dropped days : ℕ) (chain : List String)
  | nonPositiveQuote (dropped : ℕ)
  | carriedForward (carried days : ℕ) (chain : List String)
  | identity (code unit : String)
  | derived (code derivedFrom unit : String)
  | drawdown (note : DrawdownNote)
  | noVolatility
  | volatilityOverGaps (gaps steps : ℕ)
  | volatilityPerDay
  | noIdentityReturn (key : Numeraire) (code : String)
  | noDerivedReturn (key : Numeraire) (code : String)
  | noCurrencyReturn (key : Numeraire) (quoteCurrency : QuoteCurrency)
  | noSeriesReturn (key : Numeraire) (series : String)
  | noReturn (key : Numeraire) (survived dropped : ℕ)
  | crossWindow (key : Numeraire) (start stop : Date) (observations : ℕ)
      (nominalStart nominalStop : Date) (nominalObservations : ℕ) (chain : List String)
  | cpiError (message : String)
  | noRealIdentity
  | noRealDerived
  | real (note : RealNote)
  | foreignDeflator (key : Numeraire)

structure NumeraireLeg where
  pct : Option ℚ := none
  start : Option Date := none
  stop : Option Date := none
  observations : ℕ := 0
  chain : List String := []
  note : Option Note := none

def stepSeriesNames (steps : List ConvStep) : List String := steps.map ConvStep.series

def numeraireReturn (windowed : DailySeries) (inst : Instrument) (key : Numeraire)
    (sources : Sources) : NumeraireLeg :=
  if identityNumeraire inst key then { note := some (.noIdentityReturn key inst.code) }
  else if derivedNumeraire inst key then { note := some (.noDerivedReturn key inst.code) }
  else
    match conversionSteps inst.quoteCurrency key with
    | none => { note := some (.noCurrencyReturn key inst.quoteCurrency) }
    | some steps =>
      let conv := convertSeries windowed steps sources
      let leg : NumeraireLeg := { chain := stepSeriesNames steps }
      if conv.missingSeries ≠ "" then
        { leg with note := some (.noSeriesReturn key conv.missingSeries) }
      else
        match totalReturnPct conv.points with
        | none =>
          { leg with
            note := some (.noReturn key conv.points.points.length conv.noPriorQuote) }
        | some r =>
          { leg with
            pct := some r
            start := conv.points.first.map DailyPoint.day
            stop := conv.points.last.map DailyPoint.day
            observations := conv.points.points.length }

def crossWindowNote (key : Numeraire) (leg : NumeraireLeg) (nominalStart nominalStop : Date)
    (nominalObs : ℕ) : Option Note :=
  match leg.pct, leg.start, leg.stop with
  | some _, some start, some stop =>
    if start = nominalStart ∧ stop = nominalStop ∧ leg.observations = nominalObs then none
    else
      some (.crossWindow key start stop leg.observations nominalStart nominalStop nominalObs
        leg.chain)
  | _, _, _ => none

def legNote (key : Numeraire) (leg : NumeraireLeg) (start stop : DailyPoint) (obs : ℕ) :
    List Note :=
  match leg.note with
  | some note => [note]
  | none => (crossWindowNote key leg start.day stop.day obs).toList

structure Measures where
  nominalReturnPct : Option ℚ := none
  maxDrawdownPct : Option ℚ := none
  drawdownPeak : Option Date := none
  drawdownTrough : Option Date := none
  drawdownRecovered : Option Date := none
  drawdownRecoveryDays : Option ℤ := none
  underwaterDays : Option ℤ := none
  stillUnderwater : Bool := false
  currentDrawdownPct : Option ℚ := none
  observationVolatilityPct : Option ℚ := none

def Measures.withheld : Measures := {}

structure RealFigures where
  realReturnPct : Option ℚ := none
  realReturnFrom : Option Date := none
  realReturnTo : Option Date := none
  realReturnDeflator : Option String := none

def RealFigures.withheld : RealFigures := {}

structure PerformanceItem extends Measures, RealFigures where
  ref : Instrument
  startValue : Option ℚ := none
  endValue : Option ℚ := none
  usdReturnPct : Option ℚ := none
  usdReturnFrom : Option Date := none
  usdReturnTo : Option Date := none
  usdReturnObservations : ℕ := 0
  goldReturnPct : Option ℚ := none
  goldReturnFrom : Option Date := none
  goldReturnTo : Option Date := none
  goldReturnObservations : ℕ := 0
  observations : ℕ := 0
  coverageFrom : Option Date := none
  coverageTo : Option Date := none
  notes : List Note

structure PerformanceInputs where
  window : Window
  numeraire : Numeraire
  series : Sources
  cpi : List CpiYear
  cpiMonthly : List CpiMonth
  cpiProvenance : Bool
  cpiError : String

/-- The monthly deflator first, then the annual one, and never both in one
figure. -/
def PerformanceInputs.deflate (inputs : PerformanceInputs) (pts : DailySeries)
    (start stop : Date) : RealReturnResult × String :=
  let monthly := realReturnMonthly pts inputs.cpiMonthly start stop
  if monthly.pct.isSome then (monthly, sciCPISeriesCode)
  else
    let annual := realReturn pts inputs.cpi start stop
    if annual.pct.isSome then
      ({ annual with note := .annualInstead monthly.note annual.note }, cpiSeriesCode)
    else ({ monthly with note := .bothDeclined monthly.note annual.note }, "")

def conversionNotes (conv : Conversion) (days : ℕ) (chain : List String) : List Note :=
  (if 0 < conv.noPriorQuote then [.noPriorQuote conv.noPriorQuote days chain] else []) ++
  (if 0 < conv.nonPositiveQuote then [.nonPositiveQuote conv.nonPositiveQuote] else []) ++
  (if 0 < conv.carriedForward then
    [.carriedForward conv.carriedForward conv.points.points.length chain] else [])

section Row

variable (log sqrt : ℚ → ℚ)

def measured (pts : DailySeries) : Measures × List Note :=
  let dd := computeDrawdown pts
  let volatility := observationVolatilityPct log sqrt pts
  let gaps := nonAdjacentSteps pts.points
  ({ nominalReturnPct := totalReturnPct pts
     maxDrawdownPct := dd.maxPct
     drawdownPeak := dd.peakDate
     drawdownTrough := dd.troughDate
     drawdownRecovered := dd.recoveredDate
     drawdownRecoveryDays := dd.recoveryDays
     underwaterDays := dd.underwaterDays
     stillUnderwater := dd.stillUnderwater
     currentDrawdownPct := dd.currentPct
     observationVolatilityPct := volatility }, [.drawdown dd.note,
    if volatility.isNone then .noVolatility
    else if 0 < gaps then .volatilityOverGaps gaps (pts.points.length - 1)
    else .volatilityPerDay])

/-- What is constant by definition, or at its source, is measured as nothing. -/
def measures (inst : Instrument) (key : Numeraire) (pts : DailySeries) : Measures × List Note :=
  if identityNumeraire inst key then (.withheld, [.identity inst.code key.unit])
  else if derivedNumeraire inst key then
    (.withheld, [.derived inst.code inst.derivedFrom key.unit])
  else measured log sqrt pts

def realFigures (inst : Instrument) (inputs : PerformanceInputs) (pts : DailySeries)
    (start : DailyPoint) : RealFigures × List Note :=
  if !inputs.cpiProvenance then
    (.withheld, if inputs.cpiError = "" then [] else [.cpiError inputs.cpiError])
  else if identityNumeraire inst inputs.numeraire then (.withheld, [.noRealIdentity])
  else if derivedNumeraire inst inputs.numeraire then (.withheld, [.noRealDerived])
  else
    let (rr, deflator) := inputs.deflate pts
      (inputs.window.start.elim start.day floorDay) (floorDay inputs.window.stop)
    ({ realReturnPct := rr.pct
       realReturnFrom := rr.start
       realReturnTo := rr.stop
       realReturnDeflator := rr.pct.map (fun _ ↦ deflator) },
     .real rr.note :: if rr.pct.isSome ∧ inputs.numeraire ≠ .irt then
       [.foreignDeflator inputs.numeraire] else [])

def pricedItem (inst : Instrument) (inputs : PerformanceInputs) (windowed : DailySeries)
    (steps : List ConvStep) (start stop : DailyPoint) : PerformanceItem :=
  let conv := convertSeries windowed steps inputs.series
  let obs := conv.points.points.length
  let (figures, notes) := measures log sqrt inst inputs.numeraire conv.points
  let usd := numeraireReturn windowed inst .usd inputs.series
  let gold := numeraireReturn windowed inst .gold inputs.series
  let (real, realNotes) := realFigures inst inputs conv.points start
  { toMeasures := figures
    toRealFigures := real
    ref := inst
    startValue := some start.close
    endValue := some stop.close
    usdReturnPct := usd.pct
    usdReturnFrom := usd.start
    usdReturnTo := usd.stop
    usdReturnObservations := usd.observations
    goldReturnPct := gold.pct
    goldReturnFrom := gold.start
    goldReturnTo := gold.stop
    goldReturnObservations := gold.observations
    observations := obs
    coverageFrom := some start.day
    coverageTo := some stop.day
    notes :=
      conversionNotes conv windowed.points.length (stepSeriesNames steps) ++ notes ++
        legNote .usd usd start stop obs ++ legNote .gold gold start stop obs ++ realNotes }

def PerformanceItem.blank (inst : Instrument) (notes : List Note) : PerformanceItem where
  ref := inst
  notes := notes

def buildPerformanceItem (inst : Instrument) (inputs : PerformanceInputs) : PerformanceItem :=
  let registry : List Note := if inst.notes = "" then [] else [.registry inst.notes]
  match conversionSteps inst.quoteCurrency inputs.numeraire with
  | none => .blank inst (registry ++ [.unpriceable inputs.numeraire.unit inst.quoteCurrency])
  | some steps =>
    let raw := inputs.series.series inst.code
    match raw.first, raw.last with
    | some first, some last =>
      let windowed := raw.slice inputs.window
      if windowed.points.isEmpty then
        .blank inst (registry ++ [.outsideWindow first.day last.day])
      else
        let conv := convertSeries windowed steps inputs.series
        if conv.missingSeries ≠ "" then
          .blank inst (registry ++ [.missingSeries inputs.numeraire conv.missingSeries])
        else
          match conv.points.first, conv.points.last with
          | some start, some stop =>
            let item := pricedItem log sqrt inst inputs windowed steps start stop
            { item with notes := registry ++ item.notes }
          | _, _ =>
            .blank inst (registry ++
              [.allDropped windowed.points.length inputs.numeraire (stepSeriesNames steps)])
    | _, _ => .blank inst (registry ++ [.noObservation])

end Row

end TalaPala.Relvalue
