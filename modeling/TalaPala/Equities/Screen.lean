import TalaPala.Equities.TomanConversion
import TalaPala.Library.Latest
import Mathlib.Data.String.Basic

namespace TalaPala.Equities.Screen

open Library
open Relvalue (Numeraire)

section Figures

abbrev Figure := {v : Float // v.isNaN = false}

theorem isFinite_of_finite {v : Float} (h : ¬notFinite v = true) : v.isFinite = true := by
  rw [notFinite, Bool.or_eq_true, not_or] at h
  obtain ⟨hnan, hinf⟩ := h
  change ¬v.toModel.unpack.isNaN = true at hnan
  change ¬v.toModel.unpack.isInf = true at hinf
  change v.toModel.unpack.isFinite = true
  cases hv : v.toModel.unpack with
  | notANumber => exact absurd (by rw [hv]; rfl) hnan
  | infinity s => exact absurd (by rw [hv]; rfl) hinf
  | _ => rfl

def million : Float := 1000000

theorem isNaN_sixDecimals {v : Float} (h : v.isFinite = true) :
    (roundHalfAway (v * million) / million).isNaN = false :=
  isNaN_div (isNaN_roundHalfAway (isNaN_mul h (by decide +kernel))) (by decide +kernel)
    (by decide +kernel)

/-- Six decimals; none for a value that is no finite number. -/
def fp (v : Float) : Option Figure :=
  if h : notFinite v then none
  else some ⟨roundHalfAway (v * million) / million, isNaN_sixDecimals (isFinite_of_finite h)⟩

def figureOfInt (n : ℤ) : Figure := ⟨floatOfInt n, isNaN_floatOfInt n⟩

def strPtr (s : String) : Option String := if s = "" then none else some s

end Figures

section Rows

structure StockRow where
  insCode : String
  symbolFA : String
  nameFA : String
  market : String
  board : String
  sectorCode : String
  sectorFA : String
  firstBar : Option Date
  lastBar : Option Date
  barCount : ℤ
  enabled : Bool
  notes : String
  adjustmentVersion : Option String
  adjustmentStatus : Option String
  actionsApplied : Option ℤ
  reopenings : Option ℤ
  preListingBars : Option ℤ
  worstReturn : Option Float
  refusalReason : Option String
  computedAt : Option Instant
  adjustedFirstBar : Option Date
  staleActions : ℤ

structure AdjustmentItem where
  version : String
  status : String
  actionsApplied : ℤ
  reopenings : ℤ
  worstReturn : Option Float
  preListingBars : ℤ
  adjustedFirstBar : String
  refusalReason : String
  computedAt : String
  servable : Bool

def statusValidated : String := "validated"

def statusNeverIngested : String := "never_ingested"

def statusOutOfDate : String := "out_of_date"

def outOfDateReason (staleActions : ℤ) : String :=
  toString staleActions ++ " stored corporate action(s) were measured across a session stored " ++
    "after they were detected, so the adjustment no longer describes the stored bars; it " ++
    "is recomputed by the next ingest"

variable (layout : Layout)

def formatDate (d : Option Date) : String := (d.map layout.date).getD ""

def buildAdjustment (row : StockRow) : AdjustmentItem :=
  match row.adjustmentStatus with
  | none => ⟨"", statusNeverIngested, 0, 0, none, 0, "", "", "", false⟩
  | some status =>
    let stale := 0 < row.staleActions
    let reason := if stale then outOfDateReason row.staleActions else ""
    { version := row.adjustmentVersion.getD ""
      status := if stale then statusOutOfDate else status
      actionsApplied := row.actionsApplied.getD 0
      reopenings := row.reopenings.getD 0
      worstReturn := row.worstReturn
      preListingBars := row.preListingBars.getD 0
      adjustedFirstBar := formatDate layout row.adjustedFirstBar
      refusalReason := if reason = "" then row.refusalReason.getD "" else reason
      computedAt := (row.computedAt.map layout.stamp).getD ""
      servable := !stale && decide (status = statusValidated) }

structure ExcludedItem where
  symbol : String
  insCode : String
  nameFA : String
  sectorCode : String
  sectorFA : String
  reasonCode : String
  reason : String
  enabled : Bool
  barCount : ℤ
  notes : String
  adjustment : AdjustmentItem

def reasonDisabled : String := "disabled"

def reasonRefused : String := "adjustment_refused"

def reasonNeverIngested : String := "adjustment_never_ingested"

def reasonNoBars : String := "no_bars"

def reasonNoValidVerdict : String := "adjustment_unavailable"

def excluded (r : StockRow) (adj : AdjustmentItem) (reasonCode reason : String) : ExcludedItem :=
  ⟨r.symbolFA, r.insCode, r.nameFA, r.sectorCode, r.sectorFA, reasonCode, reason, r.enabled,
    r.barCount, r.notes, adj⟩

/-- Why an instrument cannot be screened, or none if it can. -/
def screenable (r : StockRow) : Option ExcludedItem :=
  let adj := buildAdjustment layout r
  let because := if adj.refusalReason = "" then "" else " " ++ adj.refusalReason
  if !r.enabled then
    some (excluded r adj reasonDisabled
      (r.symbolFA ++ " is disabled in the roster, so it is not screened. The instrument's own " ++
        "`notes` record the measurement behind that decision." ++
        (if adj.status ≠ "" && adj.status ≠ statusValidated then
          " Its adjustment verdict is " ++ layout.quoted adj.status ++ "." else "") ++ because))
  else if r.barCount = 0 then
    some (excluded r adj reasonNoBars
      (r.symbolFA ++ " is enabled but carries no stored bar, so there is nothing to measure. " ++
        "\"Registered but never collected\" is a real state and is reported as one " ++
        "rather than as an absence."))
  else if adj.status = statusNeverIngested then
    some (excluded r adj reasonNeverIngested
      ("no corporate-action adjustment has ever been computed for " ++ r.symbolFA ++
        ", and every return " ++
        "in this table is computed from adjusted closes. Raw Tehran closes would rank " ++
        "this instrument by how recently it did a capital increase, so it is excluded " ++
        "rather than ranked wrongly."))
  else if !adj.servable then
    some (excluded r adj (if adj.status = "" then reasonNoValidVerdict else reasonRefused)
      ("the adjustment validation gate refused " ++ r.symbolFA ++ " (status " ++
        layout.quoted adj.status ++ "), and this table computes " ++
        "every return from adjusted closes. A missed corporate action corrupts every " ++
        "return drawn from the series, not only the day it landed on." ++ because))
  else none

end Rows

section Statistics

structure ScreenBarRow where
  insCode : String
  tradeDate : Date
  finalClose : Float
  volume : ℤ
  tradeCount : ℤ
  value : Float
  factor : Float

def ScreenBarRow.traded (b : ScreenBarRow) : Bool := 0 < b.volume || 0 < b.tradeCount

def ScreenBarRow.adjustedClose (b : ScreenBarRow) : Float := b.finalClose * b.factor

def sessionReturns (points : List Point) : List Float :=
  ((points.zip points.tail).filter (fun p ↦ !decide (p.1.value ≤ 0))).filterMap (fun p ↦
    let r := p.2.value / p.1.value - 1
    if notFinite r then none else some r)

def totalReturn (start stop : Float) : Float := (stop / start - 1) * 100

def sum (values : List Float) : Float := values.foldl (· + ·) 0

def sampleDeviation (rets : List Float) : Float :=
  let mean := sum rets / floatOfInt rets.length
  let ss := sum (rets.map (fun r ↦ (r - mean) * (r - mean)))
  (ss / floatOfInt (rets.length - 1)).sqrt * 100

def minusInfinity : Float := -1 / 0

def drawdownStep (state : Float × Float) (p : Point) : Float × Float :=
  let peak := if state.1 < p.value then p.value else state.1
  if peak ≤ 0 then (peak, state.2)
  else
    let d := (p.value / peak - 1) * 100
    (peak, if d < state.2 then d else state.2)

def drawdownOf (points : List Point) : Float × Float := points.foldl drawdownStep (minusInfinity, 0)

variable (layout : Layout)

def coversReason (figure : String) (n : ℕ) : String :=
  figure ++ ", and this window covers " ++ toString n ++ " session(s) of " ++ "this instrument"

def screenReturnPct (points : List Point) : Option Figure × String :=
  match points.head?, points.getLast? with
  | some first, some last =>
    if points.length < 2 then
      (none, coversReason "a return needs a start and an end" points.length)
    else if first.value ≤ 0 then
      (none, "the first covered session (" ++ layout.date first.day ++
        ") has a non-positive value, so there is no base to " ++ "measure a return from")
    else (fp (totalReturn first.value last.value), "")
  | _, _ => (none, coversReason "a return needs a start and an end" points.length)

def screenVolatilityPct (points : List Point) : Option Figure × String :=
  let rets := sessionReturns points
  if rets.length < 2 then
    (none, "a sample standard deviation needs at least two session returns and this window " ++
      "has " ++ toString rets.length ++
      "; a single return carries no information about dispersion at all, and " ++
      "0.00 would read as \"this share did not move\"")
  else (fp (sampleDeviation rets), "")

def screenMaxDrawdownPct (points : List Point) : Option Figure × String :=
  if points.length < 2 then
    (none, coversReason "a drawdown needs a peak and a trough" points.length)
  else if (drawdownOf points).1 == minusInfinity then
    (none, "no covered session carries a usable close")
  else (fp (drawdownOf points).2, "")

end Statistics

section Items

inductive ScreenNumeraire
  | irr
  | usd
  | gold
  deriving DecidableEq

def ScreenNumeraire.key : ScreenNumeraire → String
  | .irr => "IRR"
  | .usd => "USD"
  | .gold => "GOLD"

def relvalueKey : ScreenNumeraire → Numeraire
  | .irr => .irt
  | .usd => .usd
  | .gold => .gold

def rialsPerToman : Float := 10

structure ConversionBlock where
  chain : List String
  carriedForwardDays : ℕ
  droppedNoPriorQuote : ℕ
  droppedNonPositiveQuote : ℕ

structure ScreenItem where
  symbol : String
  insCode : String
  nameFA : String
  sectorCode : String
  sectorFA : String
  market : String
  board : String
  lastClose : Option Figure
  lastCloseBasis : String
  lastTradeDate : Option String
  lastBar : Option String
  firstBar : Option String
  barCount : ℤ
  returnPct : Option Figure
  returnReason : Option String
  volatilityPct : Option Figure
  volatilityReason : Option String
  maxDrawdownPct : Option Figure
  maxDrawdownReason : Option String
  metricsFrom : Option String
  metricsTo : Option String
  metricsObservations : ℕ
  metricsNumeraire : String
  sessionsInPeriod : ℕ
  tradedSessions : ℕ
  haltedSessions : ℕ
  lastVolume : Option ℤ
  lastTradeCount : Option ℤ
  lastValue : Option Figure
  avgVolume : Option Figure
  avgTradeCount : Option Figure
  avgValue : Option Figure
  liquidityReason : Option String
  priceUSD : Option Float
  priceUSDRateDate : Option String
  priceUSDCarriedForward : Bool
  priceUSDReason : Option String
  priceGoldGrams : Option Float
  priceGoldGramsRateDate : Option String
  priceGoldGramsCarriedForward : Bool
  priceGoldGramsReason : Option String
  adjustment : AdjustmentItem
  conversion : Option ConversionBlock
  notes : List String

variable (layout : Layout)

/-- The traded sessions of a window, adjusted and in the unit asked for, with the account of
the conversion and why there is none. `conv` is none where no engine could be loaded. -/
def convertedCloses (bars : List ScreenBarRow) (numeraire : ScreenNumeraire)
    (conv : Option Sources) : List Point × Option ConversionBlock × String :=
  let rial := (bars.filter ScreenBarRow.traded).map (fun b ↦
    (⟨b.tradeDate, b.adjustedClose⟩ : Point))
  if numeraire = .irr then (rial, none, "")
  else match conv with
  | none =>
    ([], none, "the numeraire engine is not available in this deployment, so no " ++
      "figure can be expressed in a unit other than rial")
  | some sources =>
    let toman := rial.map (fun p ↦ (⟨p.day, p.value / rialsPerToman⟩ : Point))
    let sc := convertTomanSeries sources toman (relvalueKey numeraire)
    (sc.points, some ⟨sc.chain, sc.carriedForward, sc.droppedNoPriorQuote,
      sc.droppedNonPositiveQuote⟩, sc.reason)

structure PriceIn where
  value : Option Float
  rateDate : Option String
  reason : Option String
  carriedForward : Bool

def priceIn (rial : Float) (day : Date) (key : Numeraire) (conv : Option Sources) : PriceIn :=
  match conv with
  | none => ⟨none, none, strPtr "the numeraire engine is not available in this deployment", false⟩
  | some sources =>
    let got := convertToman layout sources day (rial / rialsPerToman) key
    match got.value with
    | none => ⟨none, none, strPtr got.reason, false⟩
    | some v => ⟨some v, got.rateDay.map layout.date, none, got.carriedForward⟩

def noTradedSession : String :=
  "this instrument has no traded session in the store: every stored " ++
    "bar is a halt or a pre-listing placeholder, so there is no print to report"

/-- The price of the last print in a numeraire, or why there is none. -/
def lastPrice (latest : Option ScreenBarRow) (key : Numeraire) (conv : Option Sources) : PriceIn :=
  match latest with
  | some b => priceIn layout b.finalClose b.tradeDate key conv
  | none => ⟨none, none, strPtr noTradedSession, false⟩

def windowFigures (points : List Point) (convReason : String) :
    (Option Figure × String) × (Option Figure × String) × (Option Figure × String) :=
  if convReason ≠ "" then ((none, convReason), (none, convReason), (none, convReason))
  else (screenReturnPct layout points, screenVolatilityPct points, screenMaxDrawdownPct points)

def average (traded : List ScreenBarRow) (f : ScreenBarRow → Float) : Option Figure :=
  fp (sum (traded.map f) / floatOfInt traded.length)

def haltedNote (row : StockRow) (latest : Option ScreenBarRow) : List String :=
  match latest, row.lastBar with
  | some b, some lastBar =>
    if b.tradeDate < lastBar then
      ["the last stored session (" ++ layout.date lastBar ++
        ") is later than the last TRADED session (" ++ layout.date b.tradeDate ++ "): " ++
        "this instrument is currently halted, and last_close is the last real " ++
        "print rather than the carried reference price."]
    else []
  | _, _ => []

def haltsNote (halted sessions : ℕ) : List String :=
  if halted = 0 then []
  else
    [toString halted ++ " of " ++ toString sessions ++
      " stored sessions in this window were halted (no trade). They are " ++
      "excluded from the return, volatility, drawdown and liquidity figures, " ++
      "because a halted bar's final_close is the carried reference price and not a " ++ "print."]

def droppedNote (numeraire : ScreenNumeraire) (block : ConversionBlock) : List String :=
  if block.droppedNoPriorQuote = 0 ∧ block.droppedNonPositiveQuote = 0 then []
  else
    ["the " ++ numeraire.key ++ " conversion dropped " ++ toString block.droppedNoPriorQuote ++
      " session(s) with no quote at or before them and " ++
      toString block.droppedNonPositiveQuote ++ " " ++
      "with a non-positive quote. Nothing was interpolated: the only value that " ++
      "could fill those days is a LATER quote, and using it would price a session " ++
      "with information from its own future."]

def carriedNote (numeraire : ScreenNumeraire) (observations : ℕ) (block : ConversionBlock) :
    List String :=
  if block.carriedForwardDays = 0 then []
  else
    [toString block.carriedForwardDays ++ " of " ++ toString observations ++
      " converted sessions were priced with a " ++ numeraire.key ++
      " quote carried forward from an " ++ "earlier day."]

def reopeningsNote (adj : AdjustmentItem) : List String :=
  if adj.reopenings ≤ 0 then []
  else
    ["this instrument's adjusted series contains " ++ toString adj.reopenings ++
      " reopening auction(s) whose move " ++
      "exceeds a normal session's price limit; the exchange lifts the limit when an " ++
      "instrument resumes after a suspension, so a session return spanning one of " ++
      "those days is not a session return."]

def buildScreenItem (row : StockRow) (bars : List ScreenBarRow) (latest : Option ScreenBarRow)
    (numeraire : ScreenNumeraire) (conv : Option Sources) : ScreenItem :=
  let usd := lastPrice layout latest .usd conv
  let gold := lastPrice layout latest .gold conv
  let traded := bars.filter ScreenBarRow.traded
  let (points, block, convReason) := convertedCloses bars numeraire conv
  let (ret, vol, dd) := windowFigures layout points convReason
  let observations := if convReason ≠ "" then 0 else points.length
  let adj := buildAdjustment layout row
  { symbol := row.symbolFA
    insCode := row.insCode
    nameFA := row.nameFA
    sectorCode := row.sectorCode
    sectorFA := row.sectorFA
    market := row.market
    board := row.board
    lastClose := latest.bind (fun b ↦ fp b.finalClose)
    lastCloseBasis :=
      if latest.isSome then "raw final_close (TSE's official قیمت پایانی), in rials, unadjusted"
      else "no traded session"
    lastTradeDate := latest.map (fun b ↦ layout.date b.tradeDate)
    lastBar := strPtr (formatDate layout row.lastBar)
    firstBar := strPtr (formatDate layout row.firstBar)
    barCount := row.barCount
    returnPct := ret.1
    returnReason := strPtr ret.2
    volatilityPct := vol.1
    volatilityReason := strPtr vol.2
    maxDrawdownPct := dd.1
    maxDrawdownReason := strPtr dd.2
    metricsFrom :=
      if convReason ≠ "" then none else points.head?.map (fun p ↦ layout.date p.day)
    metricsTo :=
      if convReason ≠ "" then none else points.getLast?.map (fun p ↦ layout.date p.day)
    metricsObservations := observations
    metricsNumeraire := numeraire.key
    sessionsInPeriod := bars.length
    tradedSessions := traded.length
    haltedSessions := bars.length - traded.length
    lastVolume := latest.map ScreenBarRow.volume
    lastTradeCount := latest.map ScreenBarRow.tradeCount
    lastValue := latest.bind (fun b ↦ fp b.value)
    avgVolume := if traded = [] then none else average traded (fun b ↦ floatOfInt b.volume)
    avgTradeCount := if traded = [] then none else average traded (fun b ↦ floatOfInt b.tradeCount)
    avgValue := if traded = [] then none else average traded ScreenBarRow.value
    liquidityReason :=
      if traded = [] then
        strPtr ("no traded session in this window (" ++ toString bars.length ++
          " stored session(s), all halted), so there is " ++ "nothing to average")
      else none
    priceUSD := usd.value
    priceUSDRateDate := usd.rateDate
    priceUSDCarriedForward := usd.carriedForward
    priceUSDReason := usd.reason
    priceGoldGrams := gold.value
    priceGoldGramsRateDate := gold.rateDate
    priceGoldGramsCarriedForward := gold.carriedForward
    priceGoldGramsReason := gold.reason
    adjustment := adj
    conversion := block
    notes := haltedNote layout row latest ++ haltsNote (bars.length - traded.length) bars.length ++
      (block.map (droppedNote numeraire)).getD [] ++
      (block.map (carriedNote numeraire observations)).getD [] ++ reopeningsNote adj }

end Items

section Sorting

/-- A sortable column: its name, its natural direction and its figure; the column of the
symbol has none. -/
structure ScreenSortSpec where
  key : String
  desc : Bool
  metric : Option (ScreenItem → Option Figure)

def screenSorts : List ScreenSortSpec :=
  [⟨"avg_value", true, some ScreenItem.avgValue⟩, ⟨"return", true, some ScreenItem.returnPct⟩,
    ⟨"volatility", true, some ScreenItem.volatilityPct⟩,
    ⟨"drawdown", false, some ScreenItem.maxDrawdownPct⟩,
    ⟨"last_close", true, some ScreenItem.lastClose⟩,
    ⟨"last_volume", true, some (fun i ↦ i.lastVolume.map figureOfInt)⟩,
    ⟨"last_value", true, some ScreenItem.lastValue⟩,
    ⟨"last_trade_count", true, some (fun i ↦ i.lastTradeCount.map figureOfInt)⟩,
    ⟨"avg_volume", true, some ScreenItem.avgVolume⟩,
    ⟨"avg_trade_count", true, some ScreenItem.avgTradeCount⟩,
    ⟨"bar_count", true, some (fun i ↦ some (figureOfInt i.barCount))⟩, ⟨"symbol", false, none⟩]

/-- The comparison of `sortScreenItems`. -/
def screenLess (spec : ScreenSortSpec) (desc : Bool) (x y : ScreenItem) : Bool :=
  match spec.metric with
  | none =>
    if x.symbol = y.symbol then false
    else if desc then decide (y.symbol < x.symbol) else decide (x.symbol < y.symbol)
  | some metric =>
    match metric x, metric y with
    | none, none => decide (x.symbol < y.symbol)
    | none, some _ => false
    | some _, none => true
    | some xv, some yv =>
      if xv.val == yv.val then decide (x.symbol < y.symbol)
      else if desc then decide (yv.val < xv.val) else decide (xv.val < yv.val)

def sortScreenItems (items : List ScreenItem) (spec : ScreenSortSpec) (desc : Bool) :
    List ScreenItem :=
  sortStable (screenLess spec desc) items

end Sorting

section Response

structure DataAgeBlock where
  newestTradeDate : Option String
  ageDays : Option ℤ
  asOf : String
  stale : Bool
  warning : String

def equityStaleAfterDays : ℤ := 10

def equityRefreshCommand : String := "make refresh-equities"

def newestRosterBar (rows : List StockRow) : Option Date := (rows.filterMap StockRow.lastBar).max?

variable (layout : Layout)

def buildDataAge (newest : Option Date) (today : Date) : DataAgeBlock :=
  match newest with
  | none =>
    ⟨none, none, layout.date today, false,
      "No stored Tehran equity bars for the symbols in this response, so " ++
        "every price column here is empty rather than old. If a filter is applied " ++
        "(sector, enabled), other symbols may still hold data — check /api/v1/stocks " ++
        "unfiltered before concluding the dataset is missing. If it genuinely is, run `" ++
        equityRefreshCommand ++ "` from a host that can reach TSETMC."⟩
  | some date =>
    let days := today - date
    if days < 0 then
      ⟨some (layout.date date), some days, layout.date today, true,
        "The newest stored trade date is " ++ layout.date date ++ ", which is " ++
          toString (-days) ++ " day(s) AFTER today (" ++ layout.date today ++ "). A bar " ++
          "cannot be in the future, so this is a stored or parsed date fault, not a " ++
          "fresh dataset — do not read these prices as current."⟩
    else if equityStaleAfterDays < days then
      ⟨some (layout.date date), some days, layout.date today, true,
        "These prices are " ++ toString days ++ " days old: the newest stored Tehran session is " ++
          layout.date date ++ " and today " ++ "is " ++ layout.date today ++
          ". The Tehran exchange trades Saturday to Wednesday, so a gap of up to " ++
          "about 5 days is the calendar; beyond " ++ toString equityStaleAfterDays ++
          " days it is a refresh that has " ++
          "stopped. Tehran equity bars are fetched by hand because TSETMC is " ++
          "unreachable from the server — run `" ++ equityRefreshCommand ++
          "` from a network that can reach it."⟩
    else ⟨some (layout.date date), some days, layout.date today, false, ""⟩

structure ScreenQuery where
  period : String
  start : Option Date
  stop : Date
  numeraire : ScreenNumeraire
  /-- `""` for every sector. -/
  sector : String
  sort : ScreenSortSpec
  desc : Bool
  limit : ℕ
  asOf : Date

structure ScreenInputs where
  query : ScreenQuery
  roster : List StockRow
  /-- The bars of the window, ascending by date. -/
  window : String → List ScreenBarRow
  /-- The last traded bar. -/
  latest : String → Option ScreenBarRow
  converter : Option Sources

structure ScreenResponse where
  asOf : Date
  period : String
  start : Option String
  stop : String
  dataAge : DataAgeBlock
  numeraire : String
  sort : String
  order : String
  limit : ℕ
  sector : Option String
  items : List ScreenItem
  count : ℕ
  matched : ℕ
  truncated : Bool
  excluded : List ExcludedItem
  excludedCount : ℕ
  warnings : List String

namespace ScreenInputs

variable (inp : ScreenInputs)

def requested : List StockRow :=
  inp.roster.filter (fun r ↦ !(inp.query.sector ≠ "" && r.sectorCode ≠ inp.query.sector))

def excludedItems : List ExcludedItem := inp.requested.filterMap (screenable layout)

def matchedItems : List ScreenItem :=
  (inp.requested.filter (fun r ↦ (screenable layout r).isNone)).map (fun r ↦
    buildScreenItem layout r (inp.window r.insCode) (inp.latest r.insCode) inp.query.numeraire
      inp.converter)

def sortedItems : List ScreenItem :=
  sortScreenItems (inp.matchedItems layout) inp.query.sort inp.query.desc

end ScreenInputs

def absentWarning : String :=
  "P/E, EPS growth, ROE, dividend yield and market cap are NOT computable from what " ++
    "this deployment ingests. Every row's `absent_metrics` names each one with the " ++
    "real obstacle, so a page can state its boundary from this API rather than from " ++
    "its own copy."

def engineWarning (inp : ScreenInputs) : List String :=
  if inp.query.numeraire ≠ .irr ∧ inp.converter.isNone then
    ["the numeraire engine is not available in this deployment, so every figure that " ++
      "would be expressed in " ++ inp.query.numeraire.key ++ " is null with that reason."]
  else []

def truncatedWarning (matched shown limit : ℕ) : List String :=
  if limit < matched then
    [toString matched ++ " instruments matched and " ++ toString shown ++
      " are shown: this page is truncated by ?limit=" ++ toString limit ++ "."]
  else []

def excludedWarning (n : ℕ) : List String :=
  if n = 0 then []
  else
    [toString n ++ " roster symbol(s) are not screened; `excluded` names each one and why."]

def buildScreenResponse (inp : ScreenInputs) : ScreenResponse :=
  let q := inp.query
  let matched := (inp.matchedItems layout).length
  let items := (inp.sortedItems layout).take q.limit
  let excluded := inp.excludedItems layout
  let age := buildDataAge layout (newestRosterBar inp.requested) q.asOf
  { asOf := q.asOf
    period := q.period
    start := q.start.map layout.date
    stop := layout.date q.stop
    dataAge := age
    numeraire := q.numeraire.key
    sort := q.sort.key
    order := if q.desc then "desc" else "asc"
    limit := q.limit
    sector := strPtr q.sector
    items := items
    count := items.length
    matched := matched
    truncated := q.limit < matched
    excluded := excluded
    excludedCount := excluded.length
    warnings := engineWarning inp ++ (if age.warning = "" then [] else [age.warning]) ++
      truncatedWarning matched items.length q.limit ++ excludedWarning excluded.length ++
      [absentWarning] }

end Response

end TalaPala.Equities.Screen
