import TalaPala.Bourse.FlowTiers
import TalaPala.Library.AsOf
import Mathlib.Data.String.Basic

namespace TalaPala.Bourse

open Library

def microsPerDay : ℤ := 86400 * 10 ^ 6

def dayFloor (t : Instant) : Instant := t / microsPerDay * microsPerDay

def dayString (t : Instant) : Date := t / microsPerDay

def fv (v : ℚ) : Option ℚ := some v

def minMarketShares : ℕ := 200

def listingReferenceBound : ℚ := 5 / 4

def blockSessions : ℕ := 5

def blockCount : ℕ := 12

def topCompanies : ℕ := 15

def flowWindows : List ℕ := [1, 5, 20, 60]

section Calendar

structure SessionCount where
  day : Instant
  rows : ℕ
  traded : ℕ
  dayFile : Bool
  dayTraded : ℕ
  covered : ℕ
  dayValue : ℚ
  coveredValue : ℚ

namespace SessionCount

variable (x : SessionCount)

def shareCoverage : Option ℚ :=
  if ¬x.dayFile ∨ x.dayTraded = 0 then none else some ((x.covered : ℚ) / x.dayTraded)

def valueCoverage : Option ℚ :=
  if ¬x.dayFile ∨ x.dayValue ≤ 0 then none else some (x.coveredValue / x.dayValue)

def marketSession : Bool :=
  x.dayFile ∧ minMarketShares ≤ x.dayTraded ∧
    (x.shareCoverage.any (minFlowCoverage ≤ ·)) ∧ (x.valueCoverage.any (minFlowCoverage ≤ ·))

end SessionCount

inductive WhyNot
  | noDayFile
  | fewShares (traded : ℕ)
  | shortFlow (covered traded : ℕ) (sharePct valuePct : ℚ)

def SessionCount.whyNot (x : SessionCount) : WhyNot :=
  if ¬x.dayFile then .noDayFile
  else if x.dayTraded < minMarketShares then .fewShares x.dayTraded
  else .shortFlow x.covered x.dayTraded (x.shareCoverage.getD 0 * 100)
    (x.valueCoverage.getD 0 * 100)

structure MarketCalendar where
  sessions : List Instant
  counts : List SessionCount
  newestStored : Option SessionCount
  thinAfterNewest : ℕ
  newestThin : Option SessionCount
  thinSkipped : ℕ
  newestDayFile : Option SessionCount
  dayFiles : ℕ

structure WindowCoverage where
  dayFileShareSessions : ℕ
  withFlow : ℕ
  sharePct : Option ℚ
  valuePct : Option ℚ
  minSessionSharePct : Option ℚ

structure Span where
  start : Instant
  stop : Instant
  deriving DecidableEq

def Span.days (s : Span) : Date × Date := (dayString s.start, dayString s.stop)

/-- Window `n` on the calendar; without a span it is not available. -/
structure SessionWindow where
  n : ℕ
  span : Option Span
  previous : Option Span
  base : Option Instant
  coverage : Option WindowCoverage

def SessionWindow.available (w : SessionWindow) : Bool := w.span.isSome

def keepMin (held : Option ℚ) (x : SessionCount) : Option ℚ :=
  match x.shareCoverage with
  | none => held
  | some sc => if held.all (sc * 100 < ·) then some (fp (sc * 100)) else held

def windowCoverage (counts : List SessionCount) : WindowCoverage :=
  let traded := (counts.map SessionCount.dayTraded).sum
  let covered := (counts.map SessionCount.covered).sum
  let dayValue := (counts.map SessionCount.dayValue).sum
  let coveredValue := (counts.map SessionCount.coveredValue).sum
  { dayFileShareSessions := traded
    withFlow := covered
    sharePct := if traded > 0 then some (fp ((covered : ℚ) / traded * 100)) else none
    valuePct := if dayValue > 0 then some (fp (coveredValue / dayValue * 100)) else none
    minSessionSharePct := counts.foldl keepMin none }

def spanOf (sessions : List Instant) (i n : ℕ) : Option Span :=
  match sessions[i]?, sessions[i + n - 1]? with
  | some stop, some start => some ⟨start, stop⟩
  | _, _ => none

def windowOn (c : MarketCalendar) (n : ℕ) : SessionWindow :=
  if c.sessions.length < n then ⟨n, none, none, none, none⟩
  else
    { n := n
      span := spanOf c.sessions 0 n
      previous := spanOf c.sessions n n
      base := c.sessions[n]?
      coverage := if n ≤ c.counts.length then some (windowCoverage (c.counts.take n)) else none }

structure SessionWindowItem where
  sessions : ℕ
  available : Bool
  span : Option (Date × Date)
  previous : Option (Date × Date)
  coverage : Option WindowCoverage
  /-- How many sessions are stored, where the window needs more. -/
  stored : Option ℕ

def SessionWindow.item (w : SessionWindow) (stored : ℕ) : SessionWindowItem :=
  if w.available then ⟨w.n, true, w.span.map Span.days, w.previous.map Span.days, w.coverage, none⟩
  else ⟨w.n, false, none, none, none, some stored⟩

end Calendar

section Coverage

@[ext] structure CoverageAcc where
  dayFile : ℕ
  withFlow : ℕ
  dayValue : ℚ
  withFlowValue : ℚ
  deriving DecidableEq

namespace CoverageAcc

def empty : CoverageAcc := ⟨0, 0, 0, 0⟩

def add (c : CoverageAcc) (value : ℚ) (flowed : Bool) : CoverageAcc :=
  let c := { c with dayFile := c.dayFile + 1, dayValue := c.dayValue + value }
  if flowed then
    { c with withFlow := c.withFlow + 1, withFlowValue := c.withFlowValue + value }
  else c

def merge (c o : CoverageAcc) : CoverageAcc :=
  ⟨c.dayFile + o.dayFile, c.withFlow + o.withFlow, c.dayValue + o.dayValue,
    c.withFlowValue + o.withFlowValue⟩

def meets (c : CoverageAcc) : Bool :=
  c.dayFile = 0 ∨ (minFlowCoverage * c.dayFile ≤ c.withFlow ∧
    (c.dayValue ≤ 0 ∨ minFlowCoverage * c.dayValue ≤ c.withFlowValue))

def pcts (c : CoverageAcc) : Option ℚ × Option ℚ :=
  (if c.dayFile > 0 then some (fp ((c.withFlow : ℚ) / c.dayFile * 100)) else none,
    if c.dayValue > 0 then some (fp (c.withFlowValue / c.dayValue * 100)) else none)

end CoverageAcc

structure GroupCoverage where
  dayFileShareSessions : ℕ
  withFlow : ℕ
  sharePct : Option ℚ
  valuePct : Option ℚ
  previousSharePct : Option ℚ
  previousValuePct : Option ℚ
  deriving DecidableEq

/-- `hasPrevious` is whether the window has one of equal length before it. -/
def coverageItem (cur prev : CoverageAcc) (hasPrevious : Bool) : GroupCoverage where
  dayFileShareSessions := cur.dayFile
  withFlow := cur.withFlow
  sharePct := cur.pcts.1
  valuePct := cur.pcts.2
  previousSharePct := if hasPrevious then prev.pcts.1 else none
  previousValuePct := if hasPrevious then prev.pcts.2 else none

inductive Group
  | sector
  | share
  | company
  | itsSector
  deriving DecidableEq

inductive When
  | thisWindow
  | windowBefore
  deriving DecidableEq

inductive Consequence
  | understated
  | overstated
  deriving DecidableEq

inductive ShareReason
  | shortfall (c : CoverageAcc) (who : Group) (when_ : When) (consequence : Consequence)
  | nothingBefore (who : Group)
  deriving DecidableEq

end Coverage

section Summaries

structure TieredFlowSummary where
  span : Option (Date × Date)
  sessions : ℕ
  rows : ℕ
  consistent : ℕ
  barChecked : ℕ
  identityOnly : ℕ
  excluded : ℕ
  noTrade : ℕ
  netIndividualToman : Option ℚ
  netInstitutionalToman : Option ℚ
  netIndividualPctOfValue : Option ℚ
  totalValueToman : Option ℚ
  individualBuySharePct : Option ℚ
  individualSellSharePct : Option ℚ
  buyerPower : Option ℚ
  listingSessions : ℕ
  inflowSessions : ℕ
  outflowSessions : ℕ
  instrumentsTraded : ℕ
  inflowInstruments : ℕ
  outflowInstruments : ℕ
  valueSharePct : Option ℚ
  previousValueSharePct : Option ℚ
  valueShareChangePP : Option ℚ
  valueShareReason : Option ShareReason
  coverage : Option GroupCoverage
  deriving DecidableEq

def FlowAcc.buyerPower (a : FlowAcc) : Option ℚ :=
  if a.buyICount > 0 ∧ a.sellICount > 0 ∧ a.powerSellI > 0 then
    some (fp ((a.powerBuyI / a.buyICount) / (a.powerSellI / a.sellICount)))
  else none

def summarizeAcc (a : FlowAcc) (w : SessionWindow) : TieredFlowSummary :=
  let s : TieredFlowSummary :=
    { span := w.span.map Span.days, sessions := w.n, rows := a.rows, consistent := a.consistent,
      barChecked := a.barChecked, identityOnly := a.identityOnly, excluded := a.excluded,
      noTrade := a.noTrade, netIndividualToman := none, netInstitutionalToman := none,
      netIndividualPctOfValue := none, totalValueToman := none, individualBuySharePct := none,
      individualSellSharePct := none, buyerPower := none, listingSessions := a.listing,
      inflowSessions := a.inflowRows, outflowSessions := a.outflowRows, instrumentsTraded := 0,
      inflowInstruments := 0, outflowInstruments := 0, valueSharePct := none,
      previousValueSharePct := none, valueShareChangePP := none, valueShareReason := none,
      coverage := none }
  if a.consistent = 0 then s
  else
    { s with
      netIndividualToman := fv a.net
      netInstitutionalToman := fv (-a.net)
      totalValueToman := fv a.value
      netIndividualPctOfValue := if a.value > 0 then some (fp (a.net / a.value * 100)) else none
      individualBuySharePct := if a.value > 0 then some (fp (a.buyI / a.value * 100)) else none
      individualSellSharePct :=
        if a.sellValue > 0 then some (fp (a.sellI / a.sellValue * 100)) else none
      buyerPower := a.buyerPower }

def valueShare (part whole : ℚ) : Option ℚ :=
  if whole ≤ 0 then none else some (fp (part / whole * 100))

structure GroupShare where
  who : Group
  cur : ℚ
  whole : ℚ
  prev : ℚ
  prevWhole : ℚ
  prevRows : ℕ
  cov : CoverageAcc
  prevCov : CoverageAcc
  enclosing : Option CoverageAcc
  enclosingWho : Group

namespace TieredFlowSummary

variable (s : TieredFlowSummary)

def countInstrument (a : FlowAcc) : TieredFlowSummary :=
  if a.consistent = 0 then s
  else
    { s with
      instrumentsTraded := s.instrumentsTraded + 1
      inflowInstruments := s.inflowInstruments + if a.net > 0 then 1 else 0
      outflowInstruments := s.outflowInstruments + if a.net < 0 then 1 else 0 }

def setValueShare (cur curWhole : ℚ) (prev : Option (ℚ × ℚ)) : TieredFlowSummary :=
  let s := { s with valueSharePct := valueShare cur curWhole }
  match prev with
  | none => s
  | some (p, pWhole) =>
    let s := { s with previousValueSharePct := valueShare p pWhole }
    match s.valueSharePct, s.previousValueSharePct with
    | some c, some p => { s with valueShareChangePP := some (fp (c - p)) }
    | _, _ => s

def setCoveredValueShare (g : GroupShare) (hasPrevious : Bool) : TieredFlowSummary :=
  let s := { s with coverage := some (coverageItem g.cov g.prevCov hasPrevious) }
  if ¬g.cov.meets then
    { s with valueShareReason := some (.shortfall g.cov g.who .thisWindow .understated) }
  else
    match g.enclosing.filter (fun c ↦ !c.meets) with
    | some c =>
      { s with valueShareReason := some (.shortfall c g.enclosingWho .thisWindow .overstated) }
    | none =>
      if ¬hasPrevious then s.setValueShare g.cur g.whole none
      else if g.prevRows = 0 then
        { s with valueShareReason := some (.nothingBefore g.who) }.setValueShare g.cur g.whole none
      else if ¬g.prevCov.meets then
        { s with valueShareReason := some (.shortfall g.prevCov g.who .windowBefore .understated)
          }.setValueShare g.cur g.whole none
      else s.setValueShare g.cur g.whole (some (g.prev, g.prevWhole))

end TieredFlowSummary

end Summaries

section Prices

structure PriceRow where
  insCode : String
  day : Instant
  close : ℚ
  priceYesterday : ℚ

structure ShareMeta where
  insCode : String
  symbol : String
  nameFA : String
  market : String
  board : String
  companyCode : String
  sectorCode : String
  listed : Bool
  inRoster : Bool
  rosterSymbol : String
  flowFirstDate : Option Instant

def PriceRow.priced (p : PriceRow) : Bool := 0 < p.close ∧ 0 < p.priceYesterday

def PriceRow.ratio (p : PriceRow) : ℚ := p.close / p.priceYesterday

def listingFrom (oldest : Instant) : Option Instant → List PriceRow → Option Instant
  | _, [] => none
  | first, p :: rest =>
    let d := dayFloor p.day
    if first = none ∧ d ≤ oldest then none
    else
      let f := first.getD d
      if d ≠ f ∨ ¬p.priced then listingFrom oldest (some f) rest
      else if p.ratio > listingReferenceBound ∨ p.ratio < 1 / listingReferenceBound then some f
      else none

def listingSession (m : ShareMeta) (prices : List PriceRow) (oldest : Instant) : Option Instant :=
  listingFrom oldest (m.flowFirstDate.map dayFloor) prices

inductive ChangeReason
  | missingCloses (missing traded : ℕ)
  | onlyListing (day : Date) (reference : ℚ)
  | notTraded
  | noPrice

structure FirstClose where
  close : ℚ
  day : Date
  reference : ℚ

structure PriceChange where
  pct : Option ℚ
  reason : Option ChangeReason
  note : Option FirstClose
  listing : Option Instant

def chainLinkedChange (prices : List PriceRow) (traded : List Instant) (w : Span)
    (listing : Option Instant) : PriceChange :=
  let used := prices.filter (fun p ↦
    w.start ≤ dayFloor p.day ∧ dayFloor p.day ≤ w.stop ∧ p.priced)
  let isListing := fun (p : PriceRow) ↦ listing.any (dayFloor p.day = dayFloor ·)
  let factors := (used.filter (fun p ↦ !isListing p)).map PriceRow.ratio
  let listed := lastOf isListing used
  let missing := traded.countP (fun d ↦ !used.any (fun p ↦ dayFloor p.day = dayFloor d))
  let out : PriceChange := ⟨none, none, none, listed.map (fun p ↦ dayFloor p.day)⟩
  if missing > 0 then { out with reason := some (.missingCloses missing traded.length) }
  else
    match listed, factors with
    | some p, [] => { out with reason := some (.onlyListing (dayString p.day) p.priceYesterday) }
    | none, [] =>
      if traded.length = 0 then { out with reason := some .notTraded }
      else { out with reason := some .noPrice }
    | listed, factors =>
      { out with
        pct := some (fp ((factors.prod - 1) * 100))
        note := listed.map (fun p ↦ ⟨p.close, dayString p.day, p.priceYesterday⟩) }

theorem chainLinkedChange_traded_perm {prices : List PriceRow} {traded traded' : List Instant}
    (h : traded.Perm traded') (w : Span) (listing : Option Instant) :
    chainLinkedChange prices traded w listing = chainLinkedChange prices traded' w listing := by
  simp only [chainLinkedChange, h.countP_eq, h.length_eq]

end Prices

section Index

structure IndexPoint where
  day : Instant
  value : ℚ

structure IndexSeries where
  points : List IndexPoint
  ascending : AscendingBy IndexPoint.day points

inductive ReturnReason
  | noIndex
  | noSeries
  | noBase
  | tooFew (stored : ℕ)
  | beginsAfter (first start : Date)
  | noSessionAfter
  deriving DecidableEq

def valueInForce (s : List IndexPoint) (day : Instant) : Option IndexPoint :=
  asOf IndexPoint.day s (dayFloor day)

def windowReturn (s : List IndexPoint) (start : Instant) : Option ℚ × Option ReturnReason :=
  match s.head?, s.getLast? with
  | some first, some last =>
    if s.length < 2 then (none, some (.tooFew s.length))
    else
      match valueInForce s start with
      | none => (none, some (.beginsAfter (dayString first.day) (dayString start)))
      | some base =>
        if last.day ≤ base.day then (none, some .noSessionAfter)
        -- a ratio to zero is not a number and is published as null
        else if base.value = 0 then (none, none)
        else (some (fp ((last.value / base.value - 1) * 100)), none)
  | _, _ => (none, some (.tooFew 0))

def sectorIndexReturn (code : String) (series : String → Option IndexSeries) (w : SessionWindow) :
    Option ℚ × Option ReturnReason :=
  if code = "" then (none, some .noIndex)
  else
    match (series code).map IndexSeries.points, w.span with
    | none, _ => (none, some .noSeries)
    | some [], _ => (none, some .noSeries)
    | some s, some span =>
      match w.base with
      | none => (none, some .noBase)
      | some base => windowReturn (upTo IndexPoint.day s (dayFloor span.stop)) base
    | some _, none => (none, some .noBase)

end Index

end TalaPala.Bourse
