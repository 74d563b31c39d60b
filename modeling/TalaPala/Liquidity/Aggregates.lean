import TalaPala.Bourse.FlowTiers
import TalaPala.Liquidity.Jalali
import TalaPala.Library.Slots
import TalaPala.Library.Strings
import Mathlib.Data.Finset.Card

namespace TalaPala.Liquidity.Aggregates

open Library Bourse

section Series

def codeLiquidity : String := "CBI_LIQUIDITY"

def codeBaseMoney : String := "CBI_BASE_MONEY"

def methodOld : String := "old"

def methodRevised : String := "revised"

def baseMoneyBreak : ℤ := newMonth 1399 12

def allRevisedFrom : ℤ := newMonth 1402 1

/-- One series' stock at the end of a Jalali month; the method is empty where it is not
known, and for the series that have none. -/
structure MoneyPoint where
  month : ℤ
  value : ℚ
  vintage : ℤ
  availableAt : ℤ
  availableAtApprox : Option Bool
  publishedAt : Option ℤ
  method : String
  source : String

structure MoneySeries where
  code : String
  points : List MoneyPoint
  ascending : AscendingBy MoneyPoint.month points
  labelled : ∀ p ∈ points, 12 ≤ p.month

def MoneySeries.byMonth (s : MoneySeries) (m : ℤ) : Option MoneyPoint :=
  s.points.reverse.find? (fun p ↦ p.month = m)

def effectiveMethod (m : ℤ) (stored : String) : String × Bool :=
  if stored ≠ "" then (stored, false)
  else if m < baseMoneyBreak then (methodOld, true)
  else if allRevisedFrom ≤ m then (methodRevised, true)
  else ("", false)

def label (m : ℤ) : String :=
  String.ofList (padded (monthYear m) 4 ++ '-' :: padded (monthOf m) 2)

end Series

section Growth

/-- The loop back from the newest point; `start` is where the run begins so far. -/
def runFrom (start : Option ℤ) : List MoneyPoint → Option ℤ
  | [] => start
  | p :: ps =>
    if p.source = "tsdview" || start.any (fun m ↦ p.month ≠ m - 1) then start
    else runFrom (some p.month) ps

/-- The first of the consecutive months, none a quarter-end of tsdview, that end at the
newest one. -/
def monthlyRun (s : MoneySeries) : Option ℤ := runFrom none s.points.reverse

structure GrowthRule where
  all : ℤ → Option MoneyPoint
  methodSensitive : Bool
  monthlyFrom : ℤ
  sparse : String

def newGrowthRule (s : MoneySeries) : GrowthRule :=
  let g : GrowthRule := ⟨s.byMonth, s.code = codeBaseMoney, 0, ""⟩
  match monthlyRun s, s.points.head? with
  | some run, some first =>
    if run ≤ first.month then g
    else
      { g with
        monthlyFrom := run
        sparse := if s.points.any (fun p ↦ p.month < run && monthOf p.month % 3 ≠ 0)
          then "some months" else "quarter-end months" }
  | _, _ => g

/-- `100 * (cur / base - 1)` where it may be computed, else why not. -/
def GrowthRule.pct (g : GrowthRule) (cur : MoneyPoint) (base : ℤ) (what : String) :
    Except String ℚ :=
  match g.all base with
  | none => .error (label base ++ " is not stored, so there is no " ++ what ++ " comparison" ++
      if g.monthlyFrom ≠ 0 ∧ base < g.monthlyFrom then
        " (before " ++ label g.monthlyFrom ++ " only " ++ g.sparse ++ " are stored)"
      else "")
  | some b =>
    if b.value ≤ 0 then .error ("the stored value for " ++ label base ++ " is not positive")
    else if g.methodSensitive ∧ (cur.method = "" ∨ b.method = "") then
      .error ("the base-money method of " ++ label (if b.method = "" then base else cur.month) ++
        " is not recorded, and " ++ label base ++ ".." ++ label cur.month ++ " may straddle CBI's " ++
        "1399-12 redefinition; growth across methods is not computed")
    else if g.methodSensitive ∧ cur.method ≠ b.method then
      .error (label cur.month ++ " is on the " ++ cur.method ++ " base-money method and " ++
        label base ++ " on the " ++ b.method ++ " one (CBI redefined base money from 1399-12); " ++
        "growth across the two methods is not computed")
    else .ok (100 * (cur.value / b.value - 1))

def roundTo (v : ℚ) (n : ℕ) : ℚ := mathRound (v * 10 ^ n) / 10 ^ n

def round6 (x : Except String ℚ) : Option ℚ := x.toOption.map (fun v ↦ roundTo v 6)

def reasonOf (field : String) : Except String ℚ → List (String × String)
  | .error why => [(field, why)]
  | .ok _ => []

structure AggregatePoint where
  period : String
  gregorianEnd : ℤ
  value : ℚ
  momPct : Option ℚ
  yoyPct : Option ℚ
  ytdPct : Option ℚ
  method : Option String
  frequency : String
  vintage : ℤ
  source : Option String
  publishedAt : Option ℤ
  availableAt : ℤ
  availableAtApprox : Option Bool
  nullReason : List (String × String)

def aggregatePoint (rule : GrowthRule) (p : MoneyPoint) : AggregatePoint :=
  let mom := rule.pct p (p.month - 1) "month-on-month"
  let yoy := rule.pct p (p.month - 12) "year-on-year"
  let ytd := rule.pct p (newMonth (monthYear p.month - 1) 12) "since-Esfand"
  { period := label p.month
    gregorianEnd := endOfMonth p.month
    value := p.value
    momPct := round6 mom
    yoyPct := round6 yoy
    ytdPct := round6 ytd
    method := if rule.methodSensitive ∧ p.method ≠ "" then some p.method else none
    frequency := if p.source = "tsdview" then "Q" else "M"
    vintage := p.vintage
    source := if p.source ≠ "" then some p.source else none
    publishedAt := p.publishedAt
    availableAt := p.availableAt
    availableAtApprox := p.availableAtApprox
    nullReason := reasonOf "mom_pct" mom ++ reasonOf "yoy_pct" yoy ++ reasonOf "ytd_pct" ytd }

def buildPoints (s : MoneySeries) : List AggregatePoint :=
  s.points.map (aggregatePoint (newGrowthRule s))

end Growth

section Annual

structure YearStats where
  months : ℕ
  sum : ℚ
  methods : Finset String

def YearStats.add (st : YearStats) (p : MoneyPoint) : YearStats :=
  ⟨st.months + 1, st.sum + p.value, insert p.method st.methods⟩

def YearStats.complete (st : YearStats) : Bool := st.months = 12

def YearStats.avg (st : YearStats) : ℚ := st.sum / 12

def yearStats (s : MoneySeries) (y : ℤ) : YearStats :=
  (s.points.filter (fun p ↦ monthYear p.month = y)).foldl YearStats.add ⟨0, 0, ∅⟩

def oneKnownMethod (a b : Finset String) : Bool := (a ∪ b).card = 1 && "" ∉ a ∪ b

/-- The average growth of a year that has an average, else why there is none; a quotient
that is no number is null without a reason. -/
def averageGrowth (sensitive : Bool) (y : ℤ) (cur prev : YearStats) : Except String (Option ℚ) :=
  if !prev.complete then .error (toString (y - 1) ++ " does not have all twelve months")
  else if sensitive && !oneKnownMethod cur.methods prev.methods then
    .error ("the months of " ++ toString (y - 1) ++ " and " ++ toString y ++ " are not all on one " ++
      "recorded base-money method; growth across methods is not computed")
  else if prev.avg = 0 then .ok none
  else .ok (some (roundTo (100 * (cur.avg / prev.avg - 1)) 6))

def annualAverage (sensitive : Bool) (y : ℤ) (cur prev : YearStats) :
    Except (List (String × String)) (ℚ × Except String (Option ℚ)) :=
  if !cur.complete then
    .error (if 0 < cur.months then
      [("avg_value", toString cur.months ++ " of 12 months are stored; an average of fewer is " ++
        "not the year's average")] else [])
  else if sensitive && !oneKnownMethod cur.methods ∅ then
    .error [("avg_value", "the months of " ++ toString y ++ " are not all on one recorded " ++
      "base-money method; an average across the two definitions is not computed")]
  else .ok (roundTo cur.avg 6, averageGrowth sensitive y cur prev)

structure AnnualCell where
  endValue : Option ℚ
  endGrowthPct : Option ℚ
  avgValue : Option ℚ
  avgGrowthPct : Option ℚ
  averaged : Bool
  grown : Bool
  monthsPresent : ℕ
  reasons : List (String × String)

def annualCell (s : MoneySeries) (y : ℤ) : AnnualCell :=
  let rule := newGrowthRule s
  let cur := yearStats s y
  let esfand := rule.all (newMonth y 12)
  let growth := esfand.map (fun e ↦ rule.pct e (newMonth (y - 1) 12) "Esfand-over-Esfand")
  let average := annualAverage rule.methodSensitive y cur (yearStats s (y - 1))
  let endReasons := match growth with
    | some g => reasonOf "end_growth_pct" g
    | none => if 0 < cur.months then [("end_value", "Esfand " ++ toString y ++ " is not stored")]
      else []
  let averageReasons := match average with
    | .error reasons => reasons
    | .ok (_, .error why) => [("avg_growth_pct", why)]
    | .ok _ => []
  let grown := average.toOption.bind (fun a ↦ a.2.toOption)
  { endValue := esfand.map MoneyPoint.value
    endGrowthPct := growth.bind round6
    avgValue := average.toOption.map Prod.fst
    avgGrowthPct := grown.join
    averaged := average.toOption.isSome
    grown := grown.isSome
    monthsPresent := cur.months
    reasons := endReasons ++ averageReasons }

structure AnnualRow where
  year : ℤ
  endValue : List (String × Option ℚ)
  endGrowthPct : List (String × Option ℚ)
  avgValue : Option (List (String × Option ℚ))
  avgGrowthPct : Option (List (String × Option ℚ))
  monthsPresent : ℕ
  monthsPresentByCode : List (String × ℕ)
  isPartial : Bool
  nullReason : List (String × List (String × String))

/-- The series that a code stands for: of several, the last. -/
def namedSeries (series : List MoneySeries) (s : MoneySeries) : MoneySeries :=
  (series.reverse.find? (fun t ↦ t.code = s.code)).getD s

def annualCells (series : List MoneySeries) (y : ℤ) : List (String × AnnualCell) :=
  series.map (fun s ↦ (s.code, annualCell (namedSeries series s) y))

def annualRow (series : List MoneySeries) (y : ℤ) : AnnualRow :=
  let cells := annualCells series y
  let column {α : Type} (f : AnnualCell → α) : List (String × α) := cells.map (fun c ↦ (c.1, f c.2))
  let present := ((column AnnualCell.monthsPresent).lookup codeLiquidity).getD 0
  { year := y
    endValue := column AnnualCell.endValue
    endGrowthPct := column AnnualCell.endGrowthPct
    avgValue := if cells.any (fun c ↦ c.2.averaged) then some (column AnnualCell.avgValue) else none
    avgGrowthPct :=
      if cells.any (fun c ↦ c.2.grown) then some (column AnnualCell.avgGrowthPct) else none
    monthsPresent := present
    monthsPresentByCode := column AnnualCell.monthsPresent
    isPartial := present < 12
    nullReason := (column AnnualCell.reasons).filter (fun c ↦ c.2 ≠ []) }

def buildAnnual (series : List MoneySeries) : List AnnualRow :=
  let years := (series.flatMap MoneySeries.points).map (fun p ↦ monthYear p.month)
  match years.min?, years.max? with
  | some minY, some maxY => (Int.range minY (maxY + 1)).map (annualRow series)
  | _, _ => []

end Annual

end TalaPala.Liquidity.Aggregates
