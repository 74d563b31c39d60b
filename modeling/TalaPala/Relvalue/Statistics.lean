import TalaPala.Relvalue.Conversion
import TalaPala.Library.CivilDate
import Mathlib.Tactic.Ring

namespace TalaPala.Relvalue

open Library

def floorDay (t : Instant) : Date := t / 86400000000 + 719163

structure Window where
  start : Option Instant
  stop : Instant

def Window.Holds (w : Window) (day : Date) : Prop :=
  (∀ t ∈ w.start, floorDay t ≤ day) ∧ day ≤ floorDay w.stop

instance (w : Window) (day : Date) : Decidable (w.Holds day) :=
  inferInstanceAs (Decidable (_ ∧ _))

def DailySeries.slice (s : DailySeries) (w : Window) : DailySeries where
  points := s.points.filter (fun p ↦ w.Holds p.day)
  ascending := s.ascending.filter _

def DailySeries.first (s : DailySeries) : Option DailyPoint := s.points.head?

def DailySeries.last (s : DailySeries) : Option DailyPoint := s.points.getLast?

def totalReturnPct (s : DailySeries) : Option ℚ :=
  match s.points with
  | [] | [_] => none
  | first :: second :: rest =>
    let last := (second :: rest).getLast (List.cons_ne_nil _ _)
    if first.close ≤ 0 then none else some ((last.close / first.close - 1) * 100)

section Volatility

variable (log sqrt : ℚ → ℚ)

def logReturns : List DailyPoint → List ℚ
  | prev :: cur :: rest =>
    if prev.close ≤ 0 ∨ cur.close ≤ 0 then logReturns (cur :: rest)
    else log (cur.close / prev.close) :: logReturns (cur :: rest)
  | _ => []

def observationVolatilityPct (s : DailySeries) : Option ℚ :=
  let rets := logReturns log s.points
  if rets.length < 2 then none
  else
    let mean := rets.sum / rets.length
    let ss := (rets.map (fun r ↦ (r - mean) * (r - mean))).sum
    some (sqrt (ss / (rets.length - 1)) * 100)

end Volatility

def nonAdjacentSteps : List DailyPoint → ℕ
  | prev :: cur :: rest =>
    nonAdjacentSteps (cur :: rest) + if 1 < cur.day - prev.day then 1 else 0
  | _ => 0

structure Fall where
  pct : ℚ
  peak : Date
  trough : Date

structure DrawdownScan where
  peak : Option DailyPoint
  fall : Option Fall

def DrawdownScan.worst (scan : DrawdownScan) : ℚ := scan.fall.elim 0 Fall.pct

def DrawdownScan.step (scan : DrawdownScan) (p : DailyPoint) : DrawdownScan :=
  if p.close ≤ 0 then scan
  else
    let peak := scan.peak.elim p (fun peak ↦ if peak.close < p.close then p else peak)
    let d := (p.close / peak.close - 1) * 100
    { peak := some peak
      fall := if d < scan.worst then some ⟨d, peak.day, p.day⟩ else scan.fall }

inductive DrawdownNote
  | tooFew
  | noPositiveClose
  | neverBelow
  | recovered (pct : ℚ) (peak trough day : Date) (peakIsFirst : Bool)
  | underWater (pct : ℚ) (peak trough : Date) (days : ℤ) (peakIsFirst : Bool)

structure DrawdownResult where
  maxPct : Option ℚ := none
  peakDate : Option Date := none
  troughDate : Option Date := none
  recoveredDate : Option Date := none
  recoveryDays : Option ℤ := none
  underwaterDays : Option ℤ := none
  stillUnderwater : Bool := false
  currentPct : Option ℚ := none
  note : DrawdownNote

def drawdownOf (points : List DailyPoint) (first last : DailyPoint) (fall : Fall) :
    DrawdownResult :=
  let peakClose := ((points.find? (fun p ↦ p.day = fall.peak)).map DailyPoint.close).getD 0
  let runPeak := points.foldl (fun peak p ↦ max peak p.close) first.close
  let currentPct := if 0 < runPeak then some ((last.close / runPeak - 1) * 100) else none
  let peakIsFirst := decide (fall.peak = first.day)
  match points.find? (fun p ↦ fall.trough < p.day ∧ peakClose ≤ p.close) with
  | some p =>
    { maxPct := some fall.pct
      peakDate := some fall.peak
      troughDate := some fall.trough
      recoveredDate := some p.day
      recoveryDays := some (p.day - fall.trough)
      underwaterDays := some (p.day - fall.peak)
      currentPct := currentPct
      note := .recovered fall.pct fall.peak fall.trough p.day peakIsFirst }
  | none =>
    { maxPct := some fall.pct
      peakDate := some fall.peak
      troughDate := some fall.trough
      underwaterDays := some (last.day - fall.peak)
      stillUnderwater := true
      currentPct := currentPct
      note := .underWater fall.pct fall.peak fall.trough (last.day - fall.peak) peakIsFirst }

def computeDrawdown (s : DailySeries) : DrawdownResult :=
  match s.points with
  | [] | [_] => { note := .tooFew }
  | first :: second :: rest =>
    let scan := s.points.foldl DrawdownScan.step ⟨none, none⟩
    match scan.peak, scan.fall with
    | none, _ => { note := .noPositiveClose }
    | some _, none => { maxPct := some 0, currentPct := some 0, note := .neverBelow }
    | some _, some fall =>
      drawdownOf s.points first ((second :: rest).getLast (List.cons_ne_nil _ _)) fall

structure CpiYear where
  year : ℤ
  value : ℚ
  vintage : ℕ

structure CpiMonth where
  start : Date
  stop : Date
  label : String
  value : ℚ
  vintage : ℕ

def cpiSeriesCode : String := "WB_CPI_IRN"

def sciCPISeriesCode : String := "SCI_CPI_URBAN"

def yearStart (year : ℤ) : Date := (Civil.mk year 1 1).ordinal

def januaryAnchor (s : DailySeries) (year : ℤ) : Option DailyPoint :=
  (s.points.find? (fun p ↦ yearStart year ≤ p.day)).filter
    (fun p ↦ p.day < (Civil.mk year 2 1).ordinal)

def periodAnchor (s : DailySeries) (m : CpiMonth) : Option (DailyPoint × ℤ) :=
  ((s.points.find? (fun p ↦ m.start ≤ p.day)).filter (fun p ↦ p.day ≤ m.stop)).map
    (fun p ↦ (p, p.day - m.start))

inductive RealNote
  | noDeflator (series : String)
  | tooFewYears (coverage : ℤ) (start stop : Date) (anchors : ℕ)
  | tooFewMonths (coverage : String) (coverageStart start stop : Date) (anchors : ℕ)
  | years (start stop : Date) (coverage : ℤ) (a b : CpiYear) (deflator : ℚ) (skewDays : ℤ)
  | months (start stop : Date) (coverage : String) (a b : CpiMonth) (deflator : ℚ)
      (deflatorDays skewDays : ℤ)
  | annualInstead (monthly annual : RealNote)
  | bothDeclined (monthly annual : RealNote)

structure RealReturnResult where
  pct : Option ℚ := none
  start : Option Date := none
  stop : Option Date := none
  note : RealNote

def deflatedPct (a b : DailyPoint) (deflator : ℚ) : ℚ :=
  ((1 + (b.close / a.close - 1)) / deflator - 1) * 100

def realReturn (s : DailySeries) (cpi : List CpiYear) (start stop : Date) : RealReturnResult :=
  match cpi.getLast? with
  | none => { note := .noDeflator cpiSeriesCode }
  | some coverage =>
    let anchors := cpi.filterMap (fun y ↦ (januaryAnchor s y.year).bind (fun p ↦
      if p.day < start ∨ stop < p.day ∨ p.close ≤ 0 ∨ y.value ≤ 0 then none else some (y, p)))
    match anchors with
    | a :: second :: rest =>
      let b := (second :: rest).getLast (List.cons_ne_nil _ _)
      let deflator := b.1.value / a.1.value
      -- An anchor is in its January, so the same day of January years later is
      -- as far from the start of that year.
      let skewDays := b.2.day - (yearStart b.1.year + (a.2.day - yearStart a.1.year))
      { pct := some (deflatedPct a.2 b.2 deflator)
        start := some a.2.day
        stop := some b.2.day
        note := .years a.2.day b.2.day coverage.year a.1 b.1 deflator skewDays }
    | few => { note := .tooFewYears coverage.year start stop few.length }

def realReturnMonthly (s : DailySeries) (cpi : List CpiMonth) (start stop : Date) :
    RealReturnResult :=
  match cpi.getLast? with
  | none => { note := .noDeflator sciCPISeriesCode }
  | some coverage =>
    let anchors := cpi.filterMap (fun m ↦ (periodAnchor s m).bind (fun (p, off) ↦
      if p.day < start ∨ stop < p.day ∨ p.close ≤ 0 then none else some (m, p, off)))
    match anchors with
    | a :: second :: rest =>
      let b := (second :: rest).getLast (List.cons_ne_nil _ _)
      let deflator := b.1.value / a.1.value
      { pct := some (deflatedPct a.2.1 b.2.1 deflator)
        start := some a.2.1.day
        stop := some b.2.1.day
        note := .months a.2.1.day b.2.1.day coverage.label a.1 b.1 deflator
          (b.1.start - a.1.start) (b.2.2 - a.2.2) }
    | few => { note := .tooFewMonths coverage.label coverage.start start stop few.length }

theorem mem_slice {s : DailySeries} {w : Window} {p : DailyPoint} :
    p ∈ (s.slice w).points ↔ p ∈ s.points ∧ w.Holds p.day := by
  rw [DailySeries.slice, List.mem_filter, decide_eq_true_eq]

theorem totalReturnPct_eq_some {s : DailySeries} {r : ℚ} (h : totalReturnPct s = some r) :
    ∃ first last, s.first = some first ∧ s.last = some last ∧ 0 < first.close ∧
      1 + r / 100 = last.close / first.close := by
  obtain ⟨points, hasc⟩ := s
  match points with
  | [] | [_] => cases h
  | first :: second :: rest =>
    simp only [totalReturnPct] at h
    split at h
    · cases h
    · rename_i hpos
      refine ⟨first, _, rfl, List.getLast?_eq_some_getLast (List.cons_ne_nil _ _),
        not_le.mp hpos, ?_⟩
      rw [← Option.some.inj h, List.getLast_cons_cons]
      ring

end TalaPala.Relvalue
