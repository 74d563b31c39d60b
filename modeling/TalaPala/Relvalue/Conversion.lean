import TalaPala.Clock
import TalaPala.Library.AsOf
import Mathlib.Algebra.Order.Ring.Rat

namespace TalaPala.Relvalue

open Library List

structure DailyPoint where
  day : Date
  close : ℚ
  deriving DecidableEq

structure DailySeries where
  points : List DailyPoint
  ascending : AscendingBy DailyPoint.day points

def DailySeries.empty : DailySeries where
  points := []
  ascending := .nil

inductive ConvOp
  | divide
  | multiply

structure ConvStep where
  series : String
  op : ConvOp

def ConvOp.apply : ConvOp → ℚ → ℚ → ℚ
  | .divide, close, rate => close / rate
  | .multiply, close, rate => close * rate

structure Carried where
  points : List DailyPoint
  noPriorQuote : ℕ
  nonPositiveQuote : ℕ
  carriedForward : ℕ

/-- The merge walk of `applyStep`. Exact values are finite, so the branch that
counts a non-finite one has no counterpart. -/
def walk (op : ConvOp) : Cursor DailyPoint → List DailyPoint → Carried
  | _, [] => ⟨[], 0, 0, 0⟩
  | cursor, a :: asset =>
    let reached := advance DailyPoint.day a.day cursor.passed cursor.ahead
    let rest := walk op reached asset
    match reached.passed with
    | none => { rest with noPriorQuote := rest.noPriorQuote + 1 }
    | some rate =>
      if rate.close ≤ 0 then { rest with nonPositiveQuote := rest.nonPositiveQuote + 1 }
      else
        { rest with
          points := ⟨a.day, op.apply a.close rate.close⟩ :: rest.points
          carriedForward := rest.carriedForward + if rate.day = a.day then 0 else 1 }

theorem walk_days (op : ConvOp) (cursor : Cursor DailyPoint) (asset : List DailyPoint) :
    ((walk op cursor asset).points.map DailyPoint.day).Sublist (asset.map DailyPoint.day) := by
  induction asset generalizing cursor with
  | nil => exact .slnil
  | cons a asset ih =>
    rw [walk]
    split
    · exact (ih _).cons _
    · split
      · exact (ih _).cons _
      · exact (ih _).cons_cons _

structure Conversion where
  points : DailySeries
  noPriorQuote : ℕ
  nonPositiveQuote : ℕ
  carriedForward : ℕ
  missingSeries : String

/-- Each asset day takes the last close of `num` at or before it. -/
def applyStep (asset num : DailySeries) (op : ConvOp) : Conversion where
  points :=
    { points := (walk op (Cursor.start num.points) asset.points).points
      ascending := pairwise_map.mp
        ((pairwise_map.mpr asset.ascending).sublist (walk_days op _ asset.points)) }
  noPriorQuote := (walk op (Cursor.start num.points) asset.points).noPriorQuote
  nonPositiveQuote := (walk op (Cursor.start num.points) asset.points).nonPositiveQuote
  carriedForward := (walk op (Cursor.start num.points) asset.points).carriedForward
  missingSeries := ""

abbrev Sources := String → Option DailySeries

def Sources.series (sources : Sources) (code : String) : DailySeries :=
  (sources code).getD DailySeries.empty

def convertFrom (sources : Sources) : Conversion → List ConvStep → Conversion
  | out, [] => out
  | out, step :: steps =>
    let num := sources.series step.series
    if num.points.isEmpty then
      { points := DailySeries.empty
        noPriorQuote := out.noPriorQuote + out.points.points.length
        nonPositiveQuote := out.nonPositiveQuote
        carriedForward := out.carriedForward
        missingSeries := step.series }
    else
      let stepped := applyStep out.points num step.op
      convertFrom sources
        { points := stepped.points
          noPriorQuote := out.noPriorQuote + stepped.noPriorQuote
          nonPositiveQuote := out.nonPositiveQuote + stepped.nonPositiveQuote
          carriedForward := out.carriedForward + stepped.carriedForward
          missingSeries := "" } steps

def convertSeries (asset : DailySeries) (steps : List ConvStep) (sources : Sources) : Conversion :=
  convertFrom sources
    { points := asset
      noPriorQuote := 0
      nonPositiveQuote := 0
      carriedForward := 0
      missingSeries := "" } steps

def DailySeries.rateAt (num : DailySeries) (day : Date) : Option ℚ :=
  ((asOf DailyPoint.day num.points day).map DailyPoint.close).filter (fun close ↦ 0 < close)

def convertClose (sources : Sources) (day : Date) : List ConvStep → ℚ → Option ℚ
  | [], close => some close
  | step :: steps, close =>
    ((sources.series step.series).rateAt day).bind
      (fun rate ↦ convertClose sources day steps (step.op.apply close rate))

theorem walk_spec {num asset : List DailyPoint} (hnum : AscendingBy DailyPoint.day num)
    (hasset : AscendingBy DailyPoint.day asset) (op : ConvOp) {cursor : Cursor DailyPoint}
    (hcursor : ∀ a ∈ asset, cursor.Within DailyPoint.day num a.day) :
    (walk op cursor asset).points = asset.filterMap (fun a ↦
      ((DailySeries.mk num hnum).rateAt a.day).map
        (fun rate ↦ ⟨a.day, op.apply a.close rate⟩)) ∧
    (walk op cursor asset).noPriorQuote + (walk op cursor asset).nonPositiveQuote +
      (walk op cursor asset).points.length = asset.length := by
  induction asset generalizing cursor with
  | nil => exact ⟨rfl, rfl⟩
  | cons a asset ih =>
    obtain ⟨hlater, hrest⟩ := pairwise_cons.mp hasset
    obtain ⟨hpassed, hwithin⟩ := (hcursor a mem_cons_self).advance hnum
    obtain ⟨hpoints, hcount⟩ := ih hrest
      (fun b hb ↦ hwithin.mono (hlater b hb).le)
    rw [walk]
    rw [filterMap_cons, DailySeries.rateAt, ← hpassed]
    split
    · rename_i hnone
      rw [hnone]
      exact ⟨hpoints, by simp only [length_cons]; omega⟩
    · rename_i rate hrate
      rw [hrate]
      split
      · rename_i hle
        simp only [Option.map_some, Option.filter_some, decide_eq_true_eq, not_lt.mpr hle,
          if_false, Option.map_none]
        exact ⟨hpoints, by simp only [length_cons]; omega⟩
      · rename_i hpos
        simp only [Option.map_some, Option.filter_some, decide_eq_true_eq, not_le.mp hpos, if_true]
        exact ⟨by rw [hpoints], by simp only [length_cons]; omega⟩

theorem applyStep_spec (asset num : DailySeries) (op : ConvOp) :
    (applyStep asset num op).points.points = asset.points.filterMap (fun a ↦
      (num.rateAt a.day).map (fun rate ↦ ⟨a.day, op.apply a.close rate⟩)) ∧
    (applyStep asset num op).noPriorQuote + (applyStep asset num op).nonPositiveQuote +
      (applyStep asset num op).points.points.length = asset.points.length :=
  walk_spec num.ascending asset.ascending op (fun a _ ↦ within_start num.points a.day)

theorem rateAt_eq_none_of_isEmpty {num : DailySeries} (h : num.points.isEmpty = true) (day : Date) :
    num.rateAt day = none := by
  rw [DailySeries.rateAt, List.isEmpty_iff.mp h]
  rfl

theorem convertFrom_points (sources : Sources) (out : Conversion) (steps : List ConvStep) :
    (convertFrom sources out steps).points.points = out.points.points.filterMap (fun a ↦
      (convertClose sources a.day steps a.close).map (DailyPoint.mk a.day)) := by
  induction steps generalizing out with
  | nil => exact (filterMap_some).symm
  | cons step steps ih =>
    rw [convertFrom]
    split
    · rename_i hempty
      refine (filterMap_eq_nil_iff.mpr (fun a _ ↦ ?_)).symm
      rw [convertClose, rateAt_eq_none_of_isEmpty hempty]
      rfl
    · rw [ih, (applyStep_spec _ _ _).1, filterMap_filterMap]
      congr 1
      funext a
      rw [convertClose]
      cases ((sources.series step.series).rateAt a.day) with
      | none => rfl
      | some rate => rfl

theorem convertFrom_count (sources : Sources) (out : Conversion) (steps : List ConvStep) :
    (convertFrom sources out steps).noPriorQuote +
      (convertFrom sources out steps).nonPositiveQuote +
      (convertFrom sources out steps).points.points.length =
        out.noPriorQuote + out.nonPositiveQuote + out.points.points.length := by
  induction steps generalizing out with
  | nil => rfl
  | cons step steps ih =>
    rw [convertFrom]
    split
    · simp only [DailySeries.empty, length_nil]
      omega
    · rw [ih]
      have hstep := (applyStep_spec out.points (sources.series step.series) step.op).2
      dsimp only
      omega

theorem convertSeries_points (asset : DailySeries) (steps : List ConvStep) (sources : Sources) :
    (convertSeries asset steps sources).points.points = asset.points.filterMap (fun a ↦
      (convertClose sources a.day steps a.close).map (DailyPoint.mk a.day)) :=
  convertFrom_points sources _ steps

def DailySeries.Rate (num : DailySeries) (day : Date) (rate : ℚ) : Prop :=
  0 < rate ∧ ∃ p ∈ num.points, p.day ≤ day ∧ (∀ q ∈ num.points, q.day ≤ day → q.day ≤ p.day) ∧
    p.close = rate

theorem rateAt_eq_some {num : DailySeries} {day : Date} {rate : ℚ} :
    num.rateAt day = some rate ↔ num.Rate day rate := by
  rw [DailySeries.rateAt, Option.filter_eq_some_iff, decide_eq_true_eq, Option.map_eq_some_iff,
    DailySeries.Rate]
  constructor
  · rintro ⟨⟨p, hp, hclose⟩, hpos⟩
    obtain ⟨hmem, hday, hlatest⟩ := (asOf_eq_some num.ascending).mp hp
    exact ⟨hpos, p, hmem, hday, hlatest, hclose⟩
  · rintro ⟨hpos, p, hmem, hday, hlatest, hclose⟩
    exact ⟨⟨p, (asOf_eq_some num.ascending).mpr ⟨hmem, hday, hlatest⟩, hclose⟩, hpos⟩

def carried : List ConvStep → List ℚ → ℚ → ℚ
  | step :: steps, rate :: rates, close => carried steps rates (step.op.apply close rate)
  | _, _, close => close

theorem convertClose_eq_some {sources : Sources} {day : Date} {steps : List ConvStep}
    {close v : ℚ} :
    convertClose sources day steps close = some v ↔
      ∃ rates, List.Forall₂ (fun step rate ↦ (sources.series step.series).Rate day rate) steps
        rates ∧ v = carried steps rates close := by
  induction steps generalizing close with
  | nil =>
    rw [convertClose, Option.some.injEq]
    constructor
    · rintro rfl
      exact ⟨[], .nil, rfl⟩
    · rintro ⟨rates, hrates, rfl⟩
      cases hrates
      rfl
  | cons step steps ih =>
    rw [convertClose, Option.bind_eq_some_iff]
    constructor
    · rintro ⟨rate, hrate, hrest⟩
      obtain ⟨rates, hrates, hv⟩ := ih.mp hrest
      exact ⟨rate :: rates, .cons (rateAt_eq_some.mp hrate) hrates, hv⟩
    · rintro ⟨rates, hrates, hv⟩
      cases hrates with
      | cons hrate hrates => exact ⟨_, rateAt_eq_some.mpr hrate, ih.mpr ⟨_, hrates, hv⟩⟩

def DailySeries.upTo (s : DailySeries) (t : Date) : List DailyPoint :=
  Library.upTo DailyPoint.day s.points t

theorem rateAt_congr {num num' : DailySeries} {t day : Date} (h : num.upTo t = num'.upTo t)
    (hday : day ≤ t) : num.rateAt day = num'.rateAt day := by
  rw [DailySeries.upTo, DailySeries.upTo] at h
  rw [DailySeries.rateAt, ← asOf_upTo num.points hday, h, asOf_upTo num'.points hday,
    ← DailySeries.rateAt]

theorem convertClose_congr {sources sources' : Sources} {t day : Date}
    (h : ∀ code, (sources.series code).upTo t = (sources'.series code).upTo t) (hday : day ≤ t)
    (steps : List ConvStep) (close : ℚ) :
    convertClose sources day steps close = convertClose sources' day steps close := by
  induction steps generalizing close with
  | nil => rfl
  | cons step steps ih =>
    rw [convertClose, convertClose, rateAt_congr (h step.series) hday]
    simp only [ih]

theorem convertSeries_upTo (asset : DailySeries) (steps : List ConvStep) (sources : Sources)
    (t : Date) :
    (convertSeries asset steps sources).points.upTo t = (asset.upTo t).filterMap (fun a ↦
      (convertClose sources a.day steps a.close).map (DailyPoint.mk a.day)) := by
  rw [DailySeries.upTo, convertSeries_points, Library.upTo, filter_filterMap,
    DailySeries.upTo, Library.upTo, filterMap_filter]
  congr 1
  funext a
  by_cases ha : a.day ≤ t
  · cases convertClose sources a.day steps a.close with
    | none => simp
    | some v => simp [ha]
  · cases convertClose sources a.day steps a.close with
    | none => simp
    | some v => simpa [ha] using not_le.mp ha

end TalaPala.Relvalue
