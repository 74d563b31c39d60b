import Mathlib.Data.Rat.Sqrt
import TalaPala.Forecast.FeatureCells

namespace TalaPala.Forecast.Valued

open Library Cells

variable {C : Type*} [Cells C]

structure Exog (C : Type*) where
  usdIrt : Option (List (ℤ × C))
  xauUsd : Option (List (ℤ × C))
  goldFund : Option (List (ℤ × C))
  fundFlow : Option (List (ℤ × C))

structure Frame (C : Type*) where
  index : List ℤ
  columns : List (String × List C)

section Exogenous

open Column

def align (aux : List (ℤ × C)) : Column C :=
  .ofEntry (fun bar ↦
    ((aux.filter (fun p ↦ p.1 ≤ bar.time && !isNaN p.2)).getLast?).elim nan Prod.snd)

def aligned (aux : Option (List (ℤ × C))) : Option (Column C) :=
  (aux.filter (!·.isEmpty)).map align

def rollingCorr (window : ℕ) (s t : Column C) : Column C :=
  (s.map₂ Prod.mk t).andThen (along (fun before ↦
    let seen := (newest window before).filter (fun (x, y) ↦ !isNaN x && !isNaN y)
    if seen.length < window then nan else corr seen)) (isCausal_along _)

def logReturn (s : Column C) : Column C := diff 1 (s.map log)

def zScore (s : Column C) : Column C :=
  (s - rolling 30 mean s) / (rolling 30 std s).map replaceZero

def theoretical (usd xau : Column C) : Column C :=
  xau / num (311034768 / 10000000) * usd * num (3 / 4)

def premium (close usd xau : Column C) : Column C :=
  (close - theoretical usd xau) / theoretical usd xau * num 100

def usdColumns (usd : Column C) : List (String × Column C) :=
  [("usd_irt", usd), ("usd_ret_1", pctChange 1 usd), ("usd_ret_5", pctChange 5 usd)]

def xauColumns (close xau : Column C) : List (String × Column C) :=
  [("xau_usd", xau), ("xau_ret_1", pctChange 1 xau), ("xau_ret_5", pctChange 5 xau),
    ("corr_xau_20", rollingCorr 20 (logReturn close) (logReturn xau))]

def premiumColumns (close usd xau : Column C) : List (String × Column C) :=
  [("theoretical_18k", theoretical usd xau), ("premium_pct", premium close usd xau),
    ("premium_z_30", zScore (premium close usd xau)),
    ("premium_mom_5", diff 5 (premium close usd xau))]

def fundColumns (close fund : Column C) : List (String × Column C) :=
  [("fund_ret_1", pctChange 1 fund), ("fund_ret_5", pctChange 5 fund),
    ("fund_ratio_z_30", zScore (fund / close))]

def flowColumns (flow : Column C) : List (String × Column C) :=
  [("fund_flow", flow), ("fund_flow_ma5", rolling 5 mean flow), ("fund_flow_chg_5", diff 5 flow)]

def exogColumns (close : Column C) (exog : Exog C) : List (String × Column C) :=
  let usd := aligned exog.usdIrt
  let xau := aligned exog.xauUsd
  usd.elim [] usdColumns ++ xau.elim [] (xauColumns close) ++
    usd.elim [] (fun usd ↦ xau.elim [] (premiumColumns close usd)) ++
    (aligned exog.goldFund).elim [] (fundColumns close) ++ (aligned exog.fundFlow).elim [] flowColumns

end Exogenous

section Matrix

def frameColumns (index : List ℤ) (exog : Exog C) (barSpacing : Option Spacing)
    (minHistory : Option ℕ) : List (String × Column C) :=
  Column.priceColumns Column.price ++ Column.dailyTrendStack Column.price index barSpacing minHistory ++
    Column.calendarColumns Column.price ++ exogColumns Column.price exog

def frameOf (bars : List (Bar C)) (columns : List (String × Column C)) : Frame C where
  index := bars.map Bar.time
  columns := columns.map (fun (name, column) ↦ (name, column.toFun bars))

def computeFeatureFrame (gold : List (Bar C)) (exog : Exog C) (barSpacing : Option Spacing)
    (minHistory : Option ℕ) : Frame C :=
  frameOf gold (frameColumns (gold.map Bar.time) exog barSpacing minHistory)

def Frame.head (frame : Frame C) (n : ℕ) : Frame C :=
  ⟨frame.index.take n, frame.columns.map (fun (name, cells) ↦ (name, cells.take n))⟩

def Frame.drop (frame : Frame C) (names : List String) : Frame C :=
  ⟨frame.index, frame.columns.filter (fun (name, _) ↦ !names.contains name)⟩

structure Context (C : Type*) where
  exog : Exog C
  barSpacing : Option Spacing
  minHistory : Option ℕ
  prebuilt : Option (Frame C)

def pit (cutoff : Option ℤ) (aux : Option (List (ℤ × C))) : Option (List (ℤ × C)) :=
  match aux, cutoff with
  | some aux, some cutoff =>
    let cut := aux.filter (fun p ↦ p.1 ≤ cutoff)
    if cut.isEmpty then none else some cut
  | _, _ => none

/-- Length, position and label agree, so the frame is sliced instead of built again. -/
def Frame.serves (cached : Frame C) (index : List ℤ) : Bool :=
  decide (index ≠ []) && decide (index.length ≤ cached.index.length) &&
    decide (cached.index[index.length - 1]? = index.getLast?)

def featureMatrix (series : List (Bar C)) (context : Context C) : Frame C :=
  let index := series.map Bar.time
  match context.prebuilt.filter (·.serves index) with
  | some cached => cached.head series.length
  | none =>
    let pit := pit index.getLast?
    (computeFeatureFrame series
      ⟨pit context.exog.usdIrt, pit context.exog.xauUsd, pit context.exog.goldFund,
        pit context.exog.fundFlow⟩ context.barSpacing context.minHistory).drop dropCols

def Exog.isAbsent (exog : Exog C) : Bool :=
  exog.usdIrt.isNone && exog.xauUsd.isNone && exog.goldFund.isNone && exog.fundFlow.isNone

def predictionContext (series : List (Bar C)) (context : Context C) : Context C :=
  if !context.exog.isAbsent then context
  else if series.isEmpty then context
  else { context with prebuilt := some (featureMatrix series context) }

end Matrix

section Folds

inductive Estimated (α : Type*)
  | value (a : α)
  | failed (why : String)
  | unavailable (why : String)

def Estimated.bind {α β : Type*} (x : Estimated α) (f : α → Estimated β) : Estimated β :=
  match x with
  | .value a => f a
  | .failed why => .failed why
  | .unavailable why => .unavailable why

structure TabularModel (C : Type*) where
  fit : List (List C × C) → Estimated (List C → Estimated C)
  minRows : ℕ

def Frame.row (frame : Frame C) (i : ℕ) : List C :=
  frame.columns.map (fun (_, cells) ↦ cells.getD i nan)

/-- `close.shift(-horizon)`. -/
def ahead (horizon : ℕ) (close : List C) : List C :=
  close.drop horizon ++ List.replicate (min horizon close.length) nan

variable (model : TabularModel C) (horizon : ℕ)

def TabularModel.fitPredict (series : List (Bar C)) (context : Context C) : Estimated C :=
  match (series.map Bar.close).getLast? with
  | none => .failed "single positional indexer is out-of-bounds"
  | some lastClose =>
    let features := featureMatrix series context
    let close := series.map Bar.close
    let target := List.zipWith (fun later now ↦ log (later / now)) (ahead horizon close) close
    let rows := (List.range series.length).map (fun i ↦ (features.row i, target.getD i nan))
    let train := rows.filter (fun (row, y) ↦ (y :: row).all (!isNaN ·))
    let point : C → C := fun logret ↦ lastClose * exp logret
    if train.length < model.minRows then .value (point (lit 0))
    else
      let last := features.row (series.length - 1)
      (model.fit train).bind (fun predict ↦
        if last.any isNaN then .value (point (lit 0))
        else (predict last).bind (fun logret ↦
          .value (point (if isFinite logret then logret else lit 0))))

structure ChunkResult (C : Type*) where
  preds : List (ℕ × C)
  unavailable : Option String
  failures : List (ℕ × String)

def fitFolds (series : List (Bar C)) (context : Context C) (preds : List (ℕ × C))
    (failures : List (ℕ × String)) : List ℕ → ChunkResult C
  | [] => ⟨preds, none, failures⟩
  | i :: rest =>
    match model.fitPredict horizon (series.take (i + 1)) context with
    | .unavailable why => ⟨[], some why, failures⟩
    | .failed why => fitFolds series context preds (failures ++ [(i, why)]) rest
    | .value pred =>
      fitFolds series context (if isFinite pred then preds ++ [(i, pred)] else preds) failures rest

def fitFoldChunk (series : List (Bar C)) (indices : List ℕ) (context : Context C) :
    ChunkResult C :=
  fitFolds model horizon series (predictionContext series context) [] [] indices

end Folds

section Names

theorem names_priceColumns (close : Column C) :
    (Column.priceColumns close).map Prod.fst = Forecast.priceColumns := rfl

theorem names_calendarColumns (close : Column C) :
    (Column.calendarColumns close).map Prod.fst = Forecast.calendarColumns := rfl

theorem names_dailyTrendStack (close : Column C) (index : List ℤ) (barSpacing : Option Spacing)
    (minHistory : Option ℕ) :
    (Column.dailyTrendStack close index barSpacing minHistory).map Prod.fst =
      Forecast.dailyTrendStack index barSpacing minHistory := by
  unfold Column.dailyTrendStack Forecast.dailyTrendStack
  dsimp only
  split_ifs <;> rfl

theorem names_exogColumns (close : Column C) (exog : Exog C) :
    (exogColumns close exog).map Prod.fst =
      (if (aligned exog.usdIrt).isSome then ["usd_irt", "usd_ret_1", "usd_ret_5"] else []) ++
        (if (aligned exog.xauUsd).isSome then ["xau_usd", "xau_ret_1", "xau_ret_5", "corr_xau_20"]
          else []) ++
        (if (aligned exog.usdIrt).isSome && (aligned exog.xauUsd).isSome then
          ["theoretical_18k", "premium_pct", "premium_z_30", "premium_mom_5"] else []) ++
        (if (aligned exog.goldFund).isSome then ["fund_ret_1", "fund_ret_5", "fund_ratio_z_30"]
          else []) ++
        (if (aligned exog.fundFlow).isSome then ["fund_flow", "fund_flow_ma5", "fund_flow_chg_5"]
          else []) := by
  unfold exogColumns
  cases aligned exog.usdIrt <;> cases aligned exog.xauUsd <;> cases aligned exog.goldFund <;>
    cases aligned exog.fundFlow <;> rfl

theorem names_frameColumns (index : List ℤ) (exog : Exog C) (barSpacing : Option Spacing)
    (minHistory : Option ℕ) :
    (frameColumns index exog barSpacing minHistory).map Prod.fst =
      Forecast.frameColumns (Forecast.dailyTrendStack index barSpacing minHistory)
        (aligned exog.usdIrt).isSome (aligned exog.xauUsd).isSome
        (aligned exog.goldFund).isSome (aligned exog.fundFlow).isSome := by
  unfold frameColumns Forecast.frameColumns
  rw [List.map_append, List.map_append, List.map_append, names_priceColumns, names_dailyTrendStack,
    names_calendarColumns, names_exogColumns]
  simp only [List.append_assoc]

end Names

section Prefix

omit [Cells C] in
theorem frameOf_take (bars : List (Bar C)) (columns : List (String × Column C)) (n : ℕ) :
    frameOf (bars.take n) columns = (frameOf bars columns).head n := by
  rw [frameOf, frameOf, Frame.head, List.map_take, List.map_map]
  refine congrArg (Frame.mk _) (List.map_congr_left (fun p _ ↦ ?_))
  exact Prod.ext rfl (p.2.isCausal.take bars n)

omit [Cells C] in
theorem head_drop (frame : Frame C) (names : List String) (n : ℕ) :
    (frame.drop names).head n = (frame.head n).drop names := by
  rw [Frame.drop, Frame.drop, Frame.head, Frame.head, List.filter_map]
  rfl

theorem featureMatrix_fresh {context : Context C} (habsent : context.exog.isAbsent)
    (hfresh : context.prebuilt = none) (bars : List (Bar C)) :
    featureMatrix bars context =
      (computeFeatureFrame bars context.exog context.barSpacing context.minHistory).drop dropCols := by
  obtain ⟨⟨usdIrt, xauUsd, goldFund, fundFlow⟩, spacing, minHistory, prebuilt⟩ := context
  simp only [Exog.isAbsent, Bool.and_eq_true, Option.isNone_iff_eq_none] at habsent
  obtain ⟨⟨⟨rfl, rfl⟩, rfl⟩, rfl⟩ := habsent
  cases hfresh
  rfl

theorem featureMatrix_take {context : Context C} (habsent : context.exog.isAbsent)
    (hspacing : context.barSpacing.isSome) (hfresh : context.prebuilt = none)
    (bars : List (Bar C)) (n : ℕ) :
    featureMatrix (bars.take n) context = (featureMatrix bars context).head n := by
  obtain ⟨spacing, hdeclared⟩ := Option.isSome_iff_exists.mp hspacing
  rw [featureMatrix_fresh habsent hfresh, featureMatrix_fresh habsent hfresh, head_drop,
    computeFeatureFrame, computeFeatureFrame, ← frameOf_take, hdeclared]
  rfl

theorem featureMatrix_prebuilt (context : Context C) (cached : Frame C) (bars : List (Bar C)) :
    featureMatrix bars { context with prebuilt := some cached } =
      if cached.serves (bars.map Bar.time) then cached.head bars.length
      else featureMatrix bars { context with prebuilt := none } := by
  unfold featureMatrix
  dsimp only
  rw [Option.filter_some]
  split_ifs <;> rfl

theorem featureMatrix_shared {context : Context C} (habsent : context.exog.isAbsent)
    (hspacing : context.barSpacing.isSome) (hfresh : context.prebuilt = none)
    (bars : List (Bar C)) (n : ℕ) :
    featureMatrix (bars.take n) (predictionContext bars context) =
      featureMatrix (bars.take n) context := by
  have hplain : { context with prebuilt := none } = context := by rw [← hfresh]
  unfold predictionContext
  split_ifs
  · rfl
  · rfl
  · rw [featureMatrix_prebuilt, hplain]
    split_ifs
    · rw [← featureMatrix_take habsent hspacing hfresh, List.length_take, ← List.take_eq_take_min]
    · rfl

theorem fitPredict_congr (model : TabularModel C) (horizon : ℕ) {series : List (Bar C)}
    {context context' : Context C}
    (h : featureMatrix series context = featureMatrix series context') :
    model.fitPredict horizon series context = model.fitPredict horizon series context' := by
  rw [TabularModel.fitPredict, TabularModel.fitPredict, h]

theorem fitFolds_congr (model : TabularModel C) (horizon : ℕ) {bars : List (Bar C)}
    {context context' : Context C}
    (h : ∀ n, featureMatrix (bars.take n) context = featureMatrix (bars.take n) context')
    (preds : List (ℕ × C)) (failures : List (ℕ × String)) (indices : List ℕ) :
    fitFolds model horizon bars context preds failures indices =
      fitFolds model horizon bars context' preds failures indices := by
  induction indices generalizing preds failures with
  | nil => rfl
  | cons i rest ih =>
    rw [fitFolds, fitFolds, fitPredict_congr model horizon (h (i + 1))]
    cases model.fitPredict horizon (bars.take (i + 1)) context' with
    | value pred => exact ih _ _
    | failed why => exact ih _ _
    | unavailable why => rfl

/-- Sharing a frame changes no frame of a fold and no forecast of a chunk, and no cell depends on
a bar that comes later. -/
theorem shared_frame {context : Context C} (habsent : context.exog.isAbsent)
    (hspacing : context.barSpacing.isSome) (hfresh : context.prebuilt = none)
    (bars : List (Bar C)) :
    (∀ n, featureMatrix (bars.take n) (predictionContext bars context) =
        featureMatrix (bars.take n) context) ∧
      (∀ (model : TabularModel C) (horizon : ℕ) (indices : List ℕ),
        fitFoldChunk model horizon bars indices context =
          fitFolds model horizon bars context [] [] indices) ∧
      ∀ later, (featureMatrix (bars ++ later) context).head bars.length =
        featureMatrix bars context := by
  have hshared := featureMatrix_shared habsent hspacing hfresh bars
  refine ⟨hshared, fun model horizon ↦ fitFolds_congr model horizon hshared [] [], fun later ↦ ?_⟩
  rw [← featureMatrix_take habsent hspacing hfresh, List.take_left]

end Prefix

section Exact

structure Exact where
  value : Option ℚ
deriving DecidableEq

def Exact.lift₂ (f : ℚ → ℚ → Option ℚ) (x y : Exact) : Exact :=
  ⟨x.value.bind (fun x ↦ y.value.bind (f x))⟩

def Exact.compare (f : ℚ → ℚ → Bool) (x y : Exact) : Bool :=
  x.value.any (fun x ↦ y.value.any (f x))

/-- Logarithm, exponential and skewness where they are rational on a level series. -/
instance : Cells Exact where
  add := Exact.lift₂ (fun x y ↦ some (x + y))
  sub := Exact.lift₂ (fun x y ↦ some (x - y))
  mul := Exact.lift₂ (fun x y ↦ some (x * y))
  div := Exact.lift₂ (fun x y ↦ if y = 0 then none else some (x / y))
  neg x := ⟨x.value.map (- ·)⟩
  nan := ⟨none⟩
  isNaN x := x.value.isNone
  isFinite x := x.value.isSome
  lt := Exact.compare (fun x y ↦ decide (x < y))
  eq := Exact.compare (fun x y ↦ decide (x = y))
  lit q := ⟨some q⟩
  sqrt x := ⟨x.value.filter (fun q ↦ Rat.sqrt q * Rat.sqrt q = q) |>.map Rat.sqrt⟩
  log x := ⟨x.value.bind (fun q ↦ if q = 1 then some 0 else none)⟩
  exp x := ⟨x.value.bind (fun q ↦ if q = 0 then some 1 else none)⟩
  skew xs := ⟨if xs.all (· = xs.headD ⟨none⟩) then some 0 else none⟩
  corr _ := ⟨none⟩

def levelDays : List (Bar Exact) := [⟨0, ⟨some 100⟩⟩, ⟨86400, ⟨some 100⟩⟩, ⟨172800, ⟨some 100⟩⟩]

def declared : Context Exact := ⟨⟨none, none, none, none⟩, some .daily, some 250, none⟩

theorem levelDays_share :
    (∀ n, featureMatrix (levelDays.take n) (predictionContext levelDays declared) =
        featureMatrix (levelDays.take n) declared) ∧
      (predictionContext levelDays declared).prebuilt.isSome := by
  refine ⟨(shared_frame ?_ ?_ ?_ levelDays).1, ?_⟩
  · rfl
  · rfl
  · rfl
  · rfl

end Exact

end TalaPala.Forecast.Valued
