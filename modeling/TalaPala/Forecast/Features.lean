import TalaPala.Forecast.WalkForward
import TalaPala.Library.OrderStatistics
import Mathlib.Data.Finset.Basic

namespace TalaPala.Forecast

open Library List

/-! A series stands here by its index, in seconds: no value of it decides a
column. -/

inductive Spacing
  | daily
  | intraday
  deriving DecidableEq

def dailyBarMinSeconds : ℤ := 20 * 3600

def dailyBarMaxSeconds : ℤ := 72 * 3600

def recentGapSample : ℕ := 64

def walkForwardMinBars : ℕ := 60

def trendMid : ℕ := 48

def trendSlow : ℕ := 220

def gaps (index : List ℤ) : List ℤ := List.zipWith (fun a b ↦ b - a) index index.tail

def recentGaps (index : List ℤ) : List ℤ :=
  (gaps index).drop ((gaps index).length - recentGapSample)

def medianGap (index : List ℤ) : ℚ := median ((recentGaps index).map Int.cast)

def inferBarSpacing (index : List ℤ) : Spacing :=
  if index.length < 2 then .intraday
  else if (recentGaps index).any (· < dailyBarMinSeconds) then .intraday
  else if dailyBarMinSeconds ≤ medianGap index ∧
      medianGap index ≤ dailyBarMaxSeconds then .daily
  else .intraday

/-- The columns that the run can support, of `daily_trend_stack`. -/
def dailyTrendStack (index : List ℤ) (barSpacing : Option Spacing) (minHistory : Option ℕ) :
    List String :=
  if barSpacing.getD (inferBarSpacing index) ≠ .daily then []
  else
    let shortest := minHistory.getD walkForwardMinBars
    if shortest < trendMid then []
    else if shortest < trendSlow then ["close_vs_ema_26", "ema26_vs_ema48"]
    else ["close_vs_ema_26", "ema26_vs_ema48", "ema48_vs_ema220", "trend_stack_1d",
      "trend_stack_run"]

structure Frame where
  index : List ℤ
  columns : List String

structure Exog where
  usdIrt : Option (List ℤ)
  xauUsd : Option (List ℤ)
  goldFund : Option (List ℤ)
  fundFlow : Option (List ℤ)

def priceColumns : List String :=
  ["close"] ++ [1, 2, 3, 5, 10, 20].flatMap (fun (k : ℕ) ↦ [s!"lag_{k}", s!"ret_{k}"]) ++
    [5, 10, 20].flatMap (fun (w : ℕ) ↦
      [s!"roll_mean_{w}", s!"roll_std_{w}", s!"close_vs_mean_{w}"]) ++
    ["momentum_10", "rsi_14", "rsi_7", "vol_20", "streak", "ret_skew_20", "garch_vol",
      "garch_vol_ratio_60", "ret_med_5", "adx_14", "stoch_k", "stoch_d", "williams_r_14", "cci_20",
      "donchian_upper_dist_20", "donchian_lower_dist_20", "keltner_pos_20"]

def calendarColumns : List String :=
  ["drawdown_90d_pct", "dow"] ++ (List.range 7).map (fun d ↦ s!"dow_{d}") ++
    ["hour", "jalali_month"]

def given (aux : Option (List ℤ)) : Bool := aux.any (!·.isEmpty)

def frameColumns (stack : List String) (usd xau fund flow : Bool) : List String :=
  priceColumns ++ stack ++ calendarColumns ++
    (if usd then ["usd_irt", "usd_ret_1", "usd_ret_5"] else []) ++
    (if xau then ["xau_usd", "xau_ret_1", "xau_ret_5", "corr_xau_20"] else []) ++
    (if usd && xau then ["theoretical_18k", "premium_pct", "premium_z_30", "premium_mom_5"]
      else []) ++
    (if fund then ["fund_ret_1", "fund_ret_5", "fund_ratio_z_30"] else []) ++
    (if flow then ["fund_flow", "fund_flow_ma5", "fund_flow_chg_5"] else [])

def computeFeatureFrame (gold : List ℤ) (exog : Exog) (barSpacing : Option Spacing)
    (minHistory : Option ℕ) : Frame where
  index := gold
  columns := frameColumns (dailyTrendStack gold barSpacing minHistory) (given exog.usdIrt)
    (given exog.xauUsd) (given exog.goldFund) (given exog.fundFlow)

def dropCols : List String :=
  ["close", "lag_1", "lag_2", "lag_3", "lag_5", "lag_10", "lag_20", "roll_mean_5", "roll_mean_10",
    "roll_mean_20", "usd_irt", "xau_usd", "theoretical_18k"]

structure Context where
  exog : Exog
  barSpacing : Option Spacing
  minHistory : Option ℕ
  prebuilt : Option Frame

def pit (cutoff : Option ℤ) (aux : Option (List ℤ)) : Option (List ℤ) :=
  match aux, cutoff with
  | some aux, some cutoff =>
    if (aux.filter (· ≤ cutoff)).isEmpty then none else some (aux.filter (· ≤ cutoff))
  | _, _ => none

def Frame.serves (cached : Frame) (series : List ℤ) : Bool :=
  decide (series ≠ []) && decide (series.length ≤ cached.index.length) &&
    decide (cached.index[series.length - 1]? = series.getLast?)

def featureMatrix (series : List ℤ) (context : Context) : Frame :=
  match context.prebuilt.filter (·.serves series) with
  | some cached => ⟨cached.index.take series.length, cached.columns⟩
  | none =>
    let pit := pit series.getLast?
    let frame := computeFeatureFrame series
      ⟨pit context.exog.usdIrt, pit context.exog.xauUsd, pit context.exog.goldFund,
        pit context.exog.fundFlow⟩ context.barSpacing context.minHistory
    ⟨frame.index, frame.columns.filter (!dropCols.contains ·)⟩

def Exog.isAbsent (exog : Exog) : Bool :=
  exog.usdIrt.isNone && exog.xauUsd.isNone && exog.goldFund.isNone && exog.fundFlow.isNone

def predictionContext (series : List ℤ) (context : Context) : Context :=
  if !context.exog.isAbsent then context
  else if series = [] then context
  else ⟨context.exog, context.barSpacing, context.minHistory, some (featureMatrix series context)⟩

def trainContext (exog : Exog) : Context := ⟨exog, some .daily, some minTrainPoints, none⟩

def serveContext (exog : Exog) : Context := ⟨exog, none, none, none⟩

def foldColumns (tabular : Bool) (series : List ℤ) (exog : Exog) (i : ℕ) : List String :=
  let context := trainContext exog
  (featureMatrix (series.take (i + 1))
    (if tabular then predictionContext series context else context)).columns

def refitColumns (series : List ℤ) (exog : Exog) : List String :=
  (featureMatrix series (trainContext exog)).columns

def predictColumns (series : List ℤ) (exog : Exog) : List String :=
  (featureMatrix series (serveContext exog)).columns

/-- Whether the series has begun at `t`. -/
def startsBy (aux : Option (List ℤ)) (t : ℤ) : Bool := (aux.getD []).any (· ≤ t)

theorem given_pit (aux : Option (List ℤ)) (t : ℤ) : given (pit (some t) aux) = startsBy aux t := by
  cases aux with
  | none => rfl
  | some aux =>
    rw [pit, startsBy, Bool.eq_iff_iff]
    by_cases h : (aux.filter (· ≤ t)).isEmpty
    · rw [if_pos h]
      simpa [given] using h
    · rw [if_neg h]
      simp [given]

def schema (stacked usd xau fund flow : Bool) : List String :=
  (frameColumns (if stacked then ["close_vs_ema_26", "ema26_vs_ema48"] else []) usd xau fund
    flow).filter (!dropCols.contains ·)

theorem source_columns :
    ∀ c ∈ ["close_vs_ema_26", "usd_ret_1", "xau_ret_1", "fund_ret_1", "fund_flow"],
      c ∉ priceColumns ∧ c ∉ calendarColumns ∧ c ∉ dropCols := by
  decide +kernel

theorem mem_schema (stacked usd xau fund flow : Bool) :
    ("close_vs_ema_26" ∈ schema stacked usd xau fund flow ↔ stacked) ∧
    ("usd_ret_1" ∈ schema stacked usd xau fund flow ↔ usd) ∧
    ("xau_ret_1" ∈ schema stacked usd xau fund flow ↔ xau) ∧
    ("fund_ret_1" ∈ schema stacked usd xau fund flow ↔ fund) ∧
    ("fund_flow" ∈ schema stacked usd xau fund flow ↔ flow) := by
  have hcolumns := source_columns
  simp only [forall_mem_cons] at hcolumns
  obtain ⟨hstack, husd, hxau, hfund, hflow, -⟩ := hcolumns
  simp only [schema, frameColumns, mem_filter, mem_append]
  refine ⟨?_, ?_, ?_, ?_, ?_⟩
  · cases stacked <;> simp [hstack]
  · cases usd <;> simp [husd]
  · cases xau <;> simp [hxau]
  · cases fund <;> simp [hfund]
  · cases flow <;> simp [hflow]

theorem schema_toFinset_inj {stacked usd xau fund flow stacked' usd' xau' fund' flow' : Bool}
    (h : (schema stacked usd xau fund flow).toFinset =
      (schema stacked' usd' xau' fund' flow').toFinset) :
    stacked = stacked' ∧ usd = usd' ∧ xau = xau' ∧ fund = fund' ∧ flow = flow' := by
  have hmem (c : String) : c ∈ schema stacked usd xau fund flow ↔
      c ∈ schema stacked' usd' xau' fund' flow' := by
    rw [← mem_toFinset, h, mem_toFinset]
  obtain ⟨hs, hu, hx, hf, hw⟩ := mem_schema stacked usd xau fund flow
  obtain ⟨hs', hu', hx', hf', hw'⟩ := mem_schema stacked' usd' xau' fund' flow'
  rw [hmem] at hs hu hx hf hw
  exact ⟨Bool.eq_iff_iff.2 (hs.symm.trans hs'), Bool.eq_iff_iff.2 (hu.symm.trans hu'),
    Bool.eq_iff_iff.2 (hx.symm.trans hx'), Bool.eq_iff_iff.2 (hf.symm.trans hf'),
    Bool.eq_iff_iff.2 (hw.symm.trans hw')⟩

theorem dailyTrendStack_eq (index : List ℤ) (barSpacing : Option Spacing) {minHistory : Option ℕ}
    (h : minHistory.getD walkForwardMinBars = 60) : dailyTrendStack index barSpacing minHistory =
      if decide (barSpacing.getD (inferBarSpacing index) = .daily) then
        ["close_vs_ema_26", "ema26_vs_ema48"] else [] := by
  rw [dailyTrendStack, h]
  by_cases hdaily : barSpacing.getD (inferBarSpacing index) = .daily
  · rw [if_neg (not_not.2 hdaily), if_pos (decide_eq_true hdaily)]
    rfl
  · rw [if_pos hdaily, if_neg (by simpa using hdaily)]

theorem featureMatrix_columns {series : List ℤ} {t : ℤ} (ht : series.getLast? = some t)
    (exog : Exog) (barSpacing : Option Spacing) {minHistory : Option ℕ}
    (h : minHistory.getD walkForwardMinBars = 60) :
    (featureMatrix series ⟨exog, barSpacing, minHistory, none⟩).columns =
      schema (decide (barSpacing.getD (inferBarSpacing series) = .daily))
        (startsBy exog.usdIrt t) (startsBy exog.xauUsd t) (startsBy exog.goldFund t)
        (startsBy exog.fundFlow t) := by
  simp only [featureMatrix, Option.filter_none, computeFeatureFrame, ht, given_pit]
  rw [dailyTrendStack_eq series barSpacing h, schema]

theorem featureMatrix_prebuilt (series : List ℤ) (exog : Exog) (barSpacing : Option Spacing)
    (minHistory : Option ℕ) (cached : Frame) :
    (featureMatrix series ⟨exog, barSpacing, minHistory, some cached⟩).columns = cached.columns ∨
      (featureMatrix series ⟨exog, barSpacing, minHistory, some cached⟩).columns =
        (featureMatrix series ⟨exog, barSpacing, minHistory, none⟩).columns := by
  by_cases h : cached.serves series
  · left
    rw [featureMatrix, Option.filter_some, if_pos h]
  · right
    rw [featureMatrix, Option.filter_some, if_neg h]
    rfl

theorem startsBy_of_absent {exog : Exog} (h : exog.isAbsent) (t : ℤ) :
    startsBy exog.usdIrt t = false ∧ startsBy exog.xauUsd t = false ∧
      startsBy exog.goldFund t = false ∧ startsBy exog.fundFlow t = false := by
  simp only [Exog.isAbsent, Bool.and_eq_true, Option.isNone_iff_eq_none] at h
  obtain ⟨⟨⟨hu, hx⟩, hf⟩, hw⟩ := h
  rw [hu, hx, hf, hw]
  exact ⟨rfl, rfl, rfl, rfl⟩

section Runs

variable {series : List ℤ} (exog : Exog)

theorem refitColumns_eq {t : ℤ} (ht : series.getLast? = some t) : refitColumns series exog =
    schema true (startsBy exog.usdIrt t) (startsBy exog.xauUsd t) (startsBy exog.goldFund t)
      (startsBy exog.fundFlow t) :=
  featureMatrix_columns ht exog (some .daily) rfl

theorem predictColumns_eq {t : ℤ} (ht : series.getLast? = some t) : predictColumns series exog =
    schema (decide (inferBarSpacing series = .daily)) (startsBy exog.usdIrt t)
      (startsBy exog.xauUsd t) (startsBy exog.goldFund t) (startsBy exog.fundFlow t) :=
  featureMatrix_columns ht exog none rfl

theorem foldColumns_eq (tabular : Bool) {i : ℕ} {t : ℤ} (ht : series[i]? = some t) :
    foldColumns tabular series exog i =
      schema true (startsBy exog.usdIrt t) (startsBy exog.xauUsd t) (startsBy exog.goldFund t)
        (startsBy exog.fundFlow t) := by
  have hlast : (series.take (i + 1)).getLast? = some t := by
    rw [getLast?_take, if_neg (Nat.succ_ne_zero i), Nat.add_sub_cancel, ht]
    rfl
  have hown := featureMatrix_columns hlast exog (some .daily)
    (show (some minTrainPoints).getD walkForwardMinBars = 60 from rfl)
  cases tabular with
  | false => exact hown
  | true =>
    rw [foldColumns, if_pos rfl, predictionContext]
    by_cases habsent : exog.isAbsent
    · have hseries : series ≠ [] := by
        rintro rfl
        cases ht
      have hu := getLast?_eq_some_getLast hseries
      have hframe := refitColumns_eq exog hu
      obtain ⟨htusd, htxau, htfund, htflow⟩ := startsBy_of_absent habsent t
      obtain ⟨huusd, huxau, hufund, huflow⟩ := startsBy_of_absent habsent (series.getLast hseries)
      rw [huusd, huxau, hufund, huflow] at hframe
      rw [htusd, htxau, htfund, htflow] at hown ⊢
      rw [if_neg (by simpa [trainContext] using habsent), if_neg hseries]
      rcases featureMatrix_prebuilt (series.take (i + 1)) exog (some .daily) (some minTrainPoints)
        (featureMatrix series (trainContext exog)) with h | h
      · exact h.trans hframe
      · exact h.trans hown
    · rw [if_pos (by simpa [trainContext] using habsent)]
      exact hown

end Runs

section Spacing

structure DailySeries where
  index : List ℤ
  ascending : index.Pairwise (· < ·)
  onDays : ∀ t ∈ index, 86400 ∣ t

theorem gaps_ge {index : List ℤ} (hasc : index.Pairwise (· < ·)) (hday : ∀ t ∈ index, 86400 ∣ t) :
    ∀ g ∈ gaps index, 86400 ≤ g := by
  induction index with
  | nil => simp [gaps]
  | cons a index ih =>
    cases index with
    | nil => simp [gaps]
    | cons b index =>
      have hab : a < b := (pairwise_cons.1 hasc).1 b mem_cons_self
      have ha := hday a mem_cons_self
      have hb := hday b (mem_cons_of_mem _ mem_cons_self)
      intro g hg
      rcases mem_cons.1 (show g ∈ (b - a) :: gaps (b :: index) from hg) with rfl | hg
      · omega
      · exact ih hasc.of_cons (fun t ht ↦ hday t (mem_cons_of_mem _ ht)) g hg

theorem length_gaps (index : List ℤ) : (gaps index).length = index.length - 1 := by
  rw [gaps, length_zipWith, length_tail]
  omega

theorem inferBarSpacing_daily_iff (series : DailySeries) (h : 2 ≤ series.index.length) :
    inferBarSpacing series.index = .daily ↔
      medianGap series.index ≤ dailyBarMaxSeconds := by
  have hgaps : ∀ g ∈ recentGaps series.index, 86400 ≤ g := by
    intro g hg
    exact gaps_ge series.ascending series.onDays g (mem_of_mem_drop hg)
  have hne : recentGaps series.index ≠ [] := by
    rw [recentGaps, ne_eq, drop_eq_nil_iff, length_gaps, recentGapSample]
    omega
  have hmin : ¬(recentGaps series.index).any (· < dailyBarMinSeconds) := by
    simp only [any_eq_true, decide_eq_true_eq, not_exists, not_and, not_lt]
    intro g hg
    have := hgaps g hg
    rw [dailyBarMinSeconds]
    omega
  have hmedian : (dailyBarMinSeconds : ℚ) ≤ medianGap series.index := by
    refine le_median (by simpa using hne) (fun g hg ↦ ?_)
    obtain ⟨gap, hgap, rfl⟩ := mem_map.1 hg
    have := hgaps gap hgap
    exact_mod_cast (show dailyBarMinSeconds ≤ gap by rw [dailyBarMinSeconds]; omega)
  rw [inferBarSpacing, if_neg (by omega), if_neg hmin]
  split
  next hdaily => exact iff_of_true rfl hdaily.2
  next hdaily => exact iff_of_false (by decide) (fun h ↦ hdaily ⟨hmedian, h⟩)

end Spacing

def Exog.all (exog : Exog) : List (Option (List ℤ)) :=
  [exog.usdIrt, exog.xauUsd, exog.goldFund, exog.fundFlow]

theorem startsBy_mono {aux : Option (List ℤ)} {t u : ℤ} (h : t ≤ u) (ht : startsBy aux t) :
    startsBy aux u := by
  obtain ⟨s, hs, hst⟩ := any_eq_true.1 ht
  exact any_eq_true.2 ⟨s, hs, decide_eq_true ((of_decide_eq_true hst).trans h)⟩

theorem DailySeries.bar_le (series : DailySeries) {i j : ℕ} (hij : i ≤ j)
    (hj : j < series.index.length) : series.index.getD i 0 ≤ series.index.getD j 0 := by
  rw [getD_eq_getElem?_getD, getD_eq_getElem?_getD, getElem?_eq_getElem hj,
    getElem?_eq_getElem (by omega), Option.getD_some, Option.getD_some]
  rcases Nat.eq_or_lt_of_le hij with rfl | hij
  · exact le_rfl
  · exact (pairwise_iff_getElem.1 series.ascending i j _ _ hij).le

/-- The folds of both blocks and of the embargo, the refit and the prediction have one set
of columns exactly when no auxiliary series begins between the first fold's last bar and
the last bar, and the bars are recognised as daily. -/
theorem one_schema_iff (series : DailySeries) (exog : Exog) (horizonSteps : ℕ)
    (hrun : foldIndices series.index.length horizonSteps minTrainPoints maxFolds ≠ []) :
    ((∀ tabular, ∀ i ∈ foldIndices series.index.length horizonSteps minTrainPoints maxFolds,
        (foldColumns tabular series.index exog i).toFinset =
          (refitColumns series.index exog).toFinset) ∧
      (predictColumns series.index exog).toFinset = (refitColumns series.index exog).toFinset) ↔
    (∀ aux ∈ exog.all, startsBy aux (series.index.getD (series.index.length - 1) 0) →
        startsBy aux (series.index.getD (minTrainPoints - 1) 0)) ∧
      medianGap series.index ≤ dailyBarMaxSeconds := by
  have hfirst := first_mem_foldIndices (by decide) hrun
  have hlen := (mem_foldIndices (by decide) hfirst).2
  have hbar {i : ℕ} (hi : i < series.index.length) :
      series.index[i]? = some (series.index.getD i 0) := by
    rw [getD_eq_getElem?_getD, getElem?_eq_getElem hi, Option.getD_some]
  have hlast : series.index.getLast? = some (series.index.getD (series.index.length - 1) 0) := by
    rw [getLast?_eq_getElem?, hbar (by omega)]
  have hrefit := refitColumns_eq exog hlast
  have hpredict := predictColumns_eq exog hlast
  rw [← inferBarSpacing_daily_iff series (by rw [minTrainPoints] at hlen; omega)]
  constructor
  · rintro ⟨hfolds, hserve⟩
    have hfold := hfolds true _ hfirst
    rw [foldColumns_eq exog true (hbar hlen), hrefit] at hfold
    rw [hpredict, hrefit] at hserve
    obtain ⟨-, husd, hxau, hfund, hflow⟩ := schema_toFinset_inj hfold
    refine ⟨fun aux haux ↦ ?_, of_decide_eq_true (schema_toFinset_inj hserve).1⟩
    simp only [Exog.all, mem_cons, not_mem_nil, or_false] at haux
    rcases haux with rfl | rfl | rfl | rfl
    · rw [husd]
      exact id
    · rw [hxau]
      exact id
    · rw [hfund]
      exact id
    · rw [hflow]
      exact id
  · rintro ⟨hstarts, hdaily⟩
    refine ⟨fun tabular i hi ↦ ?_, by rw [hpredict, hrefit, decide_eq_true hdaily]⟩
    obtain ⟨hi1, hi2⟩ := mem_foldIndices (by decide) hi
    -- What has begun at the last bar has begun at the first fold already.
    have hagree {aux : Option (List ℤ)} (haux : aux ∈ exog.all) :
        startsBy aux (series.index.getD i 0) =
          startsBy aux (series.index.getD (series.index.length - 1) 0) := by
      rw [Bool.eq_iff_iff]
      constructor
      · exact startsBy_mono (series.bar_le (by omega) (by omega))
      · intro h
        exact startsBy_mono (series.bar_le hi1 hi2) (hstarts aux haux h)
    rw [foldColumns_eq exog tabular (hbar hi2), hrefit, hagree (by simp [Exog.all]),
      hagree (by simp [Exog.all]), hagree (by simp [Exog.all]), hagree (by simp [Exog.all])]

/-- A bar every day, `n` of them. -/
def everyDay (n : ℕ) : DailySeries where
  index := (List.range n).map (fun (k : ℕ) ↦ 86400 * (k : ℤ))
  ascending := by
    refine pairwise_map.2 (pairwise_lt_range.imp ?_)
    intro a b h
    omega
  onDays := by
    intro t ht
    obtain ⟨k, -, rfl⟩ := mem_map.1 ht
    exact Int.dvd_mul_right _ _

theorem sixty_one_days_one_schema :
    ((∀ tabular, ∀ i ∈ foldIndices 61 1 minTrainPoints maxFolds,
        (foldColumns tabular (everyDay 61).index ⟨some [0], none, none, none⟩ i).toFinset =
          (refitColumns (everyDay 61).index ⟨some [0], none, none, none⟩).toFinset) ∧
      (predictColumns (everyDay 61).index ⟨some [0], none, none, none⟩).toFinset =
        (refitColumns (everyDay 61).index ⟨some [0], none, none, none⟩).toFinset) := by
  apply (one_schema_iff (everyDay 61) ⟨some [0], none, none, none⟩ 1 (by decide)).2
  decide +kernel

/-- The rate series begins on day 200 of 400. -/
theorem late_series_two_schemas : 194 ∈ foldIndices 400 1 minTrainPoints maxFolds ∧
    "usd_ret_1" ∈ refitColumns (everyDay 400).index ⟨some [200 * 86400], none, none, none⟩ ∧
    "usd_ret_1" ∉
      foldColumns true (everyDay 400).index ⟨some [200 * 86400], none, none, none⟩ 194 := by
  have hlast : (everyDay 400).index.getLast? = some (399 * 86400) := by
    simp [everyDay, getLast?_range]
  have hfold : (everyDay 400).index[(194 : ℕ)]? = some (194 * 86400) := by simp [everyDay]
  refine ⟨by decide, ?_, ?_⟩
  · rw [refitColumns_eq _ hlast]
    exact (mem_schema _ _ _ _ _).2.1.mpr (by decide)
  · rw [foldColumns_eq _ true hfold, (mem_schema _ _ _ _ _).2.1]
    decide

end TalaPala.Forecast
