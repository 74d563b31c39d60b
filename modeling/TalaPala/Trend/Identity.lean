import TalaPala.Trend.TrackRecord

namespace TalaPala.Trend

open Library Prices

def closedTicks (table : Table) (symbol : String) (tf : Timeframe) (now : ℤ) : Set Tick :=
  {t | t ∈ table.okTicks symbol ∧ tf.grid.floor t.observedAt + tf.seconds * second ≤ now}

def admittedStarts (table : Table) (symbol : String) (unit : CandleUnit) (limit : ℕ) (now : ℤ) :
    List ℤ :=
  newest limit (keys (fun t ↦ unit.bucketExpr t.observedAt) ((table.okTicks symbol).filter (fun t ↦
    decide (scanSince unit limit now ≤ t.observedAt) && decide (t.observedAt ≤ now))))

def admitted (table : Table) (symbol : String) (config : TrendConfig) (now : ℤ)
    (tf : Timeframe) : List ℤ :=
  let starts := match tf with
    | .oneDay => admittedStarts table symbol .day (bucketLimits config).2 now
    | .oneHour => admittedStarts table symbol .hour (bucketLimits config).1 now
    | .fourHour => keys (fun start ↦ bucketStart start Timeframe.fourHour.seconds)
        (admittedStarts table symbol .hour (bucketLimits config).1 now)
  starts.filter (fun start ↦ start + tf.seconds * second ≤ now)

def SameReach (config : TrendConfig) (starts starts' : List ℤ) : Prop :=
  (starts.length < config.slow ∧ starts'.length < config.slow) ∨
    (config.slow ≤ starts.length ∧ config.slow ≤ starts'.length ∧
      (config.maType = .sma ∨ starts = starts'))

instance (config : TrendConfig) (starts starts' : List ℤ) :
    Decidable (SameReach config starts starts') := inferInstanceAs (Decidable (_ ∨ _))

theorem loadCandles_starts (table : Table) (symbol : String) (unit : CandleUnit) (limit : ℕ)
    (now : ℤ) : (loadCandles table symbol unit limit now).map Candle.start =
      admittedStarts table symbol unit limit now := by
  rw [loadCandles, map_newest, tickCandles,
    summarise_starts loadedCandle_start (fun start _ h ↦ loadedCandle_isSome start h)]
  rfl

theorem liveLeg_starts (table : Table) (symbol : String) (config : TrendConfig) (now : ℤ)
    (tf : Timeframe) :
    (liveLeg table symbol config now tf).map Candle.start =
      admitted table symbol config now tf := by
  have hclosed (candles : List Candle) :
      (completed candles tf.seconds now).map Candle.start = (candles.map Candle.start).filter
        (fun start ↦ start + tf.seconds * second ≤ now) := by
    rw [List.filter_map]
    rfl
  rw [liveLeg, hclosed]
  cases tf with
  | oneDay => simp only [series, loadCandles_starts, admitted]
  | oneHour => simp only [series, loadCandles_starts, admitted]
  | fourHour =>
    have hstarts (candles : List Candle) (seconds : ℤ) :
        (resample candles seconds).map Candle.start =
          keys (fun start ↦ bucketStart start seconds) (candles.map Candle.start) := by
      rw [resample, summarise_starts mergedCandle_start
        (fun start _ h ↦ mergedCandle_isSome start h), keys, keys, List.map_map]
      rfl
    simp only [series, hstarts, loadCandles_starts, admitted]

theorem historySeries_isChart (table : Table) (symbol : String) (tf : Timeframe) :
    IsChart tf.grid {t | t ∈ table.okTicks symbol}
      (series (tickCandles .hour (table.okTicks symbol)) (tickCandles .day (table.okTicks symbol))
        tf) := by
  cases tf with
  | oneDay => exact tickCandles_isChart .day _
  | oneHour => exact tickCandles_isChart .hour _
  | fourHour => exact fourHour_isChart (tickCandles_isChart .hour _)

theorem closedHistory_isChart (table : Table) (symbol : String) (tf : Timeframe) (now : ℤ) :
    IsChart tf.grid (closedTicks table symbol tf now) (closedHistory table symbol now tf) := by
  have h := (historySeries_isChart table symbol tf).filter
    (fun start ↦ start + tf.seconds * second ≤ now)
  simp only [decide_eq_true_eq] at h
  exact h

theorem closedHistory_congr {table table' : Table} {symbol : String} {tf : Timeframe} {now : ℤ}
    (h : closedTicks table symbol tf now = closedTicks table' symbol tf now) :
    closedHistory table symbol now tf = closedHistory table' symbol now tf := by
  have hid : Distinct (closedTicks table symbol tf now) :=
    (table.distinct symbol).mono (fun _ ht ↦ ht.1)
  refine (closedHistory_isChart table symbol tf now).unique hid ?_
  rw [h]
  exact closedHistory_isChart table' symbol tf now

theorem evaluateSymbol_timeframe (table : Table) (symbol : String) (config : TrendConfig)
    (now : ℤ) (tf : Timeframe) :
    (evaluateSymbol table symbol config now).timeframes tf =
      judge tf (liveLeg table symbol config now tf) now config := rfl

theorem judge_closeTime {tf : Timeframe} {done : List Candle} {now : ℤ} {config : TrendConfig} :
    (judge tf done now config).candleCloseTime =
      done.getLast?.map (fun last ↦ last.start + tf.seconds * second) := by
  unfold judge
  cases done.getLast? with
  | none => rfl
  | some last =>
    simp only [Option.map_some]
    split
    · rfl
    · split <;> rfl

theorem closedHistory_of_identity {table table' : Table} {symbol : String}
    {config : TrendConfig} {now now' : ℤ} {tf : Timeframe} (hnow : now ≤ now')
    (hticks : closedTicks table symbol tf now = closedTicks table' symbol tf now)
    (hidentity : (evaluateSymbol table symbol config now).candleIdentity tf =
      (evaluateSymbol table' symbol config now').candleIdentity tf)
    (hne : liveLeg table' symbol config now' tf ≠ []) :
    closedHistory table' symbol now' tf = closedHistory table symbol now tf := by
  obtain ⟨last', hlast'⟩ := Option.ne_none_iff_exists'.mp (mt List.getLast?_eq_none_iff.mp hne)
  rw [AlignmentResult.candleIdentity, AlignmentResult.candleIdentity, evaluateSymbol_timeframe,
    evaluateSymbol_timeframe, judge_closeTime, judge_closeTime, hlast'] at hidentity
  obtain ⟨last, hlast, hend⟩ := Option.map_eq_some_iff.mp hidentity
  have hclosed : last'.start + tf.seconds * second ≤ now :=
    hend.symm.le.trans (mem_completed.mp (List.mem_of_getLast? hlast)).2
  -- no bucket of the later history closes after the last one both loads hold
  have hafter : ∀ c ∈ closedHistory table' symbol now' tf, c.start + tf.seconds * second ≤ now := by
    intro c hc
    have hasc := points_ascending.mpr
      (closedHistory_isChart table' symbol tf now').ascending
    have hsuffix := liveLeg_suffix table' symbol config now' tf
    have hpoints : points (liveLeg table' symbol config now' tf) ≠ [] := by
      simpa [points] using hne
    have hfinal := getLast_of_suffix hsuffix hpoints
    rw [points, List.getLast?_map, hlast'] at hfinal
    obtain ⟨front, hfront⟩ := List.getLast?_eq_some_iff.mp hfinal.symm
    have hcmem : point c ∈ points (closedHistory table' symbol now' tf) :=
      mem_points.mpr ⟨c, hc, rfl⟩
    rw [hfront] at hasc hcmem
    have hle : c.start ≤ last'.start := by
      rcases List.mem_append.mp hcmem with hm | hm
      · exact ((List.pairwise_append.mp hasc).2.2 _ hm _ List.mem_cons_self).le
      · exact (congrArg Prod.fst (List.mem_singleton.mp hm)).le
    omega
  calc closedHistory table' symbol now' tf
      = completed (closedHistory table' symbol now' tf) tf.seconds now :=
        (List.filter_eq_self.mpr (fun c hc ↦ decide_eq_true (hafter c hc))).symm
    _ = closedHistory table' symbol now tf := completed_completed hnow
    _ = closedHistory table symbol now tf := (closedHistory_congr hticks).symm

/-- Passes that report the same closed candles conclude the same where their loads reach
equally far in every timeframe: with a simple average only then, with an exponential one
only then or where two long loads differ in seed. -/
theorem identity_decides_conclusion {table table' : Table} {symbol : String}
    {config : TrendConfig} {now now' : ℤ} (hnow : now ≤ now')
    (hticks : ∀ tf, closedTicks table symbol tf now = closedTicks table' symbol tf now)
    (hidentity : (evaluateSymbol table symbol config now).candleIdentity =
      (evaluateSymbol table' symbol config now').candleIdentity)
    (hfresh : ∀ tf, ((evaluateSymbol table symbol config now).timeframes tf).dataFresh = true)
    (hfresh' : ∀ tf, ((evaluateSymbol table' symbol config now').timeframes tf).dataFresh = true) :
    ((∀ tf, SameReach config (admitted table symbol config now tf)
        (admitted table' symbol config now' tf)) →
      (∀ tf, ((evaluateSymbol table symbol config now).timeframes tf).trend =
        ((evaluateSymbol table' symbol config now').timeframes tf).trend) ∧
      (evaluateSymbol table symbol config now).alignment =
        (evaluateSymbol table' symbol config now').alignment) ∧
    ((∀ tf, ((evaluateSymbol table symbol config now).timeframes tf).trend =
        ((evaluateSymbol table' symbol config now').timeframes tf).trend) →
      ∀ tf, SameReach config (admitted table symbol config now tf)
          (admitted table' symbol config now' tf) ∨
        (config.maType = .ema ∧ config.slow ≤ (admitted table symbol config now tf).length ∧
          config.slow ≤ (admitted table' symbol config now' tf).length)) := by
  have hlength (table : Table) (now : ℤ) (tf : Timeframe) :
      (admitted table symbol config now tf).length =
        (liveLeg table symbol config now tf).length := by
    rw [← liveLeg_starts, List.length_map]
  constructor
  · intro hreach
    have htrend (tf : Timeframe) : ((evaluateSymbol table symbol config now).timeframes tf).trend =
        ((evaluateSymbol table' symbol config now').timeframes tf).trend := by
      rcases hreach tf with ⟨hshort, hshort'⟩ | ⟨hlong, hlong', hseed⟩
      · rw [hlength] at hshort hshort'
        rw [evaluateSymbol_timeframe, evaluateSymbol_timeframe, judge_unavailable hshort,
          judge_unavailable hshort']
      · rw [hlength] at hlong hlong'
        have hhistory := closedHistory_of_identity hnow (hticks tf) (congrFun hidentity tf)
          (judge_fresh (hfresh' tf))
        have hsuffix' := liveLeg_suffix table' symbol config now' tf
        rw [hhistory] at hsuffix'
        refine judge_trend_eq (liveLeg_suffix table symbol config now tf) hsuffix' hlong hlong'
          (hseed.imp_right (fun h ↦ ?_)) ((hfresh tf).trans (hfresh' tf).symm)
        exact (hlength table now tf).symm.trans
          ((congrArg List.length h).trans (hlength table' now' tf))
    exact ⟨htrend, evaluate_congr htrend⟩
  · intro htrend tf
    have hcompare := htrend tf
    rw [evaluateSymbol_timeframe, evaluateSymbol_timeframe] at hcompare
    rw [SameReach, hlength, hlength]
    rcases lt_or_ge (liveLeg table symbol config now tf).length config.slow with hshort | hlong
    · rw [judge_unavailable hshort] at hcompare
      refine .inl (.inl ⟨hshort, not_le.mp (fun hlong' ↦ ?_)⟩)
      exact judge_available (hfresh' tf) hlong' hcompare.symm
    · have hlong' : config.slow ≤ (liveLeg table' symbol config now' tf).length := by
        refine not_lt.mp (fun hshort' ↦ ?_)
        rw [judge_unavailable hshort'] at hcompare
        exact judge_available (hfresh tf) hlong hcompare
      cases hma : config.maType with
      | sma => exact .inl (.inr ⟨hlong, hlong', .inl rfl⟩)
      | ema => exact .inr ⟨rfl, hlong, hlong'⟩

def lateTable : Table :=
  minuteTable [(1410, 1000), (2850, 1), (4290, 2), (5730, 3), (7170, 4), (8610, 5), (10050, 6),
    (11490, 7), (12930, 8), (12975, 9)]

def beforeTick : ℤ := 12970 * 60 * second

def afterTick : ℤ := 12980 * 60 * second

theorem late_identity (maType : MaType) :
    (evaluateSymbol lateTable "XAUUSD" (shortConfig maType) beforeTick).candleIdentity =
      (evaluateSymbol lateTable "XAUUSD" (shortConfig maType) afterTick).candleIdentity := by
  funext tf
  cases maType <;> cases tf <;> decide +kernel

theorem late_fresh (maType : MaType) (tf : Timeframe) :
    ((evaluateSymbol lateTable "XAUUSD" (shortConfig maType) beforeTick).timeframes tf).dataFresh =
        true ∧
      ((evaluateSymbol lateTable "XAUUSD" (shortConfig maType) afterTick).timeframes tf).dataFresh =
        true := by
  cases maType <;> cases tf <;> decide +kernel

theorem late_conclusion_stands :
    (∀ tf, ((evaluateSymbol lateTable "XAUUSD" (shortConfig .sma) beforeTick).timeframes tf).trend =
      ((evaluateSymbol lateTable "XAUUSD" (shortConfig .sma) afterTick).timeframes tf).trend) ∧
    (evaluateSymbol lateTable "XAUUSD" (shortConfig .sma) beforeTick).alignment =
      (evaluateSymbol lateTable "XAUUSD" (shortConfig .sma) afterTick).alignment :=
  (identity_decides_conclusion (by decide) (fun _ ↦ rfl) (late_identity .sma)
    (fun tf ↦ (late_fresh .sma tf).1) (fun tf ↦ (late_fresh .sma tf).2)).1
      (fun tf ↦ by cases tf <;> decide)

/-- The tick of the forming day takes a slot of the daily load, the first day
falls out, and the average seeded on it lets the trend turn bullish. -/
theorem forming_tick_flips_trend : ¬ ∀ (table table' : Table) (symbol : String)
    (config : TrendConfig) (now now' : ℤ), now ≤ now' →
    (∀ tf, closedTicks table symbol tf now = closedTicks table' symbol tf now) →
    (evaluateSymbol table symbol config now).candleIdentity =
      (evaluateSymbol table' symbol config now').candleIdentity →
    (∀ tf, ((evaluateSymbol table symbol config now).timeframes tf).dataFresh = true) →
    (∀ tf, ((evaluateSymbol table' symbol config now').timeframes tf).dataFresh = true) →
    (∀ tf, ((evaluateSymbol table symbol config now).timeframes tf).trend =
      ((evaluateSymbol table' symbol config now').timeframes tf).trend) ∧
    (evaluateSymbol table symbol config now).alignment =
      (evaluateSymbol table' symbol config now').alignment := by
  intro hall
  have hsame := (hall lateTable lateTable "XAUUSD" (shortConfig .ema) beforeTick afterTick
    (by decide) (fun _ ↦ rfl) (late_identity .ema) (fun tf ↦ (late_fresh .ema tf).1)
    (fun tf ↦ (late_fresh .ema tf).2)).2
  have hbefore : (evaluateSymbol lateTable "XAUUSD" (shortConfig .ema) beforeTick).alignment =
      .notAligned := by decide +kernel
  have hafter : (evaluateSymbol lateTable "XAUUSD" (shortConfig .ema) afterTick).alignment =
      .fullBullish := by decide +kernel
  rw [hbefore, hafter] at hsame
  cases hsame

end TalaPala.Trend
