import TalaPala.Trend.Loads

namespace TalaPala.Trend

open Library Prices List

def bucketSlack : ℕ := 4

def hourlyPer4h : ℕ := 4

def bucketLimits (config : TrendConfig) : ℕ × ℕ :=
  let warm := warmupCandles config + bucketSlack
  (warm * hourlyPer4h, warm)

def backtestBucketLimits (config : TrendConfig) : ℕ × ℕ :=
  let warm := warmupCandles config + bucketSlack
  let longest := windowDays.foldr max 0
  (warm * hourlyPer4h + longest * 24, warm + longest)

def evaluateSymbol (table : Table) (symbol : String) (config : TrendConfig) (now : ℤ) :
    AlignmentResult :=
  evaluate symbol (loadCandles table symbol .hour (bucketLimits config).1 now)
    (loadCandles table symbol .day (bucketLimits config).2 now) now config

def refreshPerformance (table : Table) (symbol : String) (config : TrendConfig) (now : ℤ) :
    List (ℕ × BasisChoice × List ReplayBar) :=
  let hourly := loadCandles table symbol .hour (backtestBucketLimits config).1 now
  let daily := loadCandles table symbol .day (backtestBucketLimits config).2 now
  windowDays.map (fun days ↦ (days, replayedWindow symbol days hourly daily now config))

def liveLeg (table : Table) (symbol : String) (config : TrendConfig) (now : ℤ) (tf : Timeframe) :
    List Candle :=
  completed (series (loadCandles table symbol .hour (bucketLimits config).1 now)
    (loadCandles table symbol .day (bucketLimits config).2 now) tf) tf.seconds now

def replayLeg (table : Table) (symbol : String) (config : TrendConfig) (now : ℤ)
    (choice : BasisChoice) (at_ : ℤ) (tf : Timeframe) : List Candle :=
  completed (series
    (replayHourly choice (loadCandles table symbol .hour (backtestBucketLimits config).1 now))
    (loadCandles table symbol .day (backtestBucketLimits config).2 now) tf) tf.seconds at_

theorem slow_le_warmup (config : TrendConfig) : config.slow ≤ warmupCandles config := by
  unfold warmupCandles
  omega

theorem chooseBasis_full {days : ℕ} {windowStart : ℤ} {intradayFrom : Option ℤ}
    {hourly daily : List Candle} {config : TrendConfig}
    (h : (chooseBasis days windowStart intradayFrom hourly daily config).basis = .fullMtf)
    (tf : Timeframe) :
    warmupCandles config ≤ (completed (series (replayHourly
      (chooseBasis days windowStart intradayFrom hourly daily config) hourly) daily tf)
      tf.seconds windowStart).length := by
  unfold chooseBasis at h ⊢
  cases intradayFrom with
  | none => cases h
  | some start =>
    simp only at h ⊢
    split at h
    · cases h
    · rename_i hstart
      split at h
      · cases h
      · rename_i hshort
        rw [ne_eq, not_not, filter_eq_nil_iff] at hshort
        rw [if_neg hstart, if_neg (by rw [ne_eq, not_not, filter_eq_nil_iff]; exact hshort)]
        simp only [replayHourly, if_true, Option.all_some]
        have hready := hshort (tf, (completed (series
          (hourly.filter (fun c ↦ start ≤ c.start)) daily tf) tf.seconds
            windowStart).length) (mem_map.mpr ⟨tf, by cases tf <;> simp, rfl⟩)
        simpa using hready

theorem completed_length_mono {candles : List Candle} {seconds at_ at' : ℤ} (h : at_ ≤ at') :
    (completed candles seconds at_).length ≤ (completed candles seconds at').length := by
  rw [← completed_completed h]
  exact (filter_sublist).length_le

theorem mem_replay {symbol : String} {basis : Basis} {hourly daily : List Candle}
    {windowStart now : ℤ} {config : TrendConfig} {bar : ReplayBar}
    (h : bar ∈ replay symbol basis hourly daily windowStart now config) :
    windowStart < bar.closeTime ∧ bar.closeTime ≤ now ∧
      bar.state = stateAt symbol basis hourly daily bar.closeTime config := by
  obtain ⟨c, hc, rfl⟩ := mem_map.mp h
  rw [mem_filter, mem_completed] at hc
  refine ⟨?_, hc.1.2, rfl⟩
  simpa using hc.2

theorem liveLeg_suffix (table : Table) (symbol : String) (config : TrendConfig) (now : ℤ)
    (tf : Timeframe) :
    points (liveLeg table symbol config now tf) <:+ points (closedHistory table symbol now tf) :=
  leg_suffix (hourlyLoad table symbol (bucketLimits config).1 now)
    (load_suffix table symbol .hour _ le_rfl) (load_suffix table symbol .day _ le_rfl) tf

theorem replayLeg_suffix (table : Table) (symbol : String) (config : TrendConfig)
    (choice : BasisChoice) {at_ now : ℤ} (h : at_ ≤ now) (tf : Timeframe) :
    points (replayLeg table symbol config now choice at_ tf) <:+
      points (closedHistory table symbol at_ tf) := by
  set hourly := loadCandles table symbol .hour (backtestBucketLimits config).1 now with hhourly
  have hcut : replayHourly choice hourly <:+ hourly := by
    unfold replayHourly
    split
    · have hasc : AscendingBy Candle.start hourly :=
        (tickCandles_ascending _ _).sublist (newest_suffix _ _).sublist
      refine AscendingBy.suffix (hasc.filter _) hasc (fun c hc ↦ mem_of_mem_filter hc) ?_
      intro a ha b hb hab
      obtain ⟨_, ha⟩ := mem_filter.mp ha
      refine mem_filter.mpr ⟨hb, ?_⟩
      cases hfrom : choice.intradayFrom with
      | none => rfl
      | some start =>
        rw [hfrom] at ha
        simp only [Option.all_some, decide_eq_true_eq] at ha ⊢
        omega
    · exact suffix_rfl
  refine leg_suffix (⟨replayHourly choice hourly, fun c hc ↦
    (hourlyLoad table symbol _ now).aligned c (hcut.subset hc)⟩) ?_
    (load_suffix table symbol .day _ h) tf
  exact (completed_suffix (hcut.map point) _ _).trans (load_suffix table symbol .hour _ h)

theorem evaluate_congr {symbol : String} {hourly hourly' daily daily' : List Candle}
    {now now' : ℤ} {config : TrendConfig}
    (h : ∀ tf, (evaluateTimeframe tf (series hourly daily tf) now config).trend =
      (evaluateTimeframe tf (series hourly' daily' tf) now' config).trend) :
    (evaluate symbol hourly daily now config).alignment =
      (evaluate symbol hourly' daily' now' config).alignment := by
  simp only [evaluate, h]

theorem evaluate_unaligned {symbol : String} {hourly daily : List Candle} {now : ℤ}
    {config : TrendConfig} {tf : Timeframe}
    (h : (evaluateTimeframe tf (series hourly daily tf) now config).trend = .unavailable) :
    (evaluate symbol hourly daily now config).alignment = .notAligned := by
  cases tf <;> simp [evaluate, alignment, h]

/-- At a fully intraday bar the replay says what the live pass said, where the live load
reached far enough, for an exponential average as far as the replay's; elsewhere the live
pass said unaligned. -/
theorem replay_matches_live {table : Table} {symbol : String} {config : TrendConfig} {now : ℤ}
    {days : ℕ} {choice : BasisChoice} {bars : List ReplayBar} {bar : ReplayBar}
    (hwindow : (days, choice, bars) ∈ refreshPerformance table symbol config now)
    (hbasis : choice.basis = .fullMtf) (hbar : bar ∈ bars) :
    ((∀ tf, config.slow ≤ (liveLeg table symbol config bar.closeTime tf).length) →
      (config.maType = .sma ∨ ∀ tf,
        (liveLeg table symbol config bar.closeTime tf).map Candle.start =
          (replayLeg table symbol config now choice bar.closeTime tf).map Candle.start) →
      bar.state =
        alignmentState (evaluateSymbol table symbol config bar.closeTime).alignment) ∧
    ((∃ tf, (liveLeg table symbol config bar.closeTime tf).length < config.slow) →
      alignmentState (evaluateSymbol table symbol config bar.closeTime).alignment =
        .unaligned) := by
  constructor
  · intro hlen hseed
    obtain ⟨_, _, hrow⟩ := mem_map.mp hwindow
    simp only [replayedWindow, Prod.mk.injEq] at hrow
    obtain ⟨rfl, rfl, rfl⟩ := hrow
    obtain ⟨hstart, hnow, hstate⟩ := mem_replay hbar
    rw [hstate, hbasis, stateAt]
    refine congrArg alignmentState (evaluate_congr (fun tf ↦ ?_))
    have hwarm := (slow_le_warmup config).trans ((chooseBasis_full hbasis tf).trans
      (completed_length_mono hstart.le))
    refine evaluateTimeframe_trend_eq (replayLeg_suffix table symbol config _ hnow tf)
      (liveLeg_suffix table symbol config _ tf) hwarm (hlen tf) (hseed.imp_right (fun h ↦ ?_))
    have := congrArg List.length (h tf)
    rw [length_map, length_map] at this
    exact this.symm
  · rintro ⟨tf, hshort⟩
    exact congrArg alignmentState (evaluate_unaligned (judge_unavailable hshort))

def minuteTable (ticks : List (ℤ × ℚ)) : Table where
  rows := ticks.zipIdx.map (fun t ↦
    { id := t.2
      symbol := "XAUUSD"
      value := t.1.2
      observedAt := t.1.1 * 60 * second
      quality := .ok })
  ids := by
    rw [map_map]
    exact (zipIdx_map_snd 0 ticks).symm ▸ nodup_range' ..

def hourTable (first : ℚ) : List ℤ → Table
  | [] => minuteTable []
  | hour :: hours =>
    minuteTable ((hour * 60, first) :: hours.zipIdx.map (fun h ↦ (h.1 * 60, h.2 + 2)))

def shortConfig (maType : MaType) : TrendConfig where
  maType := maType
  fast := 2
  mid := 3
  slow := 4

def replayedFortnight (table : Table) (maType : MaType) (day : ℤ) :
    BasisChoice × List ReplayBar :=
  replayedWindow "XAUUSD" 14
    (loadCandles table "XAUUSD" .hour (backtestBucketLimits (shortConfig maType)).1
      (day * 86400 * second))
    (loadCandles table "XAUUSD" .day (backtestBucketLimits (shortConfig maType)).2
      (day * 86400 * second))
    (day * 86400 * second) (shortConfig maType)

theorem replayedFortnight_reported (table : Table) (maType : MaType) (day : ℤ) :
    (14, (replayedFortnight table maType day).1, (replayedFortnight table maType day).2) ∈
      refreshPerformance table "XAUUSD" (shortConfig maType) (day * 86400 * second) := by
  rw [Prod.mk.eta]
  exact mem_map.mpr ⟨14, by decide, rfl⟩

def steadyTable : Table := hourTable 1 ((List.range 34).map (fun k ↦ 4 * (k : ℤ)))

def sparseTable : Table :=
  hourTable 1 [0, 1, 2, 3, 24, 25, 26, 27, 48, 49, 50, 51, 72, 73, 74, 75, 96, 97, 98, 99, 184, 185,
    186, 187]

def fallenTable : Table :=
  hourTable 10000 (0 :: (List.range 40).map (fun k ↦ 24 + 24 * (k / 4 : ℕ) + 4 * (k % 4 : ℕ)))

theorem steady_replay_matches_live :
    ∃ bar ∈ (replayedFortnight steadyTable .sma 19).2, bar.closeTime = 121 * 3600 * second ∧
      bar.state = .bullish ∧ bar.state = alignmentState (evaluateSymbol steadyTable
        "XAUUSD" (shortConfig .sma) bar.closeTime).alignment := by
  have hrun : (replayedFortnight steadyTable .sma 19).1.basis = .fullMtf ∧
      ReplayBar.mk (121 * 3600 * second) 31 .bullish none ∈
        (replayedFortnight steadyTable .sma 19).2 := by decide +kernel
  have hmatch := replay_matches_live (replayedFortnight_reported steadyTable .sma 19) hrun.1 hrun.2
  refine ⟨_, hrun.2, rfl, rfl, hmatch.1 (fun tf ↦ ?_) (.inl rfl)⟩
  cases tf <;> decide +kernel

/-- At the last of the sparse hours the live load holds one closed four-hour candle, the
replay's six. -/
theorem replay_differs_from_live :
    (¬ ∀ (table : Table) (symbol : String) (config : TrendConfig) (now : ℤ) (days : ℕ)
        (choice : BasisChoice) (bars : List ReplayBar) (bar : ReplayBar),
      (days, choice, bars) ∈ refreshPerformance table symbol config now →
      choice.basis = .fullMtf → bar ∈ bars →
      bar.state =
        alignmentState (evaluateSymbol table symbol config bar.closeTime).alignment) ∧
    ¬ ∀ (table : Table) (symbol : String) (config : TrendConfig) (now : ℤ) (days : ℕ)
        (choice : BasisChoice) (bars : List ReplayBar) (bar : ReplayBar),
      (days, choice, bars) ∈ refreshPerformance table symbol config now →
      choice.basis = .fullMtf → bar ∈ bars →
      (∀ tf, config.slow ≤ (liveLeg table symbol config bar.closeTime tf).length) →
      bar.state =
        alignmentState (evaluateSymbol table symbol config bar.closeTime).alignment := by
  constructor
  · intro hall
    have hrun : (replayedFortnight sparseTable .sma 19).1.basis = .fullMtf ∧
        ReplayBar.mk (188 * 3600 * second) 24 .bullish none ∈
          (replayedFortnight sparseTable .sma 19).2 := by decide +kernel
    have hlive : alignmentState (evaluateSymbol sparseTable "XAUUSD" (shortConfig .sma)
        (188 * 3600 * second)).alignment = .unaligned := by decide +kernel
    have hsame := hall _ _ _ _ _ _ _ _ (replayedFortnight_reported sparseTable .sma 19)
      hrun.1 hrun.2
    rw [hlive] at hsame
    cases hsame
  · intro hall
    have hrun : (replayedFortnight fallenTable .ema 24).1.basis = .fullMtf ∧
        ReplayBar.mk (241 * 3600 * second) 38 .unaligned none ∈
          (replayedFortnight fallenTable .ema 24).2 := by decide +kernel
    have hlive : alignmentState (evaluateSymbol fallenTable "XAUUSD" (shortConfig .ema)
        (241 * 3600 * second)).alignment = .bullish := by decide +kernel
    have hsame := hall _ _ _ _ _ _ _ _ (replayedFortnight_reported fallenTable .ema 24)
      hrun.1 hrun.2 (fun tf ↦ by cases tf <;> decide +kernel)
    rw [hlive] at hsame
    cases hsame

end TalaPala.Trend
