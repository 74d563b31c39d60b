import TalaPala.Prices.Candles
import TalaPala.Trend.Backtest

namespace TalaPala.Trend

open Library Prices List

inductive CandleUnit
  | hour
  | day

def CandleUnit.timeframe : CandleUnit → Timeframe
  | .hour => .oneHour
  | .day => .oneDay

abbrev CandleUnit.seconds (unit : CandleUnit) : ℤ := unit.timeframe.seconds

abbrev CandleUnit.grid (unit : CandleUnit) : Grid := unit.timeframe.grid

/-- `date_trunc(unit, observed_at)` in a UTC session. -/
def CandleUnit.bucketExpr (unit : CandleUnit) (observedAt : ℤ) : ℤ :=
  observedAt - observedAt % (unit.seconds * second)

/-- `row_number() OVER (.. ORDER BY before)`: one more than the rows strictly before. -/
def rowNumber (before : Tick → Tick → Prop) [DecidableRel before] (ticks : List Tick)
    (t : Tick) : ℕ :=
  (ticks.filter (fun u ↦ decide (before u t) && !decide (before t u))).length + 1

def valueOfFirst (before : Tick → Tick → Prop) [DecidableRel before] (ticks : List Tick) :
    Option ℚ :=
  ((ticks.filter (fun t ↦ rowNumber before ticks t = 1)).map Tick.value).max?

def loadedCandle (start : ℤ) (ticks : List Tick) : Option Candle := do
  let opening ← valueOfFirst earlier ticks
  let high ← (ticks.map Tick.value).max?
  let low ← (ticks.map Tick.value).min?
  let close ← valueOfFirst later ticks
  return { start := start, opening := opening, high := high, low := low, close := close }

def tickCandles (unit : CandleUnit) (ticks : List Tick) : List Candle :=
  summarise (fun t ↦ unit.bucketExpr t.observedAt) loadedCandle ticks

def scanSlack : ℤ := 3

def scanSince (unit : CandleUnit) (limit : ℕ) (now : ℤ) : ℤ :=
  now - unit.seconds * limit * scanSlack * second

def loadCandles (table : Table) (symbol : String) (unit : CandleUnit) (limit : ℕ) (now : ℤ) :
    List Candle :=
  newest limit (tickCandles unit ((table.okTicks symbol).filter (fun t ↦
    decide (scanSince unit limit now ≤ t.observedAt) && decide (t.observedAt ≤ now))))

theorem CandleUnit.bucketExpr_eq (unit : CandleUnit) (t : ℤ) :
    unit.bucketExpr t = unit.grid.floor t := by
  simp only [CandleUnit.bucketExpr, Grid.floor, Timeframe.grid, epochGrid, sub_zero]

theorem rowNumber_eq_one {before : Tick → Tick → Prop} [DecidableRel before] [Std.Total before]
    {ticks : List Tick} {t : Tick} :
    rowNumber before ticks t = 1 ↔ ∀ u ∈ ticks, before t u := by
  rw [rowNumber, Nat.add_eq_right, length_eq_zero_iff, filter_eq_nil_iff]
  refine forall₂_congr (fun u _ ↦ ?_)
  have := Std.Total.total (r := before) t u
  simp only [Bool.and_eq_true, decide_eq_true_eq, Bool.not_eq_true', decide_eq_false_iff_not]
  tauto

theorem valueOfFirst_isSome (before : Tick → Tick → Prop) [DecidableRel before]
    [Std.Total before] [IsTrans Tick before] {ticks : List Tick} (h : ticks ≠ []) :
    ∃ value, valueOfFirst before ticks = some value := by
  obtain ⟨first, hfirst⟩ := exists_firstBy (r := before) h
  obtain ⟨hf, hall⟩ := firstBy_spec hfirst
  refine Option.isSome_iff_exists.mp (isSome_max?_of_mem (a := first.value) ?_)
  exact mem_map_of_mem (mem_filter.mpr ⟨hf, decide_eq_true (rowNumber_eq_one.mpr hall)⟩)

theorem valueOfFirst_spec {before : Tick → Tick → Prop} [DecidableRel before]
    [Std.Total before] {ticks : List Tick} {value : ℚ}
    (h : valueOfFirst before ticks = some value) :
    ∃ t ∈ ticks, t.value = value ∧ ∀ u ∈ ticks, before t u := by
  obtain ⟨t, ht, hv⟩ := mem_map.mp (max?_eq_some_iff.mp h).1
  rw [mem_filter, decide_eq_true_eq, rowNumber_eq_one] at ht
  exact ⟨t, ht.1, hv, ht.2⟩

theorem loadedCandle_isSome (start : ℤ) {ticks : List Tick} (h : ticks ≠ []) :
    ∃ c, loadedCandle start ticks = some c := by
  obtain ⟨opening, hopening⟩ := valueOfFirst_isSome earlier h
  obtain ⟨close, hclose⟩ := valueOfFirst_isSome later h
  have hvalues : ticks.map Tick.value ≠ [] := by simpa using h
  obtain ⟨high, hhigh⟩ := Option.isSome_iff_exists.mp (isSome_max?_of_ne_nil hvalues)
  obtain ⟨low, hlow⟩ := Option.isSome_iff_exists.mp (isSome_min?_of_ne_nil hvalues)
  simp [loadedCandle, hopening, hclose, hhigh, hlow]

theorem loadedCandle_spec {start : ℤ} {ticks : List Tick} {c : Candle}
    (h : loadedCandle start ticks = some c) : c.start = start ∧ c.Draws {t | t ∈ ticks} := by
  simp only [loadedCandle, Option.bind_eq_bind, Option.bind_eq_some_iff, Option.pure_def,
    Option.some.injEq] at h
  obtain ⟨opening, hopening, high, hhigh, low, hlow, close, hclose, rfl⟩ := h
  obtain ⟨hh, hmax⟩ := max?_eq_some_iff.mp hhigh
  obtain ⟨hw, hmin⟩ := min?_eq_some_iff.mp hlow
  refine ⟨rfl, valueOfFirst_spec hopening, valueOfFirst_spec hclose, ⟨?_, ?_⟩, ⟨?_, ?_⟩⟩
  · exact mem_map.mp hh
  · exact fun u hu ↦ hmax _ (mem_map_of_mem hu)
  · exact mem_map.mp hw
  · exact fun u hu ↦ hmin _ (mem_map_of_mem hu)

theorem loadedCandle_start (start : ℤ) (ticks : List Tick) (c : Candle)
    (h : loadedCandle start ticks = some c) : c.start = start := (loadedCandle_spec h).1

theorem tickCandles_isChart (unit : CandleUnit) (ticks : List Tick) :
    IsChart unit.grid {t | t ∈ ticks} (tickCandles unit ticks) := by
  have h := summarise_isChart (v := id) (fun t : Tick ↦ unit.bucketExpr_eq t.observedAt)
    (fun _ _ _ h ↦ loadedCandle_spec h) (fun start _ h ↦ loadedCandle_isSome start h) ticks
  rwa [map_id] at h

theorem fourHour_isChart {ticks : Set Tick} {hourly : List Candle}
    (h : IsChart CandleUnit.hour.grid ticks hourly) :
    IsChart Timeframe.fourHour.grid ticks (resample hourly Timeframe.fourHour.seconds) :=
  resample_isChart h Timeframe.fourHour.seconds_pos oneHour_refines_fourHour
    (fun _ hb ↦ second_dvd_boundary .oneHour hb)

theorem candleBuckets_all {table : Table} {symbol : String} (iv : CandleInterval) {upper : ℤ}
    {limit : ℕ} (hupper : ∀ t ∈ table.okTicks symbol, t.observedAt < upper)
    (hlimit : (table.okTicks symbol).length ≤ limit) :
    candleBuckets table symbol iv none upper limit = aggregate iv (table.okTicks symbol) := by
  have hall : (table.okTicks symbol).filter (fun t ↦ inWindow none upper t.observedAt) =
      table.okTicks symbol := by
    rw [filter_eq_self]
    intro t ht
    simp [inWindow, hupper t ht]
  rw [candleBuckets, hall]
  exact newest_of_length_le ((length_summarise_le _ _).trans hlimit)

theorem loadCandles_all {table : Table} {symbol : String} {unit : CandleUnit} {limit : ℕ}
    {now : ℤ} (hwindow : ∀ t ∈ table.okTicks symbol,
      scanSince unit limit now ≤ t.observedAt ∧ t.observedAt ≤ now)
    (hlimit : (table.okTicks symbol).length ≤ limit) :
    loadCandles table symbol unit limit now = tickCandles unit (table.okTicks symbol) := by
  have hall : (table.okTicks symbol).filter (fun t ↦
      decide (scanSince unit limit now ≤ t.observedAt) && decide (t.observedAt ≤ now)) =
      table.okTicks symbol := by
    rw [filter_eq_self]
    intro t ht
    simp [hwindow t ht]
  rw [loadCandles, hall]
  exact newest_of_length_le ((length_summarise_le _ _).trans hlimit)

theorem mem_completed {candles : List Candle} {seconds now : ℤ} {c : Candle} :
    c ∈ completed candles seconds now ↔ c ∈ candles ∧ c.start + seconds * second ≤ now := by
  rw [completed, mem_filter, closesBy, decide_eq_true_eq]

theorem mem_completed_iff_confirmed (iv : CandleInterval) {candles : List Candle} {c : Candle}
    (hc : c ∈ candles) (now : ℤ) :
    c ∈ completed candles iv.seconds now ↔ iv.confirmed c.start now = true := by
  rw [mem_completed, CandleInterval.confirmed_iff]
  exact and_iff_right hc

/-- The chart and the trend engine draw the same candles from the ticks of a
symbol, and call the same ones finished. -/
theorem chart_and_engine_agree (table : Table) (symbol : String) :
    (∀ upper limit, (∀ t ∈ table.okTicks symbol, t.observedAt < upper) →
      (table.okTicks symbol).length ≤ limit →
      (candleBuckets table symbol fourHourInterval none upper limit).map CandleBar.candle =
        resample (tickCandles .hour (table.okTicks symbol)) Timeframe.fourHour.seconds ∧
      (candleBuckets table symbol hourInterval none upper limit).map CandleBar.candle =
        tickCandles .hour (table.okTicks symbol) ∧
      (candleBuckets table symbol dayInterval none upper limit).map CandleBar.candle =
        tickCandles .day (table.okTicks symbol)) ∧
    (∀ unit limit now, (∀ t ∈ table.okTicks symbol,
        scanSince unit limit now ≤ t.observedAt ∧ t.observedAt ≤ now) →
      (table.okTicks symbol).length ≤ limit →
      loadCandles table symbol unit limit now = tickCandles unit (table.okTicks symbol)) ∧
    ∀ (candles : List Candle) (c : Candle) (now : ℤ), c ∈ candles →
      (c ∈ completed candles Timeframe.fourHour.seconds now ↔
        fourHourInterval.confirmed c.start now = true) ∧
      (c ∈ completed candles Timeframe.oneHour.seconds now ↔
        hourInterval.confirmed c.start now = true) ∧
      (c ∈ completed candles Timeframe.oneDay.seconds now ↔
        dayInterval.confirmed c.start now = true) := by
  have hid := table.distinct symbol
  have hhour := tickCandles_isChart .hour (table.okTicks symbol)
  have hday := tickCandles_isChart .day (table.okTicks symbol)
  refine ⟨fun upper limit hupper hlimit ↦ ⟨?_, ?_, ?_⟩,
    fun unit limit now hwindow hlimit ↦ loadCandles_all hwindow hlimit,
    fun candles c now hc ↦ ⟨mem_completed_iff_confirmed fourHourInterval hc now,
      mem_completed_iff_confirmed hourInterval hc now,
      mem_completed_iff_confirmed dayInterval hc now⟩⟩
  · rw [candleBuckets_all _ hupper hlimit]
    exact (aggregate_isChart fourHourInterval _).unique hid (fourHour_isChart hhour)
  · rw [candleBuckets_all _ hupper hlimit]
    exact (aggregate_isChart hourInterval _).unique hid hhour
  · rw [candleBuckets_all _ hupper hlimit]
    exact (aggregate_isChart dayInterval _).unique hid hday

def point (c : Candle) : ℤ × ℚ := (c.start, c.close)

def points (candles : List Candle) : List (ℤ × ℚ) := candles.map point

theorem points_ascending {candles : List Candle} :
    AscendingBy Prod.fst (points candles) ↔ AscendingBy Candle.start candles :=
  pairwise_map

theorem points_completed (candles : List Candle) (seconds now : ℤ) :
    points (completed candles seconds now) =
      (points candles).filter (fun p ↦ p.1 + seconds * second ≤ now) := by
  rw [points, points, filter_map]
  rfl

theorem completed_suffix {candles candles' : List Candle} (h : points candles <:+ points candles')
    (seconds now : ℤ) :
    points (completed candles seconds now) <:+ points (completed candles' seconds now) := by
  rw [points_completed, points_completed]
  exact h.filter _

theorem sma_of_suffix {values values' : List ℚ} {period : ℕ} (h : values <:+ values')
    (hlen : period ≤ values.length) : sma values period = sma values' period := by
  have hlen' := hlen.trans h.length_le
  have hnewest := newest_of_suffix h hlen
  rw [newest_eq_drop, newest_eq_drop] at hnewest
  rw [sma, sma, hnewest]
  simp only [not_lt.mpr hlen, not_lt.mpr hlen']

theorem movingAverage_of_suffix {values values' : List ℚ} {period : ℕ} {maType : MaType}
    (h : values <:+ values') (hlen : period ≤ values.length)
    (hseed : maType = .sma ∨ values.length = values'.length) :
    movingAverage values period maType = movingAverage values' period maType := by
  rcases hseed with rfl | hlength
  · exact sma_of_suffix h hlen
  · rw [h.eq_of_length hlength]

theorem movingAverage_isSome (values : List ℚ) {period : ℕ} (hpos : 0 < period)
    (hlen : period ≤ values.length) (maType : MaType) :
    ∃ ma, movingAverage values period maType = some ma := by
  have hcond : ¬ (period = 0 ∨ values.length < period) := by omega
  cases maType with
  | sma => exact ⟨_, if_neg hcond⟩
  | ema => exact ⟨_, if_neg hcond⟩

theorem judge_fresh {tf : Timeframe} {done : List Candle} {now : ℤ} {config : TrendConfig}
    (h : (judge tf done now config).dataFresh = true) : done ≠ [] := by
  rintro rfl
  simp [judge] at h

theorem judge_trend {tf : Timeframe} {done : List Candle} {now : ℤ} {config : TrendConfig}
    {last : Candle} (hlast : done.getLast? = some last) :
    (judge tf done now config).dataFresh = decide ((((now - (last.start + tf.seconds * second) : ℤ) :
      ℚ) / second) ≤ config.staleBuckets * tf.seconds) ∧
    (judge tf done now config).trend =
      if (judge tf done now config).dataFresh = true ∧ config.slow ≤ done.length then
        trendState (some last.close) (movingAverage (done.map Candle.close) config.fast config.maType)
          (movingAverage (done.map Candle.close) config.mid config.maType)
          (movingAverage (done.map Candle.close) config.slow config.maType)
      else .unavailable := by
  simp only [judge, hlast]
  generalize decide ((((now - (last.start + tf.seconds * second) : ℤ) : ℚ) / second) ≤
    config.staleBuckets * tf.seconds) = fresh
  cases fresh with
  | false => exact ⟨rfl, rfl⟩
  | true =>
    by_cases hlen : config.slow ≤ done.length
    · simp [hlen, not_lt.mpr hlen]
    · simp [hlen, not_le.mp hlen]

theorem judge_unavailable {tf : Timeframe} {done : List Candle} {now : ℤ} {config : TrendConfig}
    (h : done.length < config.slow) : (judge tf done now config).trend = .unavailable := by
  cases hlast : done.getLast? with
  | none => simp [judge, hlast]
  | some last =>
    rw [(judge_trend hlast).2, if_neg]
    omega

theorem trendState_available {price ma26 ma48 ma220 : ℚ} :
    trendState (some price) (some ma26) (some ma48) (some ma220) ≠ .unavailable := by
  simp only [trendState]
  split
  · simp
  · split <;> simp

theorem judge_available {tf : Timeframe} {done : List Candle} {now : ℤ} {config : TrendConfig}
    (hfresh : (judge tf done now config).dataFresh = true) (hlen : config.slow ≤ done.length) :
    (judge tf done now config).trend ≠ .unavailable := by
  have := config.fast_lt_mid
  have := config.mid_lt_slow
  obtain ⟨last, hlast⟩ := Option.ne_none_iff_exists'.mp
    (fun hn ↦ judge_fresh hfresh (getLast?_eq_none_iff.mp hn))
  have hlength : (done.map Candle.close).length = done.length := length_map _
  have hmid : 0 < config.mid := by omega
  have hslow : 0 < config.slow := by omega
  obtain ⟨ma26, h26⟩ := movingAverage_isSome (done.map Candle.close) config.fast_pos (by omega)
    config.maType
  obtain ⟨ma48, h48⟩ := movingAverage_isSome (done.map Candle.close) hmid (by omega) config.maType
  obtain ⟨ma220, h220⟩ := movingAverage_isSome (done.map Candle.close) hslow (by omega)
    config.maType
  rw [(judge_trend hlast).2, if_pos ⟨hfresh, hlen⟩, h26, h48, h220]
  exact trendState_available

theorem getLast_of_suffix {α : Type*} {l l' : List α} (h : l <:+ l') (hne : l ≠ []) :
    l.getLast? = l'.getLast? := by
  obtain ⟨front, rfl⟩ := h
  rw [getLast?_append_of_ne_nil _ hne]

theorem last_of_suffix {done done' : List Candle} {ref : List (ℤ × ℚ)} (h : points done <:+ ref)
    (h' : points done' <:+ ref) (hne : done ≠ []) (hne' : done' ≠ []) :
    ∃ last last', done.getLast? = some last ∧ done'.getLast? = some last' ∧
      point last = point last' := by
  obtain ⟨last, hlast⟩ := Option.ne_none_iff_exists'.mp (mt getLast?_eq_none_iff.mp hne)
  obtain ⟨last', hlast'⟩ := Option.ne_none_iff_exists'.mp (mt getLast?_eq_none_iff.mp hne')
  have h₁ := getLast_of_suffix h (by simpa [points] using hne)
  have h₂ := getLast_of_suffix h' (by simpa [points] using hne')
  rw [← h₂, points, points, getLast?_map, getLast?_map, hlast, hlast'] at h₁
  exact ⟨last, last', hlast, hlast', Option.some.inj h₁⟩

theorem judge_fresh_eq {tf : Timeframe} {done done' : List Candle} {ref : List (ℤ × ℚ)} {now : ℤ}
    {config : TrendConfig} (h : points done <:+ ref) (h' : points done' <:+ ref) (hne : done ≠ [])
    (hne' : done' ≠ []) :
    (judge tf done now config).dataFresh = (judge tf done' now config).dataFresh := by
  obtain ⟨last, last', hlast, hlast', hpoint⟩ := last_of_suffix h h' hne hne'
  have hstart : last.start = last'.start := congrArg Prod.fst hpoint
  rw [(judge_trend hlast).1, (judge_trend hlast').1, hstart]

theorem judge_trend_eq {tf : Timeframe} {done done' : List Candle} {ref : List (ℤ × ℚ)}
    {now now' : ℤ} {config : TrendConfig} (h : points done <:+ ref) (h' : points done' <:+ ref)
    (hlen : config.slow ≤ done.length) (hlen' : config.slow ≤ done'.length)
    (hseed : config.maType = .sma ∨ done.length = done'.length)
    (hfresh : (judge tf done now config).dataFresh = (judge tf done' now' config).dataFresh) :
    (judge tf done now config).trend = (judge tf done' now' config).trend := by
  have := config.fast_pos
  have := config.fast_lt_mid
  have := config.mid_lt_slow
  have hne : done ≠ [] := ne_nil_of_length_pos (by omega)
  have hne' : done' ≠ [] := ne_nil_of_length_pos (by omega)
  obtain ⟨last, last', hlast, hlast', hpoint⟩ := last_of_suffix h h' hne hne'
  have hclose : last.close = last'.close := congrArg Prod.snd hpoint
  have hcloses (candles : List Candle) :
      candles.map Candle.close = (points candles).map Prod.snd := by
    rw [points, map_map]
    rfl
  -- the shorter list of closes is a suffix of the longer one
  have hma (period : ℕ) (hperiod : period ≤ config.slow) :
      movingAverage (done.map Candle.close) period config.maType =
        movingAverage (done'.map Candle.close) period config.maType := by
    rcases le_total done.length done'.length with hle | hle
    · refine movingAverage_of_suffix ?_ (by rw [length_map]; omega) (by simpa using hseed)
      rw [hcloses, hcloses]
      exact (suffix_of_suffix_length_le h h' (by simpa [points] using hle)).map _
    · refine (movingAverage_of_suffix ?_ (by rw [length_map]; omega)
        (by simpa [eq_comm] using hseed)).symm
      rw [hcloses, hcloses]
      exact (suffix_of_suffix_length_le h' h (by simpa [points] using hle)).map _
  rw [(judge_trend hlast).2, (judge_trend hlast').2, hfresh, hclose, hma config.fast (by omega),
    hma config.mid (by omega), hma config.slow le_rfl]
  simp only [hlen, hlen']

theorem mem_points {candles : List Candle} {p : ℤ × ℚ} :
    p ∈ points candles ↔ ∃ c ∈ candles, point c = p := mem_map

theorem point_of_mem_resample {candles : List Candle} {seconds : ℤ} {d : Candle}
    (hd : d ∈ resample candles seconds) :
    ∃ c ∈ candles, bucketStart c.start seconds = d.start ∧ c.close = d.close ∧
      ∀ e ∈ candles, bucketStart e.start seconds = d.start → e.start ≤ c.start := by
  obtain ⟨c, hc, hclose, hlast⟩ := (merges_of_mem_resample hd).close
  rw [mem_filter, decide_eq_true_eq] at hc
  refine ⟨c, hc.1, hc.2, hclose, fun e he hk ↦ ?_⟩
  exact hlast e (mem_filter.mpr ⟨he, decide_eq_true hk⟩)

theorem resample_suffix {candles candles' : List Candle}
    (h' : AscendingBy Candle.start candles') (hs : points candles <:+ points candles')
    {seconds : ℤ} (hpos : 0 < seconds) :
    points (resample candles seconds) <:+ points (resample candles' seconds) := by
  have hp' : AscendingBy Prod.fst (points candles') := points_ascending.mpr h'
  have hp : AscendingBy Prod.fst (points candles) := hp'.sublist hs.sublist
  have hr' : AscendingBy Prod.fst (points (resample candles' seconds)) :=
    points_ascending.mpr (resample_ascending _ _)
  -- a candle of the long list that is not before one of the short list is in both
  have hboth {a b : Candle} (ha : a ∈ candles) (hb : b ∈ candles') (hab : a.start ≤ b.start) :
      ∃ c ∈ candles, point c = point b :=
    mem_points.mp (hp'.mem_of_suffix hs (mem_points.mpr ⟨a, ha, rfl⟩) (mem_points.mpr ⟨b, hb, rfl⟩)
      hab)
  have hmem {d : Candle} (hd : d ∈ resample candles seconds) :
      point d ∈ points (resample candles' seconds) := by
    obtain ⟨c, hc, hkey, hclose, hlast⟩ := point_of_mem_resample hd
    obtain ⟨c', hc', hpoint⟩ := mem_points.mp (hs.subset (mem_points.mpr ⟨c, hc, rfl⟩))
    have hstart : c'.start = c.start := congrArg Prod.fst hpoint
    obtain ⟨d', hd', hds⟩ := exists_mem_resample hc' seconds
    rw [hstart, hkey] at hds
    obtain ⟨l, hl, hlkey, hlclose, hllast⟩ := point_of_mem_resample hd'
    have hle : c.start ≤ l.start := hstart ▸ hllast c' hc' (by rw [hstart, hkey, hds])
    obtain ⟨e, he, hepoint⟩ := hboth hc hl hle
    have hestart : e.start = l.start := congrArg Prod.fst hepoint
    have hge : e.start ≤ c.start := hlast e he (by rw [hestart, hlkey, hds])
    have hec : e = c :=
      (points_ascending.mp hp).eq_of_start he hc (by omega)
    have hlc : l.close = c.close := hec ▸ (congrArg Prod.snd hepoint).symm
    refine mem_points.mpr ⟨d', hd', Prod.ext hds ?_⟩
    exact (hlclose.symm.trans hlc).trans hclose
  have hr : AscendingBy Prod.fst (points (resample candles seconds)) :=
    points_ascending.mpr (resample_ascending _ _)
  refine hr.suffix hr' ?_ ?_
  · intro p hpmem
    obtain ⟨d, hd, rfl⟩ := mem_points.mp hpmem
    exact hmem hd
  · intro p hpmem q hqmem hpq
    obtain ⟨a, ha, rfl⟩ := mem_points.mp hpmem
    obtain ⟨b, hb, rfl⟩ := mem_points.mp hqmem
    obtain ⟨c, hc, hckey, _⟩ := point_of_mem_resample ha
    obtain ⟨m, hm, hmkey, _⟩ := point_of_mem_resample hb
    have hlt : c.start ≤ m.start := by
      by_contra hgt
      have := bucketStart_mono hpos (not_le.mp hgt).le
      rw [hckey, hmkey] at this
      exact absurd hpq (not_lt.mpr this)
    obtain ⟨e, he, hepoint⟩ := hboth hc hm hlt
    obtain ⟨d, hd, hds⟩ := exists_mem_resample he seconds
    have hestart : e.start = m.start := congrArg Prod.fst hepoint
    rw [hestart, hmkey] at hds
    have heq : point d = point b := hr'.eq_of_start (hmem hd) hqmem hds
    exact mem_points.mpr ⟨d, hd, heq⟩

def closedHistory (table : Table) (symbol : String) (at_ : ℤ) (tf : Timeframe) : List Candle :=
  completed (series (tickCandles .hour (table.okTicks symbol))
    (tickCandles .day (table.okTicks symbol)) tf) tf.seconds at_

theorem tickCandles_ascending (unit : CandleUnit) (ticks : List Tick) :
    AscendingBy Candle.start (tickCandles unit ticks) := summarise_ascending loadedCandle_start _

theorem scan_suffix (table : Table) (symbol : String) (unit : CandleUnit) {since at_ now : ℤ}
    (hnow : at_ ≤ now) :
    points (completed (tickCandles unit ((table.okTicks symbol).filter (fun t ↦
        decide (since ≤ t.observedAt) && decide (t.observedAt ≤ now)))) unit.seconds at_) <:+
      points (completed (tickCandles unit (table.okTicks symbol)) unit.seconds at_) := by
  set ticks := table.okTicks symbol
  set scanned := ticks.filter (fun t ↦
    decide (since ≤ t.observedAt) && decide (t.observedAt ≤ now)) with hscanned
  have hid := table.distinct symbol
  have hchart := tickCandles_isChart unit scanned
  have hchart' := tickCandles_isChart unit ticks
  have hin {t : Tick} (ht : t ∈ ticks) (hsince : since ≤ t.observedAt) {start : ℤ}
      (hfloor : unit.grid.floor t.observedAt = start) (hend : start + unit.seconds * second ≤ at_) :
      t ∈ scanned := by
    have hlt : t.observedAt < start + unit.seconds * second :=
      hfloor ▸ Grid.lt_floor_add (g := unit.grid) t.observedAt
    refine mem_filter.mpr ⟨ht, ?_⟩
    simp only [Bool.and_eq_true, decide_eq_true_eq]
    omega
  have hout {t : Tick} (ht : t ∈ scanned) : t ∈ ticks ∧ since ≤ t.observedAt := by
    rw [hscanned, mem_filter, Bool.and_eq_true, decide_eq_true_eq] at ht
    exact ⟨ht.1, ht.2.1⟩
  have hmem {c : Candle} (hc : c ∈ completed (tickCandles unit scanned) unit.seconds at_) :
      point c ∈ points (completed (tickCandles unit ticks) unit.seconds at_) := by
    obtain ⟨hc, hend⟩ := mem_completed.mp hc
    obtain ⟨t, ht, htc, hlast⟩ := (hchart.draws c hc).close
    obtain ⟨htt, hsince⟩ := hout ht.1
    obtain ⟨d, hd, hds⟩ := hchart'.covers t htt
    have hstart : d.start = c.start := hds.trans ht.2
    obtain ⟨u, hu, huc, hlast'⟩ := (hchart'.draws d hd).close
    rw [hstart] at hu hlast'
    have htu := hlast' t ⟨htt, ht.2⟩
    have huscan : u ∈ scanned := hin hu.1 (hsince.trans htu.observedAt_le) hu.2 hend
    have hut := hlast u ⟨huscan, hu.2⟩
    have heq : t = u := hid.eq htt hu.1 htu hut
    refine mem_points.mpr ⟨d, mem_completed.mpr ⟨hd, by rw [hstart]; exact hend⟩, ?_⟩
    exact Prod.ext hstart (by rw [point, point, ← huc, ← heq, htc])
  have hasc (ticks : List Tick) :
      AscendingBy Prod.fst (points (completed (tickCandles unit ticks) unit.seconds at_)) :=
    points_ascending.mpr ((tickCandles_ascending _ _).filter _)
  refine (hasc scanned).suffix (hasc ticks) ?_ ?_
  · intro p hp
    obtain ⟨c, hc, rfl⟩ := mem_points.mp hp
    exact hmem hc
  · intro p hp q hq hpq
    obtain ⟨a, ha, rfl⟩ := mem_points.mp hp
    obtain ⟨b, hb, rfl⟩ := mem_points.mp hq
    obtain ⟨t, ht, hta⟩ := hchart.exists_tick (mem_completed.mp ha).1
    obtain ⟨hb', hend⟩ := mem_completed.mp hb
    obtain ⟨u, hu, hub⟩ := hchart'.exists_tick hb'
    have hsince : since ≤ u.observedAt := by
      have hstep := (hchart.isBoundary (mem_completed.mp ha).1).add_width_le
        (hchart'.isBoundary hb') hpq
      have hlt := Grid.lt_floor_add (g := unit.grid) t.observedAt
      have hle := Grid.floor_le (g := unit.grid) u.observedAt
      have := (hout ht).2
      rw [hta] at hlt
      rw [hub] at hle
      omega
    have huscan : u ∈ scanned := hin hu hsince hub hend
    obtain ⟨d, hd, hds⟩ := hchart.covers u huscan
    have hstart : d.start = b.start := hds.trans hub
    have hdc : d ∈ completed (tickCandles unit scanned) unit.seconds at_ :=
      mem_completed.mpr ⟨hd, by rw [hstart]; exact hend⟩
    exact mem_points.mpr ⟨d, hdc, (hasc ticks).eq_of_start (hmem hdc) hq hstart⟩

theorem load_suffix (table : Table) (symbol : String) (unit : CandleUnit) (limit : ℕ) {at_ now : ℤ}
    (hnow : at_ ≤ now) :
    points (completed (loadCandles table symbol unit limit now) unit.seconds at_) <:+
      points (completed (tickCandles unit (table.okTicks symbol)) unit.seconds at_) :=
  (completed_suffix ((newest_suffix limit _).map point) _ _).trans (scan_suffix _ _ _ hnow)

theorem aligned_of_boundary {c : Candle} (h : Timeframe.oneHour.grid.IsBoundary c.start) :
    bucketStart c.start Timeframe.oneHour.seconds = c.start := by
  rw [bucketStart_eq Timeframe.oneHour.seconds_pos (second_dvd_boundary .oneHour h)]
  exact h.floor_eq

def hourlyHistory (table : Table) (symbol : String) : HourlySeries where
  candles := tickCandles .hour (table.okTicks symbol)
  aligned := fun _ hc ↦ aligned_of_boundary ((tickCandles_isChart .hour _).isBoundary hc)

def hourlyLoad (table : Table) (symbol : String) (limit : ℕ) (now : ℤ) : HourlySeries where
  candles := loadCandles table symbol .hour limit now
  aligned := fun _ hc ↦ aligned_of_boundary
    ((tickCandles_isChart .hour _).isBoundary ((newest_suffix _ _).subset hc))

theorem leg_suffix {table : Table} {symbol : String} (hourly : HourlySeries) {daily : List Candle}
    {at_ : ℤ}
    (hh : points (completed hourly.candles Timeframe.oneHour.seconds at_) <:+
      points (closedHistory table symbol at_ .oneHour))
    (hd : points (completed daily Timeframe.oneDay.seconds at_) <:+
      points (closedHistory table symbol at_ .oneDay)) (tf : Timeframe) :
    points (completed (series hourly.candles daily tf) tf.seconds at_) <:+
      points (closedHistory table symbol at_ tf) := by
  cases tf with
  | oneDay => exact hd
  | oneHour => exact hh
  | fourHour =>
    have hall : closedHistory table symbol at_ .fourHour =
        completed (resample (closedHistory table symbol at_ .oneHour) Timeframe.fourHour.seconds)
          Timeframe.fourHour.seconds at_ := (hourlyHistory table symbol).completed_resample at_
    rw [hall, series, hourly.completed_resample]
    refine completed_suffix (resample_suffix ?_ hh Timeframe.fourHour.seconds_pos) _ _
    exact (tickCandles_ascending _ _).filter _

theorem evaluateTimeframe_trend_eq {table : Table} {symbol : String} {tf : Timeframe} {at_ : ℤ}
    {config : TrendConfig} {candles candles' : List Candle}
    (h : points (completed candles tf.seconds at_) <:+ points (closedHistory table symbol at_ tf))
    (h' : points (completed candles' tf.seconds at_) <:+ points (closedHistory table symbol at_ tf))
    (hlen : config.slow ≤ (completed candles tf.seconds at_).length)
    (hlen' : config.slow ≤ (completed candles' tf.seconds at_).length)
    (hseed : config.maType = .sma ∨
      (completed candles tf.seconds at_).length = (completed candles' tf.seconds at_).length) :
    (evaluateTimeframe tf candles at_ config).trend =
      (evaluateTimeframe tf candles' at_ config).trend := by
  have := config.fast_pos
  have := config.fast_lt_mid
  have := config.mid_lt_slow
  refine judge_trend_eq h h' hlen hlen' hseed (judge_fresh_eq h h' ?_ ?_)
  · exact ne_nil_of_length_pos (by omega)
  · exact ne_nil_of_length_pos (by omega)

end TalaPala.Trend
