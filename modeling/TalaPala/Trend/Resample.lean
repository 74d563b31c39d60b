import TalaPala.Prices.Intervals
import TalaPala.Prices.Ticks

namespace TalaPala.Trend

open Library Prices List

inductive TrendState
  | bullish
  | bearish
  | neutral
  | unavailable
  deriving DecidableEq

inductive Alignment
  | fullBullish
  | fullBearish
  | notAligned
  deriving DecidableEq

inductive MaType
  | ema
  | sma
  deriving DecidableEq

inductive Timeframe
  | oneDay
  | fourHour
  | oneHour
  deriving DecidableEq

def Timeframe.seconds : Timeframe → ℤ
  | .oneDay => 86400
  | .fourHour => 4 * 3600
  | .oneHour => 3600

theorem Timeframe.seconds_pos (tf : Timeframe) : 0 < tf.seconds := by
  cases tf <;> decide

def Timeframe.grid (tf : Timeframe) : Grid := epochGrid tf.seconds tf.seconds_pos

/-- A configuration that has passed `validate`. -/
structure TrendConfig where
  maType : MaType := .ema
  fast : ℕ := 26
  mid : ℕ := 48
  slow : ℕ := 220
  staleBuckets : ℚ := 3
  fast_pos : 0 < fast := by decide
  fast_lt_mid : fast < mid := by decide
  mid_lt_slow : mid < slow := by decide

/-- `int(slow * WARMUP_FACTOR)` with a factor of 1.3. -/
def warmupCandles (config : TrendConfig) : ℕ := config.slow * 13 / 10

inductive Reason
  | none
  | noCompletedCandles
  | stale (buckets : ℚ)
  | tooFew (have_ required : ℕ)
  | warmingUp (have_ needed : ℕ)

structure TimeframeResult where
  timeframe : Timeframe
  trend : TrendState := .unavailable
  price : Option ℚ := none
  ma26 : Option ℚ := none
  ma48 : Option ℚ := none
  ma220 : Option ℚ := none
  candleOpenTime : Option ℤ := none
  candleCloseTime : Option ℤ := none
  confirmed : Bool := false
  dataFresh : Bool := false
  maType : MaType
  historyPoints : ℕ := 0
  reason : Reason := .none

def sma (values : List ℚ) (period : ℕ) : Option ℚ :=
  if period = 0 ∨ values.length < period then none
  else some ((values.drop (values.length - period)).sum / period)

/-- Seeded with the mean of the first `period` values. -/
def ema (values : List ℚ) (period : ℕ) : Option ℚ :=
  if period = 0 ∨ values.length < period then none
  else
    let k : ℚ := 2 / (period + 1)
    some ((values.drop period).foldl (fun current value ↦ (value - current) * k + current)
      ((values.take period).sum / period))

def movingAverage (values : List ℚ) (period : ℕ) : MaType → Option ℚ
  | .sma => sma values period
  | .ema => ema values period

def trendState : Option ℚ → Option ℚ → Option ℚ → Option ℚ → TrendState
  | some price, some ma26, some ma48, some ma220 =>
    if ma26 < price ∧ ma48 < ma26 ∧ ma220 < ma48 then .bullish
    else if price < ma26 ∧ ma26 < ma48 ∧ ma48 < ma220 then .bearish
    else .neutral
  | _, _, _, _ => .unavailable

def alignment (oneDay fourHour oneHour : TrendState) : Alignment :=
  let states := [oneDay, fourHour, oneHour]
  if states.any (fun s ↦ s = .unavailable) then .notAligned
  else if states.all (fun s ↦ s = .bullish) then .fullBullish
  else if states.all (fun s ↦ s = .bearish) then .fullBearish
  else .notAligned

/-- `int(at.timestamp())` truncates, and the remainder is taken of what is left. -/
def bucketStart (at_ seconds : ℤ) : ℤ :=
  let epoch := at_.tdiv second
  (epoch - epoch % seconds) * second

def startsBefore (c d : Candle) : Prop := c.start ≤ d.start

instance : DecidableRel startsBefore := fun c d ↦ inferInstanceAs (Decidable (c.start ≤ d.start))

def mergedCandle (start : ℤ) (group : List Candle) : Option Candle := do
  let first ← firstBy startsBefore group
  let high ← (group.map Candle.high).max?
  let low ← (group.map Candle.low).min?
  let last ← lastBy startsBefore group
  return {
    start := start
    opening := first.opening
    high := high
    low := low
    close := last.close }

def resample (candles : List Candle) (seconds : ℤ) : List Candle :=
  summarise (fun c ↦ bucketStart c.start seconds) mergedCandle candles

def closesBy (seconds now : ℤ) (c : Candle) : Bool := decide (c.start + seconds * second ≤ now)

def completed (candles : List Candle) (seconds now : ℤ) : List Candle :=
  candles.filter (closesBy seconds now)

/-- What the closed candles of one timeframe say at `now`. -/
def judge (tf : Timeframe) (done : List Candle) (now : ℤ) (config : TrendConfig) :
    TimeframeResult :=
  match done.getLast? with
  | none =>
    { timeframe := tf, maType := config.maType, reason := .noCompletedCandles }
  | some last =>
    let closeTime := last.start + tf.seconds * second
    let age : ℚ := ((now - closeTime : ℤ) : ℚ) / second
    let res : TimeframeResult :=
      { timeframe := tf
        maType := config.maType
        historyPoints := done.length
        candleOpenTime := some last.start
        candleCloseTime := some closeTime
        confirmed := true
        price := some last.close
        dataFresh := decide (age ≤ config.staleBuckets * tf.seconds) }
    if res.dataFresh = false then { res with reason := .stale (age / tf.seconds) }
    else if done.length < config.slow then
      { res with reason := .tooFew done.length config.slow }
    else
      let closes := done.map Candle.close
      let ma26 := movingAverage closes config.fast config.maType
      let ma48 := movingAverage closes config.mid config.maType
      let ma220 := movingAverage closes config.slow config.maType
      { res with
        ma26 := ma26
        ma48 := ma48
        ma220 := ma220
        trend := trendState res.price ma26 ma48 ma220
        reason := if done.length < warmupCandles config then
          .warmingUp done.length (warmupCandles config) else .none }

def evaluateTimeframe (tf : Timeframe) (candles : List Candle) (now : ℤ) (config : TrendConfig) :
    TimeframeResult :=
  judge tf (completed candles tf.seconds now) now config

structure AlignmentResult where
  symbol : String
  alignment : Alignment
  timeframes : Timeframe → TimeframeResult
  calculatedAt : ℤ
  dataFresh : Bool

def AlignmentResult.candleIdentity (result : AlignmentResult) (tf : Timeframe) : Option ℤ :=
  (result.timeframes tf).candleCloseTime

def series (hourly daily : List Candle) : Timeframe → List Candle
  | .oneDay => daily
  | .fourHour => resample hourly Timeframe.fourHour.seconds
  | .oneHour => hourly

def evaluate (symbol : String) (hourly daily : List Candle) (now : ℤ) (config : TrendConfig) :
    AlignmentResult :=
  let results (tf : Timeframe) := evaluateTimeframe tf (series hourly daily tf) now config
  { symbol := symbol
    alignment := alignment (results .oneDay).trend (results .fourHour).trend
      (results .oneHour).trend
    timeframes := results
    calculatedAt := now
    dataFresh := [Timeframe.oneDay, .fourHour, .oneHour].all (fun tf ↦ (results tf).dataFresh) }

instance : Std.Total startsBefore := ⟨fun c d ↦ le_total c.start d.start⟩

instance : IsTrans Candle startsBefore := ⟨fun _ _ _ ↦ le_trans (α := ℤ)⟩

theorem bucketStart_eq {seconds at_ : ℤ} (h : 0 < seconds) (hat : second ∣ at_) :
    bucketStart at_ seconds = (epochGrid seconds h).floor at_ := by
  obtain ⟨epoch, rfl⟩ := hat
  have htdiv : (second * epoch).tdiv second = epoch := Int.mul_tdiv_cancel_left _ (by decide)
  have hmod : (second * epoch) % (seconds * second) = epoch % seconds * second := by
    rw [mul_comm seconds second, Int.mul_emod_mul_of_pos _ _ (by decide), mul_comm]
  simp only [bucketStart, htdiv, Grid.floor, epochGrid, sub_zero, hmod]
  rw [sub_mul, mul_comm epoch]

theorem bucketStart_floor {seconds : ℤ} (h : 0 < seconds) (at_ : ℤ) :
    bucketStart at_ seconds = (epochGrid seconds h).floor (at_.tdiv second * second) := by
  have hself : (at_.tdiv second * second).tdiv second = at_.tdiv second :=
    Int.mul_tdiv_cancel _ (by decide)
  rw [← bucketStart_eq h (Dvd.intro_left _ rfl), bucketStart, bucketStart, hself]

theorem bucketStart_isBoundary (tf : Timeframe) (at_ : ℤ) :
    tf.grid.IsBoundary (bucketStart at_ tf.seconds) :=
  bucketStart_floor tf.seconds_pos at_ ▸ Grid.isBoundary_floor _

theorem bucketStart_mono {seconds a b : ℤ} (h : 0 < seconds) (hab : a ≤ b) :
    bucketStart a seconds ≤ bucketStart b seconds := by
  rw [bucketStart_floor h, bucketStart_floor h]
  apply Grid.floor_mono
  have := Int.tdiv_le_tdiv (c := second) (by decide) hab
  unfold second at *
  omega

theorem second_dvd_boundary (tf : Timeframe) {b : ℤ} (h : tf.grid.IsBoundary b) : second ∣ b := by
  rw [Grid.IsBoundary, Timeframe.grid, epochGrid, sub_zero] at h
  exact (Dvd.intro_left _ rfl).trans h

theorem oneHour_refines_fourHour : Timeframe.oneHour.grid.Refines Timeframe.fourHour.grid :=
  Grid.Refines.of_dvd rfl ⟨4, by decide⟩

theorem mergedCandle_isSome (start : ℤ) {group : List Candle} (h : group ≠ []) :
    ∃ c, mergedCandle start group = some c := by
  obtain ⟨first, hfirst⟩ := exists_firstBy (r := startsBefore) h
  obtain ⟨last, hlast⟩ := exists_lastBy (r := startsBefore) h
  have hhighs : group.map Candle.high ≠ [] := by simpa using h
  have hlows : group.map Candle.low ≠ [] := by simpa using h
  obtain ⟨high, hhigh⟩ := Option.isSome_iff_exists.mp (isSome_max?_of_ne_nil hhighs)
  obtain ⟨low, hlow⟩ := Option.isSome_iff_exists.mp (isSome_min?_of_ne_nil hlows)
  simp [mergedCandle, hfirst, hlast, hhigh, hlow]

structure Merges (c : Candle) (group : List Candle) : Prop where
  opening : ∃ d ∈ group, d.opening = c.opening ∧ ∀ e ∈ group, d.start ≤ e.start
  close : ∃ d ∈ group, d.close = c.close ∧ ∀ e ∈ group, e.start ≤ d.start
  high : (∃ d ∈ group, d.high = c.high) ∧ ∀ e ∈ group, e.high ≤ c.high
  low : (∃ d ∈ group, d.low = c.low) ∧ ∀ e ∈ group, c.low ≤ e.low

theorem mergedCandle_spec {start : ℤ} {group : List Candle} {c : Candle}
    (h : mergedCandle start group = some c) : c.start = start ∧ Merges c group := by
  simp only [mergedCandle, Option.bind_eq_bind, Option.bind_eq_some_iff, Option.pure_def,
    Option.some.injEq] at h
  obtain ⟨first, hfirst, high, hhigh, low, hlow, last, hlast, rfl⟩ := h
  obtain ⟨hf, hall⟩ := firstBy_spec hfirst
  obtain ⟨hl, hall'⟩ := lastBy_spec hlast
  obtain ⟨hh, hmax⟩ := max?_eq_some_iff.mp hhigh
  obtain ⟨hw, hmin⟩ := min?_eq_some_iff.mp hlow
  refine ⟨rfl, ⟨first, hf, rfl, hall⟩, ⟨last, hl, rfl, hall'⟩, ⟨?_, ?_⟩, ⟨?_, ?_⟩⟩
  · exact mem_map.mp hh
  · exact fun e he ↦ hmax _ (mem_map_of_mem he)
  · exact mem_map.mp hw
  · exact fun e he ↦ hmin _ (mem_map_of_mem he)

theorem mergedCandle_start (start : ℤ) (group : List Candle) (c : Candle)
    (h : mergedCandle start group = some c) : c.start = start := (mergedCandle_spec h).1

theorem resample_ascending (candles : List Candle) (seconds : ℤ) :
    AscendingBy Candle.start (resample candles seconds) := summarise_ascending mergedCandle_start _

theorem exists_mem_resample {candles : List Candle} {c : Candle} (hc : c ∈ candles)
    (seconds : ℤ) : ∃ d ∈ resample candles seconds, d.start = bucketStart c.start seconds := by
  have hne : group (fun c ↦ bucketStart c.start seconds) candles
      (bucketStart c.start seconds) ≠ [] :=
    ne_nil_of_mem (mem_group.mpr ⟨hc, rfl⟩)
  obtain ⟨d, hd⟩ := mergedCandle_isSome (bucketStart c.start seconds) hne
  exact ⟨d, mem_summarise.mpr ⟨_, ⟨c, hc, rfl⟩, hd⟩, mergedCandle_start _ _ _ hd⟩

theorem merges_of_mem_resample {candles : List Candle} {seconds : ℤ} {d : Candle}
    (hd : d ∈ resample candles seconds) :
    Merges d (candles.filter (fun c ↦ bucketStart c.start seconds = d.start)) := by
  obtain ⟨k, _, hk⟩ := mem_summarise.mp hd
  obtain rfl := mergedCandle_start _ _ _ hk
  exact (mergedCandle_spec hk).2

theorem resample_isChart {g : Grid} {ticks : Set Tick} {candles : List Candle}
    (h : IsChart g ticks candles) {seconds : ℤ} (hpos : 0 < seconds)
    (hr : g.Refines (epochGrid seconds hpos)) (hwhole : ∀ b, g.IsBoundary b → second ∣ b) :
    IsChart (epochGrid seconds hpos) ticks (resample candles seconds) := by
  set coarse := epochGrid seconds hpos
  have hkey {c : Candle} (hc : c ∈ candles) :
      bucketStart c.start seconds = coarse.floor c.start :=
    bucketStart_eq hpos (hwhole _ (h.isBoundary hc))
  have hcoarse {c : Candle} (hc : c ∈ candles) {t : Tick} (ht : g.floor t.observedAt = c.start) :
      bucketStart c.start seconds = coarse.floor t.observedAt := by
    rw [hkey hc, ← ht, hr.floor_floor]
  -- a tick of a coarse bucket is drawn by one of the candles that merge into it
  have hcandle {d : Candle} {u : Tick} (hu : u ∈ bucket coarse ticks d.start) :
      ∃ c ∈ candles.filter (fun c ↦ bucketStart c.start seconds = d.start),
        u ∈ bucket g ticks c.start := by
    obtain ⟨c, hc, hs⟩ := h.covers u hu.1
    refine ⟨c, mem_filter.mpr ⟨hc, decide_eq_true ?_⟩, hu.1, hs.symm⟩
    rw [hcoarse hc hs.symm]
    exact hu.2
  have hmem {d c : Candle} {u : Tick}
      (hc : c ∈ candles.filter (fun c ↦ bucketStart c.start seconds = d.start))
      (hu : u ∈ bucket g ticks c.start) : u ∈ bucket coarse ticks d.start := by
    rw [mem_filter, decide_eq_true_eq] at hc
    exact ⟨hu.1, by rw [← hcoarse hc.1 hu.2, hc.2]⟩
  have hapart {c e : Candle} (hc : c ∈ candles) (he : e ∈ candles) (hlt : c.start < e.start)
      {t u : Tick} (ht : t ∈ bucket g ticks c.start) (hu : u ∈ bucket g ticks e.start) :
      earlier t u := by
    have hstep := (h.isBoundary hc).add_width_le (h.isBoundary he) hlt
    have hle := Grid.floor_le (g := g) u.observedAt
    have hlt := Grid.lt_floor_add (g := g) t.observedAt
    rw [ht.2] at hlt
    rw [hu.2] at hle
    exact earlier_of_lt (by omega)
  refine ⟨resample_ascending _ _, ?_, ?_⟩
  · intro d hd
    obtain ⟨⟨f, hf, hfo, hfirst⟩, ⟨l, hl, hlc, hlast⟩, ⟨⟨p, hp, hph⟩, hhigh⟩,
      ⟨⟨q, hq, hql⟩, hlow⟩⟩ := merges_of_mem_resample hd
    have hin {c : Candle}
        (hc : c ∈ candles.filter (fun c ↦ bucketStart c.start seconds = d.start)) :
        c ∈ candles := mem_of_mem_filter hc
    refine ⟨?_, ?_, ⟨?_, ?_⟩, ⟨?_, ?_⟩⟩
    · obtain ⟨t, ht, htv, hall⟩ := (h.draws f (hin hf)).opening
      refine ⟨t, hmem hf ht, htv.trans hfo, fun u hu ↦ ?_⟩
      obtain ⟨c, hc, huc⟩ := hcandle hu
      rcases (hfirst c hc).lt_or_eq with hlt | heq
      · exact hapart (hin hf) (hin hc) hlt ht huc
      · exact hall u (heq ▸ huc)
    · obtain ⟨t, ht, htv, hall⟩ := (h.draws l (hin hl)).close
      refine ⟨t, hmem hl ht, htv.trans hlc, fun u hu ↦ ?_⟩
      obtain ⟨c, hc, huc⟩ := hcandle hu
      rcases (hlast c hc).lt_or_eq with hlt | heq
      · exact hapart (hin hc) (hin hl) hlt huc ht
      · exact hall u (heq ▸ huc)
    · obtain ⟨t, ht, htv⟩ := (h.draws p (hin hp)).high.1
      exact ⟨t, hmem hp ht, htv.trans hph⟩
    · intro u hu
      obtain ⟨c, hc, huc⟩ := hcandle hu
      exact ((h.draws c (hin hc)).high.2 u huc).trans (hhigh c hc)
    · obtain ⟨t, ht, htv⟩ := (h.draws q (hin hq)).low.1
      exact ⟨t, hmem hq ht, htv.trans hql⟩
    · intro u hu
      obtain ⟨c, hc, huc⟩ := hcandle hu
      exact (hlow c hc).trans ((h.draws c (hin hc)).low.2 u huc)
  · intro t ht
    obtain ⟨c, hc, hs⟩ := h.covers t ht
    obtain ⟨d, hd, hds⟩ := exists_mem_resample hc seconds
    exact ⟨d, hd, hds.trans (hcoarse hc hs.symm)⟩

end TalaPala.Trend
