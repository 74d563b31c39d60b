import TalaPala.Trend.Resample

namespace TalaPala.Trend

open Library Prices List

inductive Basis
  | fullMtf
  | dailyOnly
  deriving DecidableEq

inductive BarState
  | bullish
  | bearish
  | unaligned
  deriving DecidableEq

def windowDays : List ℕ := [90, 60, 30, 14]

def forwardHorizonSeconds : ℤ := 86400

def intradayMinBucketsPerDay : ℕ := 4

def alignmentState : Alignment → BarState
  | .fullBullish => .bullish
  | .fullBearish => .bearish
  | .notAligned => .unaligned

def trendBarState : TrendState → BarState
  | .bullish => .bullish
  | .bearish => .bearish
  | .neutral => .unaligned
  | .unavailable => .unaligned

def intradaySince (hourly : List Candle) (now : ℤ) : Option ℤ :=
  let day (c : Candle) := bucketStart c.start Timeframe.oneDay.seconds
  let today := bucketStart now Timeframe.oneDay.seconds
  let done := (completed hourly Timeframe.oneHour.seconds now).filter
    (fun c ↦ day c < today)
  let perDay := summarise day (fun start group ↦ some (start, group.length)) done
  ((perDay.reverse.takeWhile (fun d ↦ intradayMinBucketsPerDay ≤ d.2)).getLast?).map
    Prod.fst

inductive BasisReason
  | noIntraday
  | beginsInside (intradayFrom : ℤ) (days : ℕ)
  | short (legs : List (Timeframe × ℕ)) (warm : ℕ)
  | covered (intradayFrom : ℤ) (days : ℕ)

structure BasisChoice where
  basis : Basis
  reason : BasisReason
  intradayFrom : Option ℤ

def chooseBasis (days : ℕ) (windowStart : ℤ) (intradayFrom : Option ℤ)
    (hourly daily : List Candle) (config : TrendConfig) : BasisChoice :=
  match intradayFrom with
  | none => { basis := .dailyOnly, reason := .noIntraday, intradayFrom := none }
  | some start =>
    if windowStart < start then
      { basis := .dailyOnly, reason := .beginsInside start days, intradayFrom := some start }
    else
      let warm := warmupCandles config
      let usable := hourly.filter (fun c ↦ start ≤ c.start)
      let ready (tf : Timeframe) :=
        (completed (series usable daily tf) tf.seconds windowStart).length
      let short := ([Timeframe.fourHour, .oneHour, .oneDay].map (fun tf ↦ (tf, ready tf))).filter
        (fun leg ↦ leg.2 < warm)
      if short ≠ [] then
        { basis := .dailyOnly, reason := .short short warm, intradayFrom := some start }
      else { basis := .fullMtf, reason := .covered start days, intradayFrom := some start }

structure ReplayBar where
  closeTime : ℤ
  price : ℚ
  state : BarState
  forwardReturnPct : Option ℚ
  deriving DecidableEq

def closeByCloseTime (candles : List Candle) (seconds at_ : ℤ) : Option ℚ :=
  (candles.reverse.find? (fun c ↦ c.start + seconds * second = at_)).map Candle.close

def Basis.timeframe : Basis → Timeframe
  | .fullMtf => .oneHour
  | .dailyOnly => .oneDay

def stateAt (symbol : String) (basis : Basis) (hourly daily : List Candle) (closeTime : ℤ)
    (config : TrendConfig) : BarState :=
  match basis with
  | .fullMtf => alignmentState (evaluate symbol hourly daily closeTime config).alignment
  | .dailyOnly => trendBarState (evaluateTimeframe .oneDay daily closeTime config).trend

def forwardReturn (series : List Candle) (seconds : ℤ) (candle : Candle) (closeTime : ℤ) :
    Option ℚ :=
  match closeByCloseTime series seconds (closeTime + forwardHorizonSeconds * second) with
  | some future =>
    if 0 < candle.close then some ((future / candle.close - 1) * 100) else none
  | none => none

def replay (symbol : String) (basis : Basis) (hourly daily : List Candle) (windowStart now : ℤ)
    (config : TrendConfig) : List ReplayBar :=
  let seconds := basis.timeframe.seconds
  let closed := completed (series hourly daily basis.timeframe) seconds now
  (closed.filter (fun c ↦ !decide (c.start + seconds * second ≤ windowStart))).map (fun c ↦
    let closeTime := c.start + seconds * second
    { closeTime := closeTime
      price := c.close
      state := stateAt symbol basis hourly daily closeTime config
      forwardReturnPct := forwardReturn closed seconds c closeTime })

def replayHourly (choice : BasisChoice) (hourly : List Candle) : List Candle :=
  if choice.basis = .fullMtf then
    hourly.filter (fun c ↦ choice.intradayFrom.all (fun start ↦ start ≤ c.start))
  else hourly

def replayedWindow (symbol : String) (days : ℕ) (hourly daily : List Candle) (now : ℤ)
    (config : TrendConfig) : BasisChoice × List ReplayBar :=
  let windowStart := now - days * 86400 * second
  let choice := chooseBasis days windowStart (intradaySince hourly now) hourly daily config
  (choice, replay symbol choice.basis (replayHourly choice hourly) daily windowStart now config)

structure HourlySeries where
  candles : List Candle
  aligned : ∀ c ∈ candles, bucketStart c.start Timeframe.oneHour.seconds = c.start

theorem HourlySeries.end_le (hourly : HourlySeries) {c : Candle} (hc : c ∈ hourly.candles) :
    c.start + Timeframe.oneHour.seconds * second ≤
      bucketStart c.start Timeframe.fourHour.seconds + Timeframe.fourHour.seconds * second := by
  have hboundary : Timeframe.oneHour.grid.IsBoundary c.start :=
    hourly.aligned c hc ▸ bucketStart_isBoundary .oneHour c.start
  have hend := oneHour_refines_fourHour.end_le c.start
  rw [hboundary.floor_eq] at hend
  rw [bucketStart_eq Timeframe.fourHour.seconds_pos (second_dvd_boundary .oneHour hboundary)]
  exact hend

theorem HourlySeries.completed_resample (hourly : HourlySeries) (now : ℤ) :
    completed (resample hourly.candles Timeframe.fourHour.seconds) Timeframe.fourHour.seconds now =
      completed (resample (completed hourly.candles Timeframe.oneHour.seconds now)
        Timeframe.fourHour.seconds) Timeframe.fourHour.seconds now := by
  have hfilter (candles : List Candle) :
      completed (resample candles Timeframe.fourHour.seconds) Timeframe.fourHour.seconds now =
        resample (candles.filter (fun c ↦ bucketStart c.start Timeframe.fourHour.seconds +
          Timeframe.fourHour.seconds * second ≤ now)) Timeframe.fourHour.seconds :=
    (summarise_filter mergedCandle_start
      (fun start ↦ start + Timeframe.fourHour.seconds * second ≤ now) candles).symm
  rw [hfilter, hfilter, completed, filter_filter]
  congr 1
  apply filter_congr
  intro c hc
  have hend := hourly.end_le hc
  rw [Bool.eq_iff_iff, Bool.and_eq_true, closesBy, decide_eq_true_eq, decide_eq_true_eq]
  omega

theorem closed_series_congr {hourly hourly' : HourlySeries} {daily daily' : List Candle} {at_ : ℤ}
    (hh : completed hourly.candles Timeframe.oneHour.seconds at_ =
      completed hourly'.candles Timeframe.oneHour.seconds at_)
    (hd : completed daily Timeframe.oneDay.seconds at_ =
      completed daily' Timeframe.oneDay.seconds at_) (tf : Timeframe) :
    completed (series hourly.candles daily tf) tf.seconds at_ =
      completed (series hourly'.candles daily' tf) tf.seconds at_ := by
  cases tf with
  | oneDay => exact hd
  | oneHour => exact hh
  | fourHour =>
    rw [series, series, hourly.completed_resample, hh, ← hourly'.completed_resample]

theorem stateAt_congr {hourly hourly' : HourlySeries} {daily daily' : List Candle} {at_ : ℤ}
    (hh : completed hourly.candles Timeframe.oneHour.seconds at_ =
      completed hourly'.candles Timeframe.oneHour.seconds at_)
    (hd : completed daily Timeframe.oneDay.seconds at_ =
      completed daily' Timeframe.oneDay.seconds at_)
    (symbol : String) (basis : Basis) (config : TrendConfig) :
    stateAt symbol basis hourly.candles daily at_ config =
      stateAt symbol basis hourly'.candles daily' at_ config := by
  cases basis with
  | fullMtf => simp only [stateAt, evaluate, evaluateTimeframe, closed_series_congr hh hd]
  | dailyOnly => simp only [stateAt, evaluateTimeframe, hd]

theorem completed_completed {candles : List Candle} {seconds at_ now : ℤ} (h : at_ ≤ now) :
    completed (completed candles seconds now) seconds at_ = completed candles seconds at_ := by
  rw [completed, completed, filter_filter]
  apply filter_congr
  intro c _
  rw [Bool.eq_iff_iff, Bool.and_eq_true, closesBy, closesBy, decide_eq_true_eq, decide_eq_true_eq]
  omega

theorem replay_at (symbol : String) (basis : Basis) (hourly daily : List Candle)
    {windowStart now at_ : ℤ} (config : TrendConfig) (h : at_ ≤ now) :
    ((replay symbol basis hourly daily windowStart now config).filter
        (fun bar ↦ bar.closeTime = at_)).map (fun bar ↦ (bar.price, bar.state)) =
      ((completed (series hourly daily basis.timeframe) basis.timeframe.seconds at_).filter
        (fun c ↦ !decide (c.start + basis.timeframe.seconds * second ≤ windowStart) &&
          decide (c.start + basis.timeframe.seconds * second = at_))).map
        (fun c ↦ (c.close, stateAt symbol basis hourly daily at_ config)) := by
  set seconds := basis.timeframe.seconds with hs
  set candles := series hourly daily basis.timeframe
  have hselect : (completed candles seconds now).filter (fun c ↦
        decide (c.start + seconds * second = at_) &&
          !decide (c.start + seconds * second ≤ windowStart)) =
      (completed candles seconds at_).filter (fun c ↦
        !decide (c.start + seconds * second ≤ windowStart) &&
          decide (c.start + seconds * second = at_)) := by
    rw [completed, completed, filter_filter, filter_filter]
    apply filter_congr
    intro c _
    rw [Bool.eq_iff_iff]
    simp only [closesBy, Bool.and_eq_true, Bool.not_eq_true', decide_eq_true_eq,
      decide_eq_false_iff_not]
    omega
  have hbars : ((replay symbol basis hourly daily windowStart now config).filter
        (fun bar ↦ bar.closeTime = at_)).map (fun bar ↦ (bar.price, bar.state)) =
      ((completed candles seconds now).filter (fun c ↦
        decide (c.start + seconds * second = at_) &&
          !decide (c.start + seconds * second ≤ windowStart))).map (fun c ↦
        (c.close, stateAt symbol basis hourly daily (c.start + seconds * second) config)) := by
    simp only [replay, filter_map, map_map, filter_filter]
    rfl
  rw [hbars, hselect]
  apply map_congr_left
  intro c hc
  simp only [mem_filter, Bool.and_eq_true, decide_eq_true_eq] at hc
  rw [hc.2.2]

/-- A replayed bar's existence, price and state are settled by the candles
closed at its close; later candles reach only its forward return. -/
theorem replay_no_lookahead (symbol : String) (basis : Basis) (hourly hourly' : HourlySeries)
    (daily daily' : List Candle) (windowStart now : ℤ) (config : TrendConfig) {at_ : ℤ}
    (hnow : at_ ≤ now)
    (hh : completed hourly.candles Timeframe.oneHour.seconds at_ =
      completed hourly'.candles Timeframe.oneHour.seconds at_)
    (hd : completed daily Timeframe.oneDay.seconds at_ =
      completed daily' Timeframe.oneDay.seconds at_) :
    ((replay symbol basis hourly.candles daily windowStart now config).filter
        (fun bar ↦ decide (bar.closeTime = at_))).map (fun bar ↦ (bar.price, bar.state)) =
      ((replay symbol basis hourly'.candles daily' windowStart now config).filter
        (fun bar ↦ decide (bar.closeTime = at_))).map (fun bar ↦ (bar.price, bar.state)) := by
  rw [replay_at _ _ _ _ _ hnow, replay_at _ _ _ _ _ hnow, closed_series_congr hh hd,
    stateAt_congr hh hd]

def flatCandle (start : ℤ) (price : ℚ) : Candle where
  start := start
  opening := price
  high := price
  low := price
  close := price

def fiveHours (price : ℚ) : HourlySeries where
  candles := [flatCandle 0 1, flatCandle 3600000000 2, flatCandle 7200000000 3,
    flatCandle 10800000000 4, flatCandle 14400000000 price]
  aligned := by
    simp only [forall_mem_cons, not_mem_nil, false_implies, implies_true, and_true]
    exact ⟨rfl, rfl, rfl, rfl, rfl⟩

theorem fiveHours_no_lookahead :
    ((replay "XAUUSD" .fullMtf (fiveHours 5).candles [] 0 18000000000 {}).filter
        (fun bar ↦ decide (bar.closeTime = 14400000000))).map
        (fun bar ↦ (bar.price, bar.state)) =
      ((replay "XAUUSD" .fullMtf (fiveHours 900).candles [] 0 18000000000 {}).filter
        (fun bar ↦ decide (bar.closeTime = 14400000000))).map
        (fun bar ↦ (bar.price, bar.state)) :=
  replay_no_lookahead "XAUUSD" .fullMtf (fiveHours 5) (fiveHours 900) [] [] 0 18000000000 {}
    (by decide) (by decide) rfl

end TalaPala.Trend
