import TalaPala.Economic.Jalali
import TalaPala.Library.AsOf
import TalaPala.Library.Decisions
import TalaPala.Library.Selection
import TalaPala.Library.Strings
import TalaPala.Prices.Collect
import TalaPala.Signals.Engine
import TalaPala.Signals.Universe
import TalaPala.Trend.Transitions

namespace TalaPala.Signals

open Library MarketHours Prices List

section Statistics

structure DayClose where
  day : ℤ
  value : ℚ

def dailyClose (df : List PriceRow) (symbol : String) : List DayClose :=
  summarise (fun row ↦ row.observedAt / Python.day)
    (fun d rows ↦ rows.getLast?.map (fun row ↦ ⟨d, row.value⟩))
    (ascending PriceRow.observedAt (df.filter (·.symbol = symbol)))

def lastN {α : Type*} (n : ℕ) (l : List α) : List α := l.drop (l.length - n)

def rollMean (w : ℕ) (values : List ℚ) : Option ℚ :=
  if values.length < w then none else some (mean (lastN w values))

def diffs (values : List ℚ) : List ℚ := List.zipWith (fun a b ↦ b - a) values values.tail

/-- The last value of `rsi`. A window of gains alone gives 100. -/
def rsi (period : ℕ) (values : List ℚ) : Option ℚ :=
  if (diffs values).length < period then none
  else
    let delta := lastN period (diffs values)
    let gain := mean (delta.map (max · 0))
    let loss := mean (delta.map (fun d ↦ -min d 0))
    if loss = 0 then some 100 else some (100 - 100 / (1 + gain / loss))

def momentum10 (values : List ℚ) : Option ℚ := do
  let last ← values.getLast?
  let earlier ← if values.length ≤ 10 then none else values[values.length - 11]?
  return last / earlier - 1

def troyOunceGrams : ℚ := 311034768 / 10000000

def karat18Purity : ℚ := 3 / 4

def premiumPct (usd xau : List DayClose) (bar : DayClose) : Option ℚ := do
  let xau ← asOf DayClose.day xau bar.day
  let usd ← asOf DayClose.day usd bar.day
  let theoretical := xau.value / troyOunceGrams * usd.value * karat18Purity
  return (bar.value - theoretical) / theoretical * 100

variable (log sqrt : ℚ → ℚ)

/-- `std` of pandas, over a given square root. -/
def sampleStd (l : List ℚ) : ℚ :=
  sqrt ((l.map (fun x ↦ (x - mean l) * (x - mean l))).sum / (l.length - 1))

/-- `np.std`. -/
def populationStd (l : List ℚ) : ℚ :=
  sqrt ((l.map (fun x ↦ (x - mean l) * (x - mean l))).sum / l.length)

def premiumZ30 (usd xau bars : List DayClose) : Option ℚ := do
  let window ← if bars.length < 30 then none else (lastN 30 bars).mapM (premiumPct usd xau)
  let last ← window.getLast?
  if sampleStd sqrt window = 0 then none else some ((last - mean window) / sampleStd sqrt window)

def rollingStd (window : ℕ) (returns : List ℚ) : List ℚ :=
  (List.range (returns.length + 1 - window)).map
    (fun i ↦ sampleStd sqrt ((returns.drop i).take window))

/-- The slope of `np.polyfit` of degree one over the places of a list. -/
def slope (l : List ℚ) : ℚ :=
  let places : List ℚ := (List.range l.length).map Nat.cast
  (List.zipWith (fun x y ↦ (x - mean places) * (y - mean l)) places l).sum /
    (places.map (fun x ↦ (x - mean places) * (x - mean places))).sum

def residuals (l : List ℚ) : List ℚ :=
  let places : List ℚ := (List.range l.length).map Nat.cast
  List.zipWith (fun x y ↦ y - (mean l + slope l * (x - mean places))) places l

def detectRegime (values : List ℚ) (window : ℕ) : Regime :=
  if values.length < window + 5 then .unknown
  else
    let returns := List.zipWith (fun a b ↦ b / a - 1) values values.tail
    match (rollingStd sqrt window returns).getLast? with
    | none => .unknown
    | some currentVol =>
      if quantile (9 / 10) (rollingStd sqrt window returns) < currentVol ∧ 0 < currentVol then
        .highVolatility
      else
        let tail := (lastN window values).map log
        let strength := |slope tail| * window /
          (populationStd sqrt (residuals tail) + 1 / 1000000000000)
        if 2 < strength then if 0 < slope tail then .trendingUp else .trendingDown
        else .ranging

end Statistics

section Records

structure Prediction where
  symbol : String
  horizon : String
  expectedChangePct : ℚ
  confidence : ℚ
  predictedAt : Instant

/-- What a pass over one symbol reads: prices, predictions, the alignment tables or the
failure to read them, and the cost that `resolve_cost` found. -/
structure Records where
  prices : List PriceRow
  predictions : List Prediction
  trend : Except String Trend.Store
  roundTripCostPct : ℚ

structure SignalSettings extends Python.Settings where
  trendAlignmentEnabled : Bool
  trendAlignmentSignalWeight : ℚ
  trendAlignmentMaxAgeMinutes : ℤ

def loadPrices (prices : List PriceRow) (wanted : List String) : List PriceRow :=
  ascending PriceRow.observedAt (prices.filter (fun row ↦ wanted.contains row.symbol &&
    decide (row.quality = .ok) && !signalExcludedSources.contains row.source))

def loadLatestPredictions (predictions : List Prediction) (symbol : String) (clock : Instant) :
    List (String × Prediction) :=
  let rows := ascending Prediction.predictedAt (predictions.filter (fun row ↦
    decide (clock - 24 * Python.hour ≤ row.predictedAt) && decide (row.symbol = symbol)))
  (rows.map Prediction.horizon).eraseDups.filterMap (fun horizon ↦
    (rows.filter (·.horizon = horizon)).getLast?.map (fun row ↦ (horizon, row)))

structure TrendReading where
  alignment : Trend.Alignment
  states : List (Trend.Timeframe × Trend.TrendState)
  ageDays : Option ℚ
  weight : ℚ

def alignmentAgeDays (store : Trend.Store) (symbol : String) (alignment : Trend.Alignment)
    (now : Instant) : Option ℚ :=
  if Trend.isFull alignment then
    (((store.events.filter (fun event ↦ decide (event.symbol = symbol) &&
      decide (event.alignment = alignment))).map Trend.AlignmentEvent.occurredAt).max?).map
        (fun entered ↦ max 0 (((now - entered : ℤ) : ℚ) / Python.day))
  else none

def loadTrendAlignment (settings : SignalSettings) (store : Trend.Store) (symbol : String)
    (now : Instant) : Option TrendReading :=
  if !settings.trendAlignmentEnabled then none
  else if settings.trendAlignmentSignalWeight ≤ 0 then none
  else
    match store.states symbol with
    | none => none
    | some row =>
      if !row.dataFresh ∨
          settings.trendAlignmentMaxAgeMinutes * Python.minute < now - row.calculatedAt then none
      else some
        { alignment := row.alignment
          states := Trend.Timeframe.all.map (fun tf ↦ (tf, (row.timeframes tf).trend))
          ageDays := alignmentAgeDays store symbol row.alignment now
          weight := settings.trendAlignmentSignalWeight }

def twoDigits (n : ℤ) : String := String.ofList (padded n 2)

/-- `isoformat` of a UTC instant: the fraction only when there is one. -/
def isoformat (t : Instant) : String :=
  let rest := t % Python.day
  let micros := rest % 1000000
  -- `civilOfDay` counts from the year 1600.
  String.ofList (formatDate (Economic.civilOfDay (t / Python.day + 135140))) ++ "T" ++
    twoDigits (rest / Python.hour) ++ ":" ++ twoDigits (rest / Python.minute % 60) ++ ":" ++
    twoDigits (rest / 1000000 % 60) ++
    (if micros = 0 then "" else "." ++ String.ofList (padded micros 6)) ++ "+00:00"

example : isoformat 1784600000250000 = "2026-07-21T02:13:20.250000+00:00" := by decide +kernel

/-- The format `.1f`. -/
def oneDecimal (x : ℚ) : String :=
  let tenths := (halfEven (10 * |x|)).natAbs
  (if x < 0 then "-" else "") ++ toString (tenths / 10) ++ "." ++ toString (tenths % 10)

structure Freshness where
  dataFresh : Bool
  marketClosed : Bool
  staleReason : Option String

def freshness (df : List PriceRow) (symbol : String) (now : Instant) (settings : SignalSettings) :
    Freshness :=
  let marketClosed := !Python.isMarketOpen symbol now settings.toSettings
  match ((df.filter (·.symbol = symbol)).map PriceRow.observedAt).max? with
  | none =>
    ⟨false, marketClosed, some (s!"no usable {symbol} observations: nothing with " ++
      "quality='ok' is stored for it")⟩
  | some last =>
    if Python.isAcceptablyFresh symbol last now settings.toSettings none then
      ⟨true, marketClosed, none⟩
    else
      let age := oneDecimal (((now - last : ℤ) : ℚ) / Python.hour)
      let seen := isoformat last
      let tolerance := settings.staleMinutes
      ⟨false, marketClosed, some (s!"the newest {symbol} observation is {age}h old ({seen}); " ++
        s!"the tolerance is {tolerance} minutes" ++
        (if marketClosed then " and the market is closed, so last-session data would have " ++
          "counted as fresh — this is older than that" else ""))⟩

def fundFlowZ (sqrt : ℚ → ℚ) (df : List PriceRow) (now : Instant) (settings : SignalSettings) :
    Except String ℚ :=
  let fresh := freshness df fundFlowSymbol now settings
  let series := (dailyClose df fundFlowSymbol).map DayClose.value
  let window := factorFundFlow.window
  let needed := factorFundFlow.minBars
  let have_ := series.length
  let recent := lastN window series
  if !fresh.dataFresh then
    .error ("the flow series is not current: " ++ fresh.staleReason.getD "")
  else if have_ < needed then
    .error (s!"{fundFlowSymbol} needs {needed} daily bars for a {window}-bar z-score against " ++
      s!"its own norm — the window plus a further {window} so it has moved — and has {have_}")
  else if ¬ 0 < sampleStd sqrt recent then
    .error (s!"{fundFlowSymbol} has not moved over the last {window} bars, so a z-score " ++
      "against its own norm is undefined")
  else
    .ok (((series.getLast?.getD 0) - mean recent) / sampleStd sqrt recent)

end Records

section Readings

/-- A reading sets the inputs its factor feeds, or says why it cannot. -/
abbrev Reading := Answer String SignalInputs

structure Loaded where
  symbol : String
  df : List PriceRow
  closes : List DayClose
  parity : Bool
  records : Records
  settings : SignalSettings
  now : Instant
  clock : Instant

variable (log sqrt : ℚ → ℚ) (pass : Loaded)

def Loaded.values : List ℚ := pass.closes.map DayClose.value

def Loaded.bars : ℕ := pass.closes.length

def readForecast : Reading :=
  let latest := loadLatestPredictions pass.records.predictions pass.symbol pass.clock
  if latest.isEmpty then
    .error (s!"{pass.symbol} has trained models, but no prediction was written for any " ++
      "horizon in the last 24 hours.")
  else
    .ok (fun inputs ↦
      { inputs with
        expectedChangePct := latest.map (fun p ↦ (p.1, some p.2.expectedChangePct))
        confidence := latest.map (fun p ↦ (p.1, some p.2.confidence)) })

def readTrendSma : Reading :=
  let window := factorTrendSma.window
  let sma20 := rollMean 20 pass.values
  let sma50 := if window ≤ pass.bars then some (mean (lastN window pass.values)) else none
  match sma20, sma50 with
  | some sma20, some sma50 =>
    .ok (fun inputs ↦ { inputs with sma20 := some sma20, sma50 := some sma50 })
  | _, _ =>
    .error ("SMA20/SMA50 could not be computed from the stored history even though the bar " ++
      "count allows it (gaps in the series).")

def readFigure (set : ℚ → SignalInputs → SignalInputs) (reason : String) (figure : Option ℚ) :
    Reading :=
  match figure with
  | some x => .ok (set x)
  | none => .error reason

def readRsi : Reading :=
  readFigure (fun x inputs ↦ { inputs with rsi14 := some x })
    "RSI(14) is undefined over the stored history." (rsi 14 pass.values)

def readMomentum : Reading :=
  readFigure (fun x inputs ↦ { inputs with momentum10Pct := some (x * 100) })
    "10-period momentum is undefined over the stored history." (momentum10 pass.values)

def readPremium : Reading :=
  let leg (symbol : String) := if pass.parity then dailyClose pass.df symbol else []
  readFigure (fun x inputs ↦ { inputs with premiumZ := some x })
    ("The 18k parity price needs overlapping USD_IRT and XAUUSD history; the stored series " ++
      "do not provide 30 aligned bars.")
    (premiumZ30 sqrt (leg "USD_IRT") (leg "XAUUSD") pass.closes)

def readVolatility : Reading :=
  let regime := detectRegime log sqrt pass.values 20
  if regime = .unknown then
    .error "The volatility regime is undetermined over the stored history."
  else .ok (fun inputs ↦ { inputs with regime })

def readFundFlow : Reading :=
  match fundFlowZ sqrt pass.df pass.now pass.settings with
  | .error reason => .error reason
  | .ok z => .ok (fun inputs ↦ { inputs with fundFlowZ := some z })

/-- Tables that cannot be read count as no alignment. -/
def trendOf : Option TrendReading :=
  match pass.records.trend with
  | .error _ => none
  | .ok store => loadTrendAlignment pass.settings store pass.symbol pass.now

def readMaAlignment : Reading :=
  match trendOf pass with
  | some trend =>
    .ok (fun inputs ↦
      { inputs with
        trendAlignment := some trend.alignment
        trendStates := trend.states
        trendAlignmentAgeDays := trend.ageDays
        trendWeight := trend.weight })
  | none =>
    .error ("No usable 1D/4H/1H read: the indicator is disabled, weighted at zero, has no " ++
      "stored state for this symbol, or its state is older than the configured age gate.")

def reading : FactorKey → Reading
  | .forecast => readForecast pass
  | .premium => readPremium sqrt pass
  | .fundFlow => readFundFlow sqrt pass
  | .trendSma => readTrendSma pass
  | .maAlignment => readMaAlignment pass
  | .rsi => readRsi pass
  | .momentum => readMomentum pass
  | .volatility => readVolatility log sqrt pass

def readingOrder (bars : ℕ) : List FactorKey :=
  [.forecast] ++
    (if bars = 0 then [] else [.trendSma, .rsi, .momentum, .premium, .volatility]) ++
    [.fundFlow, .maAlignment]

end Readings

section Assembly

structure Assembled where
  inputs : SignalInputs
  omittedFactors : List (FactorKey × String)
  staleReason : Option String
  scored : Finset FactorKey
  bars : ℕ

def wantedSymbols (profile : Profile) (symbol : String) : List String :=
  [symbol] ++ (if .premium ∈ profile.keys then ["USD_IRT", "XAUUSD"] else []) ++
    (if .fundFlow ∈ profile.keys then [fundFlowSymbol] else [])

variable (log sqrt : ℚ → ℚ) (records : Records) (settings : SignalSettings) (symbol : String)
  (now clock : Instant)

def loadPass (profile : Profile) : Loaded :=
  let df := loadPrices records.prices (wantedSymbols profile symbol)
  { symbol, df, closes := dailyClose df symbol, parity := .premium ∈ profile.keys
    records, settings, now, clock }

def unreadInputs (risk : String) (pass : Loaded) : SignalInputs :=
  let fresh := freshness pass.df pass.symbol pass.now pass.settings
  { symbol := some pass.symbol
    lastPrice := pass.values.getLast?
    dataFresh := fresh.dataFresh
    marketClosed := fresh.marketClosed
    roundTripCostPct := pass.records.roundTripCostPct
    marketRisk := risk }

def readAll (profile : Profile) (risk : String) (pass : Loaded) :
    Decisions FactorKey String SignalInputs :=
  let (supported, omitted) := historyOmissions profile pass.bars
  let start : Decisions FactorKey String SignalInputs :=
    ⟨unreadInputs risk pass, ∅, omitted ++ profile.inapplicable⟩
  start.settleAll supported
    ((readingOrder pass.bars).map (fun k ↦ (k, reading log sqrt pass k)))

def assembledFrom (profile : Profile) (risk : String) (pass : Loaded) : Assembled :=
  let read := readAll log sqrt profile risk pass
  { inputs := read.state
    omittedFactors := read.declined
    staleReason := (freshness pass.df pass.symbol pass.now pass.settings).staleReason
    scored := read.taken
    bars := pass.bars }

def assembleInputs : Except SignalError Assembled :=
  match profileFor symbol with
  | .error e => .error e
  | .ok profile =>
    match marketRisk.lookup symbol with
    | none => .error (.noMarketRisk symbol)
    | some risk => .ok (assembledFrom log sqrt profile risk
        (loadPass records settings symbol now clock profile))

structure SignalOutcome where
  symbol : String
  bars : ℕ
  payload : Option SignalRow := none
  withheldReason : Option String := none
  omittedFactors : List (FactorKey × String)

def generateSignalFor (signals : List SignalRow) :
    Except SignalError (SignalOutcome × List SignalRow) :=
  match assembleInputs log sqrt records settings symbol now clock with
  | .error e => .error e
  | .ok assembled =>
    match withholdingReason assembled.scored with
    | some refusal =>
      .ok ({ symbol, bars := assembled.bars, withheldReason := some refusal
             omittedFactors := assembled.omittedFactors }, signals)
    | none =>
      let result := computeSignal assembled.inputs
      .ok ({ symbol, bars := assembled.bars, payload := some result
             omittedFactors := assembled.omittedFactors }, signals ++ [result])

end Assembly

def Absent (k : FactorKey) (inputs : SignalInputs) : Prop :=
  match k with
  | .forecast => inputs.expectedChangePct = [] ∧ inputs.confidence = []
  | .premium => inputs.premiumZ = none
  | .fundFlow => inputs.fundFlowZ = none
  | .trendSma => inputs.sma20 = none ∧ inputs.sma50 = none
  | .maAlignment =>
    inputs.trendAlignment = none ∧ inputs.trendStates = [] ∧
      inputs.trendAlignmentAgeDays = none ∧ inputs.trendWeight = 0
  | .rsi => inputs.rsi14 = none
  | .momentum => inputs.momentum10Pct = none
  | .volatility => inputs.regime = .unknown

section Accounting

variable (log sqrt : ℚ → ℚ) (pass : Loaded)

def SetsOnly (k : FactorKey) (set : SignalInputs → SignalInputs) : Prop :=
  ∀ j, j ≠ k → ∀ inputs, Absent j inputs → Absent j (set inputs)

theorem proper_error {k : FactorKey} {reason : String} (h : reason ≠ "") :
    Decisions.Proper Absent (· ≠ "") k (.error reason : Reading) :=
  ⟨nofun, fun _ he ↦ Except.error.inj he ▸ h⟩

theorem proper_ok {k : FactorKey} {set : SignalInputs → SignalInputs} (h : SetsOnly k set) :
    Decisions.Proper Absent (· ≠ "") k (.ok set : Reading) :=
  ⟨fun _ he ↦ Except.ok.inj he ▸ h, nofun⟩

theorem proper_readFigure {k : FactorKey} {set : ℚ → SignalInputs → SignalInputs}
    {reason : String} {figure : Option ℚ} (hset : ∀ x, SetsOnly k (set x))
    (hreason : reason ≠ "") :
    Decisions.Proper Absent (· ≠ "") k (readFigure set reason figure) := by
  cases figure with
  | none => exact proper_error hreason
  | some x => exact proper_ok (hset x)

theorem fundFlowZ_reason {df : List PriceRow} {now : Instant} {settings : SignalSettings}
    {reason : String} (h : fundFlowZ sqrt df now settings = .error reason) : reason ≠ "" := by
  simp only [fundFlowZ] at h
  split_ifs at h <;> cases h <;> simp [toString]

theorem proper_reading (k : FactorKey) :
    Decisions.Proper Absent (· ≠ "") k (reading log sqrt pass k) := by
  cases k with
  | forecast =>
    simp only [reading, readForecast]
    split_ifs
    · exact proper_error (by simp)
    · refine proper_ok (fun j hj inputs h ↦ ?_)
      cases j <;> first | exact absurd rfl hj | exact h
  | premium =>
    refine proper_readFigure (fun x j hj inputs h ↦ ?_) (by simp)
    cases j <;> first | exact absurd rfl hj | exact h
  | fundFlow =>
    simp only [reading, readFundFlow]
    split
    · rename_i reason hz
      exact proper_error (fundFlowZ_reason sqrt hz)
    · refine proper_ok (fun j hj inputs h ↦ ?_)
      cases j <;> first | exact absurd rfl hj | exact h
  | trendSma =>
    simp only [reading, readTrendSma]
    split
    · refine proper_ok (fun j hj inputs h ↦ ?_)
      cases j <;> first | exact absurd rfl hj | exact h
    · exact proper_error (by simp)
  | maAlignment =>
    simp only [reading, readMaAlignment]
    split
    · refine proper_ok (fun j hj inputs h ↦ ?_)
      cases j <;> first | exact absurd rfl hj | exact h
    · exact proper_error (by simp)
  | rsi =>
    refine proper_readFigure (fun x j hj inputs h ↦ ?_) (by simp)
    cases j <;> first | exact absurd rfl hj | exact h
  | momentum =>
    refine proper_readFigure (fun x j hj inputs h ↦ ?_) (by simp)
    cases j <;> first | exact absurd rfl hj | exact h
  | volatility =>
    simp only [reading, readVolatility]
    split_ifs
    · exact proper_error (by simp)
    · refine proper_ok (fun j hj inputs h ↦ ?_)
      cases j <;> first | exact absurd rfl hj | exact h

theorem mem_readingOrder {symbol : String} {bars : ℕ} {k : FactorKey}
    (h : k ∈ (historyOmissions (profileOf symbol) bars).1) : k ∈ readingOrder bars := by
  obtain ⟨spec, hspec, hbars, rfl⟩ := mem_supported.mp h
  by_cases hzero : bars = 0
  · rw [eq_forecast_of_minBars hspec (hzero ▸ hbars)]
    exact mem_append_left _ (mem_append_left _ mem_cons_self)
  · rw [readingOrder, if_neg hzero]
    cases spec.key <;> decide

theorem readingOrder_nodup (bars : ℕ) : (readingOrder bars).Nodup := by
  rw [readingOrder]
  split_ifs <;> decide

variable (symbol risk : String)

theorem accounts_start :
    (⟨unreadInputs risk pass, ∅, unreadFactors symbol pass.bars⟩ :
      Decisions FactorKey String SignalInputs).Accounts Absent (· ≠ "")
      ((unreadFactors symbol pass.bars).map Prod.fst).toFinset := by
  refine ⟨fun k ↦ ?_, fun k hk ↦ ?_, ?_, fun o ho ↦ ?_, fun k _ ↦ ?_⟩
  · rw [mem_toFinset]
    exact or_iff_right (Finset.notMem_empty k)
  · exact absurd hk (Finset.notMem_empty k)
  · exact (nodup_append.mp supported_append_unread.1).2.1
  · rcases mem_append.mp ho with ho | ho
    · obtain ⟨spec, _, rfl⟩ := mem_map.mp ho
      exact historyReason_ne_empty _ _ _
    · exact inapplicable_ne_empty o ho
  · cases k <;> simp [Absent, unreadInputs]

theorem accounts_readAll :
    (readAll log sqrt (profileOf symbol) risk pass).Accounts Absent (· ≠ "")
      FactorKey.all.toFinset := by
  let answers := (readingOrder pass.bars).map (fun k ↦ (k, reading log sqrt pass k))
  have hkeys : answers.map Prod.fst = readingOrder pass.bars := by
    rw [map_map]
    exact map_id' _
  have hnodup : (answers.map Prod.fst).Nodup := by
    rw [hkeys]
    exact readingOrder_nodup pass.bars
  have hnew : ∀ a ∈ answers, a.1 ∈ (historyOmissions (profileOf symbol) pass.bars).1 →
      a.1 ∉ ((unreadFactors symbol pass.bars).map Prod.fst).toFinset := by
    intro a _ hposed
    rwa [mem_toFinset, mem_unread, not_not]
  have hproper : ∀ a ∈ answers, Decisions.Proper Absent (· ≠ "") a.1 a.2 := by
    intro a ha
    obtain ⟨k, _, rfl⟩ := mem_map.mp ha
    exact proper_reading log sqrt pass k
  have hrun := (accounts_start pass symbol risk).settleAll hnodup hnew hproper
  have hall : ((unreadFactors symbol pass.bars).map Prod.fst).toFinset ∪
      (historyOmissions (profileOf symbol) pass.bars).1.filter
        (· ∈ answers.map Prod.fst) = FactorKey.all.toFinset := by
    ext k
    rw [Finset.mem_union, Finset.mem_filter, mem_toFinset, mem_toFinset, mem_unread, hkeys]
    refine iff_of_true ?_ k.mem_all
    by_cases hk : k ∈ (historyOmissions (profileOf symbol) pass.bars).1
    · exact .inr ⟨hk, mem_readingOrder hk⟩
    · exact .inl hk
  rw [hall] at hrun
  exact hrun

end Accounting

def FactorKey.legs : FactorKey → List String
  | .premium => ["USD_IRT", "XAUUSD"]
  | .fundFlow => [fundFlowSymbol]
  | _ => []

structure ChangesOnly (k : FactorKey) (symbol : String) (records records' : Records) : Prop where
  prices : ∀ s, s = symbol ∨ s ∉ k.legs →
    records.prices.filter (·.symbol = s) = records'.prices.filter (·.symbol = s)
  predictions : k ≠ .forecast → records.predictions = records'.predictions
  trend : k ≠ .maAlignment → records.trend = records'.trend
  cost : records.roundTripCostPct = records'.roundTripCostPct

section Changes

variable {prices prices' : List PriceRow} {wanted : List String} {symbol s : String}

theorem filter_loadPrices (prices : List PriceRow) (wanted : List String) (s : String) :
    (loadPrices prices wanted).filter (·.symbol = s) =
      loadPrices (prices.filter (·.symbol = s)) wanted := by
  rw [loadPrices, filter_ascending, loadPrices, filter_filter, filter_filter]
  simp only [Bool.and_comm]

theorem filter_loadPrices_congr
    (h : prices.filter (·.symbol = s) = prices'.filter (·.symbol = s)) :
    (loadPrices prices wanted).filter (·.symbol = s) =
      (loadPrices prices' wanted).filter (·.symbol = s) := by
  rw [filter_loadPrices, filter_loadPrices, h]

theorem dailyClose_congr (h : prices.filter (·.symbol = s) = prices'.filter (·.symbol = s)) :
    dailyClose (loadPrices prices wanted) s = dailyClose (loadPrices prices' wanted) s := by
  rw [dailyClose, filter_loadPrices_congr h, ← dailyClose]

theorem freshness_congr (h : prices.filter (·.symbol = s) = prices'.filter (·.symbol = s))
    (now : Instant) (settings : SignalSettings) :
    freshness (loadPrices prices wanted) s now settings =
      freshness (loadPrices prices' wanted) s now settings := by
  rw [freshness, filter_loadPrices_congr h, ← freshness]

variable {log sqrt : ℚ → ℚ} {k : FactorKey} {records records' : Records}
  {settings : SignalSettings} {now clock : Instant} {profile : Profile} {risk : String}

theorem ChangesOnly.closes (h : ChangesOnly k symbol records records') :
    (loadPass records settings symbol now clock profile).closes =
      (loadPass records' settings symbol now clock profile).closes :=
  dailyClose_congr (h.prices symbol (.inl rfl))

theorem ChangesOnly.unreadInputs (h : ChangesOnly k symbol records records') (risk : String) :
    unreadInputs risk (loadPass records settings symbol now clock profile) =
      Signals.unreadInputs risk (loadPass records' settings symbol now clock profile) := by
  have hfresh : freshness (loadPass records settings symbol now clock profile).df symbol now
      settings = freshness (loadPass records' settings symbol now clock profile).df symbol now
        settings := freshness_congr (h.prices symbol (.inl rfl)) now settings
  have hvalues : (loadPass records settings symbol now clock profile).values =
      (loadPass records' settings symbol now clock profile).values :=
    congrArg (List.map DayClose.value) h.closes
  have hcost : (loadPass records settings symbol now clock profile).records.roundTripCostPct =
      (loadPass records' settings symbol now clock profile).records.roundTripCostPct := h.cost
  rw [Signals.unreadInputs, Signals.unreadInputs, hvalues, hcost]
  simp only [loadPass] at hfresh ⊢
  rw [hfresh]

theorem ChangesOnly.leg (h : ChangesOnly k symbol records records') {j : FactorKey} (hj : j ≠ k)
    (hs : s ∈ j.legs) :
    records.prices.filter (·.symbol = s) = records'.prices.filter (·.symbol = s) := by
  refine h.prices s (.inr (fun hk ↦ hj ?_))
  cases j <;> cases k <;> simp_all [FactorKey.legs, fundFlowSymbol]

theorem ChangesOnly.reading (h : ChangesOnly k symbol records records') {j : FactorKey}
    (hj : j ≠ k) :
    reading log sqrt (loadPass records settings symbol now clock profile) j =
      Signals.reading log sqrt (loadPass records' settings symbol now clock profile) j := by
  have hvalues : (loadPass records settings symbol now clock profile).values =
      (loadPass records' settings symbol now clock profile).values :=
    congrArg (List.map DayClose.value) h.closes
  cases j with
  | forecast =>
    simp only [Signals.reading, readForecast, loadPass, h.predictions hj.symm]
    rfl
  | premium =>
    have husd := h.leg hj (mem_cons_self (l := ["XAUUSD"]) (a := "USD_IRT"))
    have hxau := h.leg hj (mem_cons_of_mem "USD_IRT" (mem_singleton_self "XAUUSD"))
    have hown := h.prices symbol (.inl rfl)
    simp only [Signals.reading, readPremium, loadPass, dailyClose_congr husd,
      dailyClose_congr hxau, dailyClose_congr hown]
    rfl
  | fundFlow =>
    have hflow := h.leg hj (mem_singleton_self fundFlowSymbol)
    simp only [Signals.reading, readFundFlow, loadPass, fundFlowZ, dailyClose_congr hflow,
      freshness_congr hflow]
    rfl
  | trendSma =>
    simp only [Signals.reading, readTrendSma, hvalues, Loaded.bars, h.closes]
    rfl
  | maAlignment =>
    simp only [Signals.reading, readMaAlignment, trendOf, loadPass, h.trend hj.symm]
  | rsi => simp only [Signals.reading, readRsi, hvalues]
  | momentum => simp only [Signals.reading, readMomentum, hvalues]
  | volatility => simp only [Signals.reading, readVolatility, hvalues]

variable {pass pass' : Loaded}

theorem reading_of_not_taken
    (hk : k ∉ (readAll log sqrt (profileOf symbol) risk pass).taken)
    (hposed : k ∈ (historyOmissions (profileOf symbol) pass.bars).1) :
    ∃ reason, reading log sqrt pass k = .error reason := by
  cases hread : reading log sqrt pass k with
  | error reason => exact ⟨reason, rfl⟩
  | ok set =>
    refine absurd (Decisions.mem_taken_settleAll.mpr (.inr ⟨hposed, set, ?_⟩)) hk
    exact mem_map.mpr ⟨k, mem_readingOrder hposed, Prod.ext rfl hread⟩

theorem readAll_congr (hbars : pass.bars = pass'.bars)
    (hunread : unreadInputs risk pass = unreadInputs risk pass')
    (hread : ∀ j, j ≠ k → reading log sqrt pass j = reading log sqrt pass' j)
    (hk : k ∉ (readAll log sqrt (profileOf symbol) risk pass).taken)
    (hk' : k ∉ (readAll log sqrt (profileOf symbol) risk pass').taken) :
    (readAll log sqrt (profileOf symbol) risk pass).state =
      (readAll log sqrt (profileOf symbol) risk pass').state := by
  have heffect (j : FactorKey)
      (hposed : j ∈ (historyOmissions (profileOf symbol) pass'.bars).1) :
      Decisions.SameEffect (reading log sqrt pass j) (reading log sqrt pass' j) := by
    by_cases hj : j = k
    · subst hj
      obtain ⟨reason, hreason⟩ := reading_of_not_taken hk (hbars ▸ hposed)
      obtain ⟨reason', hreason'⟩ := reading_of_not_taken hk' hposed
      rw [hreason, hreason']
      trivial
    · rw [hread j hj]
      exact .refl _
  simp only [readAll, hunread, hbars]
  exact (Decisions.settleAll_congr rfl rfl (fun j _ hposed ↦ heffect j hposed)).1

theorem ChangesOnly.inputs (h : ChangesOnly k symbol records records')
    (hk : k ∉ (assembledFrom log sqrt (profileOf symbol) risk
      (loadPass records settings symbol now clock (profileOf symbol))).scored)
    (hk' : k ∉ (assembledFrom log sqrt (profileOf symbol) risk
      (loadPass records' settings symbol now clock (profileOf symbol))).scored) :
    (assembledFrom log sqrt (profileOf symbol) risk
        (loadPass records settings symbol now clock (profileOf symbol))).inputs =
      (assembledFrom log sqrt (profileOf symbol) risk
        (loadPass records' settings symbol now clock (profileOf symbol))).inputs := by
  simp only [assembledFrom] at hk hk' ⊢
  exact readAll_congr (congrArg List.length h.closes) (h.unreadInputs risk)
    (fun j hj ↦ h.reading hj) hk hk'

end Changes

def cleared (k : FactorKey) (inputs : SignalInputs) : SignalInputs :=
  match k with
  | .forecast => { inputs with expectedChangePct := [], confidence := [] }
  | .premium => { inputs with premiumZ := none }
  | .fundFlow => { inputs with fundFlowZ := none }
  | .trendSma => { inputs with sma20 := none, sma50 := none }
  | .maAlignment =>
    { inputs with
      trendAlignment := none
      trendStates := []
      trendAlignmentAgeDays := none
      trendWeight := 0 }
  | .rsi => { inputs with rsi14 := none }
  | .momentum => { inputs with momentum10Pct := none }
  | .volatility => { inputs with regime := .unknown }

theorem Absent.cleared {k : FactorKey} {inputs : SignalInputs} (h : Absent k inputs) :
    cleared k inputs = inputs := by
  cases inputs
  cases k <;> simp only [Absent] at h <;> simp [Signals.cleared, h]

/-- Every factor of the profile is scored, or named once among the omitted with a reason
and with every input it feeds absent. -/
structure Accounted (profile : Profile) (assembled : Assembled) : Prop where
  disjoint : ∀ k ∈ assembled.scored, k ∉ assembled.omittedFactors.map Prod.fst
  once : (assembled.omittedFactors.map Prod.fst).Nodup
  reasons : ∀ o ∈ assembled.omittedFactors, o.2 ≠ ""
  exactly : ∀ k, (k ∈ assembled.scored ∨ k ∈ assembled.omittedFactors.map Prod.fst) ↔
    (k ∈ profile.keys ∨ k ∈ profile.inapplicable.map Prod.fst)
  absent : ∀ k ∈ assembled.omittedFactors.map Prod.fst, Absent k assembled.inputs

def RuledOut (profile : Profile) (bars : ℕ) (k : FactorKey) : Prop :=
  k ∈ profile.inapplicable.map Prod.fst ∨
    ∃ spec ∈ profile.applicable, bars < spec.minBars ∧ spec.key = k

section Results

variable (log sqrt : ℚ → ℚ) (records : Records) (settings : SignalSettings) {symbol : String}
  (now clock : Instant) (signals : List SignalRow)

theorem assembleInputs_eligible (h : symbol ∈ signalSymbols) :
    ∃ risk, ∀ records settings now clock,
      assembleInputs log sqrt records settings symbol now clock =
        .ok (assembledFrom log sqrt (profileOf symbol) risk
          (loadPass records settings symbol now clock (profileOf symbol))) := by
  obtain ⟨risk, hrisk⟩ := marketRisk_eligible h
  refine ⟨risk, fun records settings now clock ↦ ?_⟩
  simp only [assembleInputs, profileFor_eligible h, hrisk]

theorem scored_supported {risk : String} {pass : Loaded} {k : FactorKey}
    (hk : k ∈ (readAll log sqrt (profileOf symbol) risk pass).taken) :
    k ∈ (historyOmissions (profileOf symbol) pass.bars).1 := by
  rcases Decisions.mem_taken_settleAll.mp hk with hk | ⟨hk, _⟩
  · exact absurd hk (Finset.notMem_empty k)
  · exact hk

theorem RuledOut.not_supported {bars : ℕ} {k : FactorKey}
    (h : RuledOut (profileOf symbol) bars k) :
    k ∉ (historyOmissions (profileOf symbol) bars).1 := by
  rw [← mem_unread, unreadFactors, map_append, mem_append]
  rcases h with h | ⟨spec, hspec, hbars, rfl⟩
  · exact .inr h
  · have hshort : (!decide (spec.minBars ≤ bars)) = true := by simp [hbars]
    refine .inl (mem_map.mpr ⟨(spec.key, historyReason symbol bars spec), ?_, rfl⟩)
    exact mem_map.mpr ⟨spec, mem_filter.mpr ⟨hspec, hshort⟩, rfl⟩

theorem accounted_of_accounts {d : Decisions FactorKey String SignalInputs}
    (h : d.Accounts Absent (· ≠ "") FactorKey.all.toFinset) {stale : Option String} {bars : ℕ} :
    Accounted (profileOf symbol) ⟨d.state, d.declined, stale, d.taken, bars⟩ := by
  refine ⟨h.apart, h.once, h.reasons, fun k ↦ ?_, fun k hk ↦ ?_⟩
  · exact iff_of_true ((h.all k).mpr (mem_toFinset.mpr k.mem_all)) (mem_profileOf symbol k)
  · exact h.unmarked k (fun hscored ↦ h.apart k hscored hk)

theorem accounted_assembled {assembled : Assembled} (h : symbol ∈ signalSymbols)
    (hok : assembleInputs log sqrt records settings symbol now clock = .ok assembled) :
    Accounted (profileOf symbol) assembled := by
  obtain ⟨risk, hrun⟩ := assembleInputs_eligible log sqrt h
  obtain rfl := Except.ok.inj ((hrun records settings now clock).symm.trans hok)
  exact accounted_of_accounts (accounts_readAll log sqrt _ symbol risk)

theorem ChangesOnly.assembled {k : FactorKey} {records' : Records} {assembled : Assembled}
    (hchange : ChangesOnly k symbol records records') (h : symbol ∈ signalSymbols)
    (hok : assembleInputs log sqrt records settings symbol now clock = .ok assembled)
    (hk : k ∈ assembled.omittedFactors.map Prod.fst) :
    ∃ assembled', assembleInputs log sqrt records' settings symbol now clock = .ok assembled' ∧
      (RuledOut (profileOf symbol) assembled.bars k → k ∉ assembled'.scored) ∧
      (k ∉ assembled'.scored → assembled'.inputs = assembled.inputs) := by
  have hout : k ∉ assembled.scored := fun hscored ↦
    (accounted_assembled log sqrt records settings now clock h hok).disjoint k hscored hk
  obtain ⟨risk, hrun⟩ := assembleInputs_eligible log sqrt h
  obtain rfl := Except.ok.inj ((hrun records settings now clock).symm.trans hok)
  refine ⟨_, hrun records' settings now clock, fun hruled hscored ↦ ?_, fun hout' ↦ ?_⟩
  · have hbars : (loadPass records settings symbol now clock (profileOf symbol)).bars =
        (loadPass records' settings symbol now clock (profileOf symbol)).bars :=
      congrArg List.length hchange.closes
    have hsupported := scored_supported log sqrt hscored
    rw [← hbars] at hsupported
    exact hruled.not_supported hsupported
  · exact (hchange.inputs hout hout').symm

theorem published_iff {assembled : Assembled} (h : symbol ∈ signalSymbols)
    (hok : assembleInputs log sqrt records settings symbol now clock = .ok assembled) :
    ∃ outcome signals', generateSignalFor log sqrt records settings symbol now clock signals =
        .ok (outcome, signals') ∧
      (outcome.payload.isSome = true ↔ 3 ≤ assembled.scored.card ∧
        ∃ spec ∈ (profileOf symbol).applicable,
          spec.directional = true ∧ spec.key ∈ assembled.scored) ∧
      signals' = signals ++ outcome.payload.toList := by
  have hcarried (k) (hk : k ∈ assembled.scored) :
      ∃ spec ∈ (profileOf symbol).applicable, spec.key = k := by
    obtain ⟨risk, hrun⟩ := assembleInputs_eligible log sqrt h
    obtain rfl := Except.ok.inj ((hrun records settings now clock).symm.trans hok)
    obtain ⟨spec, hspec, _, hkey⟩ := mem_supported.mp (scored_supported log sqrt hk)
    exact ⟨spec, hspec, hkey⟩
  have hdirectional : (∃ k ∈ assembled.scored, k ∈ directionalFactors) ↔
      ∃ spec ∈ (profileOf symbol).applicable,
        spec.directional = true ∧ spec.key ∈ assembled.scored := by
    constructor
    · rintro ⟨k, hk, hdir⟩
      obtain ⟨spec, hspec, rfl⟩ := hcarried k hk
      exact ⟨spec, hspec, (directional_iff hspec).mpr hdir, hk⟩
    · rintro ⟨spec, hspec, hdir, hk⟩
      exact ⟨spec.key, hk, (directional_iff hspec).mp hdir⟩
  rw [← hdirectional, generateSignalFor, hok]
  have hnone := @withholdingReason_eq_none assembled.scored
  cases hreason : withholdingReason assembled.scored with
  | some refusal =>
    rw [hreason] at hnone
    simp only [hreason]
    refine ⟨_, _, rfl, ?_, ?_⟩
    · exact iff_of_false Bool.false_ne_true (fun henough ↦ nomatch hnone.mpr henough)
    · exact (append_nil signals).symm
  | none =>
    simp only [hreason]
    refine ⟨_, _, rfl, ?_, ?_⟩
    · exact iff_of_true rfl (hnone.mp hreason)
    · rfl

theorem factors_accounted_for (h : symbol ∈ signalSymbols) :
    ∃ profile assembled, profileFor symbol = .ok profile ∧
      assembleInputs log sqrt records settings symbol now clock = .ok assembled ∧
      Accounted profile assembled ∧
      (∀ k, k ∈ assembled.omittedFactors.map Prod.fst →
        (∀ records', ChangesOnly k symbol records records' → ∃ assembled',
          assembleInputs log sqrt records' settings symbol now clock = .ok assembled' ∧
            (RuledOut profile assembled.bars k → k ∉ assembled'.scored) ∧
            (k ∉ assembled'.scored →
              (computeSignal assembled'.inputs).score =
                (computeSignal assembled.inputs).score)) ∧
        ∀ records' settings' now' clock' assembled',
          assembleInputs log sqrt records' settings' symbol now' clock' = .ok assembled' →
          k ∉ assembled'.scored → cleared k assembled'.inputs = cleared k assembled.inputs →
            (computeSignal assembled'.inputs).score = (computeSignal assembled.inputs).score) ∧
      ∃ outcome signals',
        generateSignalFor log sqrt records settings symbol now clock signals =
          .ok (outcome, signals') ∧
        (outcome.payload.isSome = true ↔ 3 ≤ assembled.scored.card ∧
          ∃ spec ∈ profile.applicable, spec.directional = true ∧ spec.key ∈ assembled.scored) ∧
        signals' = signals ++ outcome.payload.toList := by
  obtain ⟨risk, hrun⟩ := assembleInputs_eligible log sqrt h
  have hok := hrun records settings now clock
  have haccounted := accounted_assembled log sqrt records settings now clock h hok
  refine ⟨_, _, profileFor_eligible h, hok, haccounted, fun k hk ↦ ⟨?_, ?_⟩,
    published_iff log sqrt records settings now clock signals h hok⟩
  · intro records' hchange
    obtain ⟨assembled', hok', hruled, hsame⟩ :=
      hchange.assembled log sqrt records settings now clock h hok hk
    exact ⟨assembled', hok', hruled, fun hout ↦ by rw [hsame hout]⟩
  · intro records' settings' now' clock' assembled' hok' hout hcleared
    have haccounted' := accounted_assembled log sqrt records' settings' now' clock' h hok'
    have hnamed : k ∈ assembled'.omittedFactors.map Prod.fst :=
      ((haccounted'.exactly k).mpr (mem_profileOf symbol k)).resolve_left hout
    have hinputs := ((haccounted'.absent k hnamed).cleared.symm.trans hcleared).trans
      (haccounted.absent k hk).cleared
    rw [hinputs]

theorem empty_store_accounted : ∃ profile assembled, profileFor "IR_GOLD_18K" = .ok profile ∧
    assembleInputs id id ⟨[], [], .error "", 4⟩
      ⟨⟨tseOpen, tseClose, tseOpen, tseClose, 30⟩, true, 5, 180⟩ "IR_GOLD_18K" 0 0 =
        .ok assembled ∧
    Accounted profile assembled := by
  obtain ⟨profile, assembled, hprofile, hok, haccounted, _⟩ := factors_accounted_for id id
    ⟨[], [], .error "", 4⟩ ⟨⟨tseOpen, tseClose, tseOpen, tseClose, 30⟩, true, 5, 180⟩ 0 0 []
    (by decide : "IR_GOLD_18K" ∈ signalSymbols)
  exact ⟨profile, assembled, hprofile, hok, haccounted⟩

end Results

end TalaPala.Signals
