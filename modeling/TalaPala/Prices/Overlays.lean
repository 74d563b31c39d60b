import TalaPala.Library.Trailing
import TalaPala.MarketHours.Calendars
import TalaPala.Prices.Paging
import Mathlib.Analysis.Real.Sqrt

namespace TalaPala.Prices

open Library List

section Indicators

variable {K : Type*} [Field K]

/-- The loop of `SMA`: the running sum takes the new value in and lets the one that left
the window go. -/
def smaFrom (vals : List K) (period : ℕ) : ℕ → K → List K → List (Option K)
  | _, _, [] => []
  | i, sum, v :: rest =>
    let sum := sum + v
    let sum := if period ≤ i then sum - (vals[i - period]?).getD 0 else sum
    (if period ≤ i + 1 then some (sum / period) else none) :: smaFrom vals period (i + 1) sum rest

def sma (vals : List K) (period : ℕ) : List (Option K) :=
  if period = 0 ∨ vals.length < period then vals.map (fun _ ↦ none)
  else smaFrom vals period 0 0 vals

/-- `Bollinger` beside a square root: the bands `k` deviations around the mean. -/
def bollinger (sqrt : K → K) (vals : List K) (period : ℕ) (k : K) :
    List (Option K) × List (Option K) × List (Option K) :=
  let mid := sma vals period
  let band (side : K → K → K) := mid.mapIdx (fun i m ↦ m.map (fun m ↦
    let window := newest period (vals.take (i + 1))
    let ss := (window.map (fun v ↦ (v - m) * (v - m))).sum
    side m (k * sqrt (ss / period))))
  (band (· + ·), mid, band (· - ·))

def mean (period : ℕ) (window : List K) : K := window.sum / period

theorem smaFrom_eq {vals : List K} {period : ℕ} (hpos : 0 < period) (rest done : List K)
    (h : vals = done ++ rest) :
    smaFrom vals period done.length (newest period done).sum rest =
      alongFrom (trailing period (mean period)) done rest := by
  induction rest generalizing done with
  | nil => rfl
  | cons v rest ih =>
    have hnext := ih (done ++ [v]) (by simp [h])
    rw [length_append, length_singleton] at hnext
    have hsum : (newest period (done ++ [v])).sum =
        if period ≤ done.length then
          (newest period done).sum + v - (vals[done.length - period]?).getD 0
        else (newest period done).sum + v := by
      split_ifs with hle
      · have hb : done[done.length - period]? = some done[done.length - period] :=
          getElem?_eq_getElem (by omega)
        obtain ⟨mid, hold, hnew⟩ := newest_concat (a := v) hb hle
        have hvals : vals[done.length - period]? = some done[done.length - period] := by
          rw [h, getElem?_append_left (by omega), hb]
        rw [hold, hnew, hvals, Option.getD_some, sum_cons, sum_append, sum_singleton]
        ring
      · rw [newest_of_length_le (not_le.mp hle).le,
          newest_of_length_le (by rw [length_append, length_singleton]; omega),
          sum_append, sum_singleton]
    rw [smaFrom, alongFrom, ← hnext, hsum, trailing, mean, hsum, length_append, length_singleton]
    congr 1
    split_ifs <;> first | rfl | omega

theorem sma_eq {vals : List K} {period : ℕ} (hpos : 0 < period) :
    sma vals period = along (trailing period (mean period)) vals := by
  unfold sma
  split_ifs with hshort
  · have hlen : vals.length < period := by omega
    refine ext_getElem? (fun i ↦ ?_)
    by_cases hi : i < vals.length
    · rw [getElem?_along hi, trailing, if_pos (by rw [length_take]; omega),
        getElem?_map, getElem?_eq_getElem hi]
      rfl
    · rw [getElem?_along_of_le (not_lt.mp hi), getElem?_eq_none (by simpa using hi)]
  · have hloop := smaFrom_eq hpos vals [] rfl
    simpa [newest, along] using hloop

def bandOf (sqrt : K → K) (period : ℕ) (k : K) (side : K → K → K) (window : List K) : K :=
  let m := mean period window
  side m (k * sqrt ((window.map (fun v ↦ (v - m) * (v - m))).sum / period))

theorem bollinger_eq {sqrt : K → K} {vals : List K} {period : ℕ} {k : K} (hpos : 0 < period) :
    bollinger sqrt vals period k =
      (along (trailing period (bandOf sqrt period k (· + ·))) vals,
        along (trailing period (mean period)) vals,
        along (trailing period (bandOf sqrt period k (· - ·))) vals) := by
  have hband (side : K → K → K) : (sma vals period).mapIdx (fun i m ↦ m.map (fun m ↦
      side m (k * sqrt (((newest period (vals.take (i + 1))).map
        (fun v ↦ (v - m) * (v - m))).sum / period)))) =
      along (trailing period (bandOf sqrt period k side)) vals := by
    refine ext_getElem? (fun i ↦ ?_)
    rw [getElem?_mapIdx, sma_eq hpos]
    by_cases hi : i < vals.length
    · rw [getElem?_along hi, getElem?_along hi, Option.map_some]
      simp only [trailing]
      split_ifs <;> rfl
    · rw [getElem?_along_of_le (not_lt.mp hi), getElem?_along_of_le (not_lt.mp hi)]
      rfl
  simp only [bollinger]
  rw [hband, hband, sma_eq hpos]

variable [LinearOrder K]

def ichimokuTenkan : ℕ := 9
def ichimokuKijun : ℕ := 26
def ichimokuSenkou : ℕ := 52

def midpoint (window : List (K × K)) : K :=
  (((window.map Prod.fst).max?).getD 0 + ((window.map Prod.snd).min?).getD 0) / 2

def rollingMid (high low : List K) (period : ℕ) : List (Option K) :=
  along (trailing period midpoint) (high.zip low)

def ichimoku (high low : List K) :
    List (Option K) × List (Option K) × List (Option K) × List (Option K) :=
  let tenkan := rollingMid high low ichimokuTenkan
  let kijun := rollingMid high low ichimokuKijun
  let senkouA := tenkan.zipWith
    (fun t k ↦ t.bind (fun t ↦ k.map (fun k ↦ (t + k) / 2))) kijun
  (tenkan, kijun, senkouA, rollingMid high low ichimokuSenkou)

def halfway (line line' : Option K) : Option K :=
  line.bind (fun t ↦ line'.map (fun k ↦ (t + k) / 2))

theorem ichimoku_eq (high low : List K) :
    (ichimoku high low).2.2.1 =
      along (fun w ↦ halfway (trailing ichimokuTenkan midpoint w)
        (trailing ichimokuKijun midpoint w)) (high.zip low) :=
  zipWith_along halfway _

end Indicators

section Overlays

inductive Overlay
  | sma20
  | sma50
  | bollingerUpper
  | bollingerMid
  | bollingerLower
  | ichimokuTenkan
  | ichimokuKijun
  | ichimokuSenkouA
  | ichimokuSenkouB

/-- `rangeOverlayKeys`. -/
def Overlay.ranged : Overlay → Bool
  | .ichimokuTenkan | .ichimokuKijun | .ichimokuSenkouA | .ichimokuSenkouB => true
  | _ => false

variable {K : Type*} [Field K] [LinearOrder K] (sqrt : K → K)

def overlayLine (bars : List CandleBar) (line : Overlay) : List (Option K) :=
  let closes : List K := bars.map (fun b ↦ (b.close : K))
  let highs : List K := bars.map (fun b ↦ (b.high : K))
  let lows : List K := bars.map (fun b ↦ (b.low : K))
  let bands := bollinger sqrt closes 20 2
  let cloud := ichimoku highs lows
  match line with
  | .sma20 => sma closes 20
  | .sma50 => sma closes 50
  | .bollingerUpper => bands.1
  | .bollingerMid => bands.2.1
  | .bollingerLower => bands.2.2
  | .ichimokuTenkan => cloud.1
  | .ichimokuKijun => cloud.2.1
  | .ichimokuSenkouA => cloud.2.2.1
  | .ichimokuSenkouB => cloud.2.2.2

def candleOverlays (bars : List CandleBar) (start : ℕ) (line : Overlay) : List (Option K) :=
  (overlayLine sqrt bars line).drop start

/-- A payload's overlay fields: none was asked for, or one of them is refused. -/
abbrev OverlayFields (K : Type*) := Option (Overlay → Option (List (Option K)))

/-- The overlays of `buildCandlePayload`. -/
def payloadOverlays (bars : List CandleBar) (start : ℕ) (overlays dailyClose : Bool) :
    OverlayFields K :=
  if overlays then
    some (fun line ↦
      if dailyClose && line.ranged then none else some (candleOverlays sqrt bars start line))
  else none

/-- The overlays of a tick symbol's page. `source` is what wrote its newest row. -/
def servedOverlays (table : Table) (now : ℤ) (source : String) (q : CandleQuery) :
    OverlayFields K :=
  let bars := fetchedBars table q (snapCandleWindow q q.interval now)
  payloadOverlays sqrt bars (paginateCandles bars q.limit false).start q.overlays
    (MarketHours.Go.dailyClose q.symbol source).isSome

def OverlayFields.entry (fields : OverlayFields K) (line : Overlay) (k : ℕ) : Option (Option K) :=
  fields.bind (fun field ↦ (field line).bind (fun vals ↦ vals[k]?))

def figure (line : Overlay) (bars : List CandleBar) : Option K :=
  let closes : List K := bars.map (fun b ↦ (b.close : K))
  let ranges : List (K × K) := bars.map (fun b ↦ ((b.high : K), (b.low : K)))
  match line with
  | .sma20 => trailing 20 (mean 20) closes
  | .sma50 => trailing 50 (mean 50) closes
  | .bollingerUpper => trailing 20 (bandOf sqrt 20 2 (· + ·)) closes
  | .bollingerMid => trailing 20 (mean 20) closes
  | .bollingerLower => trailing 20 (bandOf sqrt 20 2 (· - ·)) closes
  | .ichimokuTenkan => trailing Prices.ichimokuTenkan midpoint ranges
  | .ichimokuKijun => trailing Prices.ichimokuKijun midpoint ranges
  | .ichimokuSenkouA => halfway (trailing Prices.ichimokuTenkan midpoint ranges)
      (trailing Prices.ichimokuKijun midpoint ranges)
  | .ichimokuSenkouB => trailing Prices.ichimokuSenkou midpoint ranges

theorem overlayLine_eq (bars : List CandleBar) (line : Overlay) :
    overlayLine sqrt bars line = along (figure sqrt line) bars := by
  have hzip : (bars.map (fun b ↦ (b.high : K))).zip (bars.map (fun b ↦ (b.low : K))) =
      bars.map (fun b ↦ ((b.high : K), (b.low : K))) := by
    rw [zip_map']
  have hmid (period : ℕ) : rollingMid (bars.map (fun b ↦ (b.high : K)))
      (bars.map (fun b ↦ (b.low : K))) period =
        along (fun w ↦ trailing period midpoint
          (w.map (fun b ↦ ((b.high : K), (b.low : K))))) bars := by
    rw [rollingMid, hzip, along_map]
  have hbands : bollinger sqrt (bars.map (fun b ↦ (b.close : K))) 20 2 = _ :=
    bollinger_eq (by decide)
  unfold overlayLine
  cases line with
  | sma20 | sma50 => exact (sma_eq (by decide)).trans (along_map _)
  | bollingerUpper | bollingerMid | bollingerLower =>
    simp only [hbands, along_map]
    rfl
  | ichimokuTenkan | ichimokuKijun | ichimokuSenkouB => exact hmid _
  | ichimokuSenkouA =>
    simp only [ichimoku_eq, hzip, along_map]
    rfl

theorem figure_append {front bars : List CandleBar} (line : Overlay)
    (h : front = [] ∨ candleWarmupBuckets ≤ bars.length) :
    figure sqrt line (front ++ bars) = figure sqrt line bars := by
  have hwindow {α β : Type _} (period : ℕ) (f : List α → β) (g : CandleBar → α)
      (hperiod : period ≤ candleWarmupBuckets) :
      trailing period f ((front ++ bars).map g) = trailing period f (bars.map g) := by
    rw [map_append]
    refine trailing_append ?_
    rcases h with rfl | h
    · exact .inl rfl
    · exact .inr (by rw [length_map]; omega)
  cases line <;> simp only [figure]
  case ichimokuSenkouA => rw [hwindow _ _ _ (by decide), hwindow _ _ _ (by decide)]
  all_goals exact hwindow _ _ _ (by decide)

def history (table : Table) (now : ℤ) (symbol : String) (iv : CandleInterval) : List CandleBar :=
  aggregate iv (known table symbol now)

def historyEntry (table : Table) (now : ℤ) (source : String) (q : CandleQuery) (line : Overlay)
    (openTime : ℤ) : Option (Option K) :=
  let bars := (history table now q.symbol q.interval).filter (fun b ↦ b.date ≤ openTime)
  (payloadOverlays sqrt bars 0 true (MarketHours.Go.dailyClose q.symbol source).isSome).entry line
    (bars.length - 1)

theorem entry_payloadOverlays {bars : List CandleBar} {start k : ℕ} (dailyClose : Bool)
    (line : Overlay) (hk : start + k < bars.length) :
    (payloadOverlays sqrt bars start true dailyClose).entry line k =
      if dailyClose && line.ranged then none
      else some (figure sqrt line (bars.take (start + k + 1))) := by
  have hfigure : (candleOverlays sqrt bars start line)[k]? =
      some (figure sqrt line (bars.take (start + k + 1))) := by
    rw [candleOverlays, overlayLine_eq, getElem?_drop, getElem?_along hk]
  simp only [payloadOverlays, if_true, OverlayFields.entry, Option.bind_some]
  split_ifs
  · rfl
  · exact hfigure

theorem entry_last {bars : List CandleBar} (dailyClose : Bool) (line : Overlay)
    (hne : bars.length ≠ 0) :
    (payloadOverlays sqrt bars 0 true dailyClose).entry line (bars.length - 1) =
      if dailyClose && line.ranged then none else some (figure sqrt line bars) := by
  rw [entry_payloadOverlays sqrt dailyClose line (by omega), take_of_length_le (by omega)]

theorem paginateCandles_start (bars : List CandleBar) (limit : ℕ) (olderExists : Bool) :
    (paginateCandles bars limit olderExists).start = bars.length - limit := by
  dsimp only [paginateCandles]
  split <;> rfl

variable {table : Table} {now : ℤ} {q : CandleQuery} {k : ℕ} {c : ServedCandle}

theorem shown_bucket (hfrom : q.fromBound = none) (hover : q.overlays = true)
    (hc : (candles table now q).1[k]? = some c) :
    let bars := fetchedBars table q (snapCandleWindow q q.interval now)
    let start := bars.length - q.limit
    start + k < bars.length ∧ ∃ front,
      (history table now q.symbol q.interval).filter (fun b ↦ b.date ≤ c.openTime) =
        front ++ bars.take (start + k + 1) ∧
      (front = [] ∨ candleWarmupBuckets ≤ start + k + 1) := by
  have hfetch : q.fetch = q.limit + candleWarmupBuckets := by simp [CandleQuery.fetch, hover]
  have hwindow : windowBars table now q =
      (history table now q.symbol q.interval).filter
        (fun b ↦ b.date < (snapCandleWindow q q.interval now).toBound) := by
    simp [windowBars, history, snapCandleWindow, hfrom, inWindow]
  rw [(candles_eq table now q).1, buildCandles, getElem?_map, hwindow] at hc
  obtain ⟨b, hb, rfl⟩ := Option.map_eq_some_iff.mp hc
  obtain ⟨hat, hfront⟩ := (aggregate_ascending _ _).shown candleWarmupBuckets hb
  dsimp only
  rw [fetchedBars_eq table now q, hfetch, hwindow]
  exact ⟨(List.getElem?_eq_some_iff.mp hat).1, hfront⟩

theorem page_entry (source : String) (hfrom : q.fromBound = none) (hover : q.overlays = true)
    (hc : (candles table now q).1[k]? = some c) (line : Overlay) :
    (servedOverlays sqrt table now source q).entry line k =
      historyEntry sqrt table now source q line c.openTime := by
  obtain ⟨hlt, front, hhistory, hwarm⟩ := shown_bucket hfrom hover hc
  simp only [servedOverlays, historyEntry, paginateCandles_start, hover, hhistory]
  set bars := fetchedBars table q (snapCandleWindow q q.interval now)
  have htake : (bars.take (bars.length - q.limit + k + 1)).length =
      bars.length - q.limit + k + 1 := by
    rw [length_take]
    omega
  have hne : (front ++ bars.take (bars.length - q.limit + k + 1)).length ≠ 0 := by
    rw [length_append, htake]
    omega
  rw [entry_payloadOverlays sqrt _ line hlt, entry_last sqrt _ line hne,
    figure_append sqrt line (by rw [htake]; exact hwarm)]

/-- An overlay does not depend on the page it is read from. -/
theorem overlays_page_free (source : String) {q' : CandleQuery} (hsymbol : q'.symbol = q.symbol)
    (hinterval : q'.interval = q.interval) (hfrom : q.fromBound = none)
    (hfrom' : q'.fromBound = none) (hover : q.overlays = true) (hover' : q'.overlays = true)
    {k' : ℕ} {c' : ServedCandle} (hc : (candles table now q).1[k]? = some c)
    (hc' : (candles table now q').1[k']? = some c') (hsame : c'.openTime = c.openTime)
    (line : Overlay) :
    (servedOverlays sqrt table now source q).entry line k =
        (servedOverlays sqrt table now source q').entry line k' ∧
      (servedOverlays sqrt table now source q).entry line k =
        historyEntry sqrt table now source q line c.openTime := by
  have hpage := page_entry sqrt source hfrom hover hc line
  have hpage' := page_entry sqrt source hfrom' hover' hc' line
  refine ⟨?_, hpage⟩
  rw [hpage, hpage', hsame, historyEntry, historyEntry, hsymbol, hinterval]

end Overlays

section Pages

def threeDays : Table where
  rows := [⟨0, "XAU", 10, 0, .ok⟩, ⟨1, "XAU", 12, 86400 * second, .ok⟩,
    ⟨2, "XAU", 11, 2 * 86400 * second, .ok⟩]
  ids := by decide

def newestTwo : CandleQuery where
  symbol := "XAU"
  interval := dayInterval
  limit := 2
  before := none
  fromBound := none
  toBound := none
  overlays := true
  listed := by simp [candleIntervals]
  limit_pos := by decide
  limit_le := by decide
  bounds := by simp

def olderOne : CandleQuery where
  symbol := "XAU"
  interval := dayInterval
  limit := 1
  before := some (2 * 86400 * second)
  fromBound := none
  toBound := none
  overlays := true
  listed := by simp [candleIntervals]
  limit_pos := by decide
  limit_le := by decide
  bounds := by simp

/-- The middle day opens one page and is the whole of another. -/
theorem overlays_page_free_middle :
    (servedOverlays Real.sqrt threeDays (3 * 86400 * second) "" newestTwo).entry .sma20 0 =
        (servedOverlays Real.sqrt threeDays (3 * 86400 * second) "" olderOne).entry .sma20 0 ∧
      (servedOverlays Real.sqrt threeDays (3 * 86400 * second) "" newestTwo).entry .sma20 0 =
        historyEntry Real.sqrt threeDays (3 * 86400 * second) "" newestTwo .sma20
          (86400 * second) := by
  have hfirst : ((candles threeDays (3 * 86400 * second) newestTwo).1[0]?).map
      ServedCandle.openTime = some (86400 * second) := by decide
  have honly : ((candles threeDays (3 * 86400 * second) olderOne).1[0]?).map
      ServedCandle.openTime = some (86400 * second) := by decide
  obtain ⟨c, hc, hopen⟩ := Option.map_eq_some_iff.mp hfirst
  obtain ⟨c', hc', hopen'⟩ := Option.map_eq_some_iff.mp honly
  have hsame : c'.openTime = c.openTime := hopen'.trans hopen.symm
  have hfree := @overlays_page_free ℝ _ _ Real.sqrt threeDays (3 * 86400 * second) newestTwo 0 c ""
    olderOne rfl rfl rfl rfl rfl rfl 0 c' hc hc' hsame .sma20
  rw [hopen] at hfree
  exact hfree

end Pages

end TalaPala.Prices

namespace TalaPala.Indicators

variable {K : Type*} [Field K]

/-- The entry of a slice; no loop over bars reads one past its end. -/
def entry (s : List K) (i : ℕ) : K := s.getD i 0

/-- The middle of the range of bar `i`. -/
def mid (high low : List K) (i : ℕ) : K := (entry high i + entry low i) / 2

end TalaPala.Indicators
