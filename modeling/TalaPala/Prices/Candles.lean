import TalaPala.Prices.Intervals
import TalaPala.Prices.Ticks

namespace TalaPala.Prices

open Library

structure CandleBar where
  date : ℤ
  opening : ℚ
  high : ℚ
  low : ℚ
  close : ℚ
  ticks : ℕ

def CandleBar.candle (b : CandleBar) : Candle where
  start := b.date
  opening := b.opening
  high := b.high
  low := b.low
  close := b.close

def candleBar (date : ℤ) (ticks : List Tick) : Option CandleBar := do
  let first ← firstBy earlier ticks
  let high ← (ticks.map Tick.value).max?
  let low ← (ticks.map Tick.value).min?
  let last ← firstBy later ticks
  return {
    date := date
    opening := first.value
    high := high
    low := low
    close := last.value
    ticks := ticks.length }

def aggregate (iv : CandleInterval) (ticks : List Tick) : List CandleBar :=
  summarise (fun t ↦ iv.bucketExpr t.observedAt) candleBar ticks

def inWindow (lower : Option ℤ) (upper at_ : ℤ) : Bool :=
  decide (at_ < upper) && lower.all (fun l ↦ l ≤ at_)

def candleBuckets (table : Table) (symbol : String) (iv : CandleInterval) (lower : Option ℤ)
    (upper : ℤ) (limit : ℕ) : List CandleBar :=
  newest limit (aggregate iv
    ((table.okTicks symbol).filter (fun t ↦ inWindow lower upper t.observedAt)))

def ticksExistBefore (table : Table) (symbol : String) (lower : Option ℤ) (cutoff : ℤ) : Bool :=
  (table.okTicks symbol).any (fun t ↦ inWindow lower cutoff t.observedAt)

def maxCandleLimit : ℕ := 2000

def candleWarmupBuckets : ℕ := 60

def candleScanSlack : ℤ := 4

/-- A validated request for a symbol whose history is in `prices`. -/
structure CandleQuery where
  symbol : String
  interval : CandleInterval
  limit : ℕ
  before : Option ℤ
  fromBound : Option ℤ
  toBound : Option ℤ
  overlays : Bool
  listed : interval ∈ candleIntervals
  limit_pos : 1 ≤ limit
  limit_le : limit ≤ maxCandleLimit
  bounds : ∀ f ∈ fromBound, ∀ t ∈ toBound, f < t

structure CandleWindow where
  fromBound : Option ℤ
  toBound : ℤ

def snapCandleWindow (q : CandleQuery) (iv : CandleInterval) (now : ℤ) : CandleWindow :=
  let upper := now
  let upper := match q.toBound with
    | some t => if iv.bucketCeil t < upper then iv.bucketCeil t else upper
    | none => upper
  let upper := match q.before with
    | some b => if iv.bucketStart b < upper then iv.bucketStart b else upper
    | none => upper
  { fromBound := q.fromBound.map iv.bucketStart, toBound := upper }

structure CandlePage where
  start : ℕ
  hasMore : Bool
  nextBefore : Option ℤ

def paginateCandles (bars : List CandleBar) (limit : ℕ) (olderExists : Bool) : CandlePage :=
  let start := bars.length - limit
  match bars[start]? with
  | none => { start := start, hasMore := false, nextBefore := none }
  | some oldest =>
    { start := start, hasMore := decide (0 < start) || olderExists, nextBefore := some oldest.date }

structure ServedCandle where
  openTime : ℤ
  closeTime : ℤ
  opening : ℚ
  high : ℚ
  low : ℚ
  close : ℚ
  ticks : ℕ
  confirmed : Bool
  synthetic : Bool

def syntheticBucket (ticks : ℕ) : Bool := decide (ticks ≤ 1)

def buildCandles (bars : List CandleBar) (iv : CandleInterval) (now : ℤ) : List ServedCandle :=
  bars.map (fun b ↦
    { openTime := b.date
      closeTime := iv.bucketEnd b.date
      opening := b.opening
      high := b.high
      low := b.low
      close := b.close
      ticks := b.ticks
      confirmed := iv.confirmed b.date now
      synthetic := syntheticBucket b.ticks })

def CandleQuery.fetch (q : CandleQuery) : ℕ :=
  if q.overlays then q.limit + candleWarmupBuckets else q.limit

theorem le_fetch (q : CandleQuery) : q.limit ≤ q.fetch := by
  unfold CandleQuery.fetch
  split <;> omega

theorem scan_duration_fits (q : CandleQuery) :
    q.interval.seconds * (q.fetch : ℤ) * candleScanSlack * 1000000000 < 2 ^ 63 := by
  have hseconds : q.interval.seconds ≤ 604800 := by
    have hall : ∀ iv ∈ candleIntervals, iv.seconds ≤ 604800 := by decide
    exact hall _ q.listed
  have hfetch : (q.fetch : ℤ) ≤ 2060 := by
    have := q.limit_le
    unfold CandleQuery.fetch maxCandleLimit candleWarmupBuckets at *
    split <;> omega
  have hmul : q.interval.seconds * (q.fetch : ℤ) ≤ 604800 * 2060 :=
    mul_le_mul hseconds hfetch (by omega) (by omega)
  unfold candleScanSlack
  omega

def scanFloor (q : CandleQuery) (win : CandleWindow) : ℤ :=
  q.interval.bucketStart
    (win.toBound - q.interval.seconds * (q.fetch : ℤ) * candleScanSlack * second)

def fetchedBars (table : Table) (q : CandleQuery) (win : CandleWindow) : List CandleBar :=
  let lower := win.fromBound.getD (scanFloor q win)
  let bars := candleBuckets table q.symbol q.interval (some lower) win.toBound q.fetch
  if bars.length < q.fetch ∧ win.fromBound = none ∧
      ticksExistBefore table q.symbol none lower = true then
    candleBuckets table q.symbol q.interval none win.toBound q.fetch
  else bars

def candles (table : Table) (now : ℤ) (q : CandleQuery) : List ServedCandle × CandlePage :=
  let win := snapCandleWindow q q.interval now
  let bars := fetchedBars table q win
  let page := paginateCandles bars q.limit false
  let page := match page.nextBefore with
    | some oldest =>
      if page.hasMore then page
      else { page with hasMore := ticksExistBefore table q.symbol win.fromBound oldest }
    | none => page
  ((buildCandles bars q.interval now).drop page.start, page)

/-- The pages a client collects, the older page in front, when it asks again
with `before=next_before` for as long as `has_more` is true. -/
inductive Follows (table : Table) (now : ℤ) : CandleQuery → List (List ServedCandle) → Prop
  | last {q : CandleQuery} (h : (candles table now q).2.hasMore = false) :
      Follows table now q [(candles table now q).1]
  | more {q : CandleQuery} {b : ℤ} {pages : List (List ServedCandle)}
      (h : (candles table now q).2.hasMore = true)
      (hb : (candles table now q).2.nextBefore = some b)
      (rest : Follows table now { q with before := some b } pages) :
      Follows table now q (pages ++ [(candles table now q).1])

theorem candleBar_isSome (date : ℤ) {ticks : List Tick} (h : ticks ≠ []) :
    ∃ b, candleBar date ticks = some b := by
  obtain ⟨first, hfirst⟩ := exists_firstBy (r := earlier) h
  obtain ⟨last, hlast⟩ := exists_firstBy (r := later) h
  have hvalues : ticks.map Tick.value ≠ [] := by simpa using h
  obtain ⟨high, hhigh⟩ := Option.isSome_iff_exists.mp (List.isSome_max?_of_ne_nil hvalues)
  obtain ⟨low, hlow⟩ := Option.isSome_iff_exists.mp (List.isSome_min?_of_ne_nil hvalues)
  simp [candleBar, hfirst, hlast, hhigh, hlow]

theorem candleBar_spec {date : ℤ} {ticks : List Tick} {b : CandleBar}
    (h : candleBar date ticks = some b) :
    b.date = date ∧ b.candle.Draws {t | t ∈ ticks} ∧ b.ticks = ticks.length := by
  simp only [candleBar, Option.bind_eq_bind, Option.bind_eq_some_iff, Option.pure_def,
    Option.some.injEq] at h
  obtain ⟨first, hfirst, high, hhigh, low, hlow, last, hlast, rfl⟩ := h
  obtain ⟨hf, hall⟩ := firstBy_spec hfirst
  obtain ⟨hl, hall'⟩ := firstBy_spec hlast
  obtain ⟨hh, hmax⟩ := List.max?_eq_some_iff.mp hhigh
  obtain ⟨hw, hmin⟩ := List.min?_eq_some_iff.mp hlow
  refine ⟨rfl, ⟨⟨first, hf, rfl, hall⟩, ⟨last, hl, rfl, hall'⟩, ⟨?_, ?_⟩, ⟨?_, ?_⟩⟩, rfl⟩
  · obtain ⟨t, ht, he⟩ := List.mem_map.mp hh
    exact ⟨t, ht, he⟩
  · exact fun u hu ↦ hmax _ (List.mem_map_of_mem hu)
  · obtain ⟨t, ht, he⟩ := List.mem_map.mp hw
    exact ⟨t, ht, he⟩
  · exact fun u hu ↦ hmin _ (List.mem_map_of_mem hu)

theorem candleBar_date (date : ℤ) (ticks : List Tick) (b : CandleBar)
    (h : candleBar date ticks = some b) : b.date = date := (candleBar_spec h).1

theorem aggregate_ascending (iv : CandleInterval) (ticks : List Tick) :
    AscendingBy CandleBar.date (aggregate iv ticks) := summarise_ascending candleBar_date ticks

theorem mem_aggregate {iv : CandleInterval} {ticks : List Tick} {b : CandleBar} :
    b ∈ aggregate iv ticks ↔ (∃ t ∈ ticks, iv.bucketExpr t.observedAt = b.date) ∧
      candleBar b.date (ticks.filter (fun t ↦ iv.bucketExpr t.observedAt = b.date)) =
        some b := by
  rw [aggregate, mem_summarise]
  constructor
  · rintro ⟨k, hk, hb⟩
    obtain rfl := candleBar_date _ _ _ hb
    exact ⟨hk, hb⟩
  · rintro ⟨hk, hb⟩
    exact ⟨_, hk, hb⟩

theorem isBoundary_of_mem_aggregate {iv : CandleInterval} {ticks : List Tick} {b : CandleBar}
    (hb : b ∈ aggregate iv ticks) : iv.grid.IsBoundary b.date := by
  obtain ⟨t, _, hdate⟩ := (mem_aggregate.mp hb).1
  rw [← hdate, iv.bucketExpr_eq]
  exact Grid.isBoundary_floor _

theorem exists_mem_aggregate (iv : CandleInterval) {ticks : List Tick} {t : Tick} (ht : t ∈ ticks) :
    ∃ b ∈ aggregate iv ticks, b.date = iv.bucketExpr t.observedAt := by
  have hne : ticks.filter (fun u ↦ iv.bucketExpr u.observedAt =
      iv.bucketExpr t.observedAt) ≠ [] :=
    List.ne_nil_of_mem (List.mem_filter.mpr ⟨ht, decide_eq_true rfl⟩)
  obtain ⟨b, hb⟩ := candleBar_isSome (iv.bucketExpr t.observedAt) hne
  have hdate := candleBar_date _ _ _ hb
  exact ⟨b, mem_aggregate.mpr ⟨⟨t, ht, hdate.symm⟩, by rw [hdate]; exact hb⟩, hdate⟩

theorem aggregate_isChart (iv : CandleInterval) (ticks : List Tick) :
    IsChart iv.grid {t | t ∈ ticks} ((aggregate iv ticks).map CandleBar.candle) :=
  summarise_isChart (fun t ↦ iv.bucketExpr_eq t.observedAt)
    (fun _ _ _ h ↦ ⟨candleBar_date _ _ _ h, (candleBar_spec h).2.1⟩)
    (fun date _ h ↦ candleBar_isSome date h) ticks

end TalaPala.Prices
