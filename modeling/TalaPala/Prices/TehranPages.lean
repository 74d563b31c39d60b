import TalaPala.Bourse.SectorFlows
import TalaPala.Equities.Serving
import TalaPala.Prices.Overlays

namespace TalaPala.Prices

open Library Equities List

section Masks

variable {α β : Type*}

def compress (vals : List α) (keep : List Bool) : List α × List ℕ :=
  let kept := (vals.zip keep).zipIdx.filter (fun entry ↦ entry.1.2)
  (kept.map (fun entry ↦ entry.1.1), kept.map Prod.snd)

/-- A compressed series back in its slots, null in every other one, from `start` on. -/
def scatter (vals : List (Option β)) (at_ : List ℕ) (n start : ℕ) : List (Option β) :=
  ((List.range n).map (fun i ↦ ((at_.zip vals).lookup i).join)).drop start

theorem compress_concat {vals : List α} {keep : List Bool} (h : vals.length = keep.length) (v : α)
    (flag : Bool) : compress (vals ++ [v]) (keep ++ [flag]) =
      if flag then ((compress vals keep).1 ++ [v], (compress vals keep).2 ++ [vals.length])
      else compress vals keep := by
  rw [compress, zip_append h]
  cases flag <;> simp [compress, zipIdx_append, h]

variable {σ : Type*} {value : σ → α} {kept : σ → Bool} {l : List σ}

theorem compress_fst : (compress (l.map value) (l.map kept)).1 = (l.filter kept).map value := by
  induction l using List.reverseRecOn with
  | nil => rfl
  | append_singleton l s ih =>
    simp only [map_append, map_singleton]
    rw [compress_concat (by simp), filter_append, map_append]
    cases hs : kept s <;> simp [hs, ih]

theorem compress_snd_lt {i : ℕ} (h : i ∈ (compress (l.map value) (l.map kept)).2) :
    i < l.length := by
  obtain ⟨entry, hentry, rfl⟩ := mem_map.mp h
  have hlt := snd_lt_of_mem_zipIdx (mem_of_mem_filter hentry)
  simpa using hlt

theorem length_compress (vals : List α) (keep : List Bool) :
    (compress vals keep).2.length = (compress vals keep).1.length := by
  simp [compress]

theorem lookup_compress {g : List α → Option β} {i : ℕ} {s : σ} (hs : l[i]? = some s) :
    (((compress (l.map value) (l.map kept)).2.zip
      (along g (compress (l.map value) (l.map kept)).1)).lookup i).join =
        if kept s then g (((l.take (i + 1)).filter kept).map value) else none := by
  induction l using List.reverseRecOn with
  | nil => simp at hs
  | append_singleton l t ih =>
    have hold {pairs : List (ℕ × Option β)} (hkeys : ∀ p ∈ pairs, p.1 < l.length) :
        pairs.lookup l.length = none := by
      refine lookup_eq_none_iff.mpr (fun p hp ↦ ?_)
      exact bne_iff_ne.mpr (hkeys p hp).ne'
    have hkeys : ∀ p ∈ (compress (l.map value) (l.map kept)).2.zip
        (along g (compress (l.map value) (l.map kept)).1), p.1 < l.length :=
      fun p hp ↦ compress_snd_lt (of_mem_zip hp).1
    have hlen : (compress (l.map value) (l.map kept)).2.length =
        (along g (compress (l.map value) (l.map kept)).1).length := by
      rw [length_along, length_compress]
    rcases Nat.lt_or_ge i l.length with hi | hi
    · rw [getElem?_append_left hi] at hs
      rw [take_append_of_le_length (by omega), ← ih hs]
      simp only [map_append, map_singleton]
      rw [compress_concat (by simp)]
      cases kept t with
      | false => rfl
      | true =>
        have hne : (i == l.length) = false := beq_eq_false_iff_ne.mpr hi.ne
        simp only [if_true, along_concat]
        rw [zip_append hlen, lookup_append]
        simp [lookup_cons, hne]
    · obtain rfl : i = l.length := by
        have := (List.getElem?_eq_some_iff.mp hs).1
        simp at this
        omega
      obtain rfl : t = s := by simpa using hs
      rw [take_of_length_le (by simp)]
      simp only [map_append, map_singleton]
      rw [compress_concat (by simp)]
      cases hflag : kept t with
      | false =>
        simp only [Bool.false_eq_true, if_false]
        rw [hold hkeys]
        rfl
      | true =>
        simp only [if_true, along_concat]
        rw [zip_append hlen, lookup_append, hold hkeys, compress_fst]
        simp [hflag]

end Masks

structure SeriesCandle where
  openTime : ℤ
  closeTime : ℤ
  opening : Option ℚ := none
  high : Option ℚ := none
  low : Option ℚ := none
  close : ℚ
  volume : Option ℚ := none
  confirmed : Bool := true
  unchanged : Bool := false
  rescaled : Bool := false
  traded : Option Bool := none
  adjustmentFactor : Option ℚ := none
  lastTrade : Option ℚ := none
  closeOutsideRange : Bool := false
  deriving DecidableEq

def SeriesCandle.skipped (c : SeriesCandle) : Bool := c.unchanged || c.traded == some false

def daySpan : ℤ := 86400 * second

structure TehranPage (K : Type*) where
  candles : List SeriesCandle
  hasMore : Bool
  nextBefore : Option ℤ
  overlays : OverlayFields K

def pageBounds (n limit : ℕ) (overlays : Bool) : ℕ × ℕ :=
  let visibleStart := n - limit
  (if overlays then visibleStart - candleWarmupBuckets else visibleStart, visibleStart)

section Lines

variable {K : Type*} [Field K] [LinearOrder K] (sqrt : K → K)

theorem atLeastTwo_two : Nat.AtLeastTwo 2 := ⟨le_rfl⟩

attribute [local instance] atLeastTwo_two

def closeOverlays (closes : List K) (keep : List Bool) (start : ℕ) (line : Overlay) :
    Option (List (Option K)) :=
  let (vals, at_) := compress closes keep
  let n := closes.length
  let bands := bollinger sqrt vals 20 2
  match line with
  | .sma20 => some (scatter (sma vals 20) at_ n start)
  | .sma50 => some (scatter (sma vals 50) at_ n start)
  | .bollingerUpper => some (scatter bands.1 at_ n start)
  | .bollingerMid => some (scatter bands.2.1 at_ n start)
  | .bollingerLower => some (scatter bands.2.2 at_ n start)
  | .ichimokuTenkan | .ichimokuKijun | .ichimokuSenkouA | .ichimokuSenkouB => none

structure ChartPoint extends Bourse.IndexPoint where
  unchanged : Bool
  rescaled : Bool

def markUnchanged (points : List ChartPoint) : List ChartPoint :=
  points.mapIdx (fun i p ↦
    { p with
      unchanged := decide (0 < i) && decide (points[i - 1]?.map (fun p ↦ p.value) = some p.value) })

theorem days_markUnchanged (points : List ChartPoint) :
    (markUnchanged points).map (fun p ↦ p.day) = points.map (fun p ↦ p.day) := by
  refine ext_getElem? fun i ↦ ?_
  rw [markUnchanged, getElem?_map, getElem?_mapIdx, Option.map_map, getElem?_map]
  rfl

theorem markUnchanged_ascending {points : List ChartPoint}
    (h : AscendingBy (fun p : ChartPoint ↦ p.day) points) :
    AscendingBy (fun p : ChartPoint ↦ p.day) (markUnchanged points) := by
  rw [AscendingBy, ← pairwise_map (f := fun p : ChartPoint ↦ p.day) (R := (· < ·)),
    days_markUnchanged]
  exact pairwise_map.mpr h

structure ChartSeries where
  points : List ChartPoint
  ascending : AscendingBy (fun p : ChartPoint ↦ p.day) points

theorem ChartSeries.eq_of_points {s t : ChartSeries} (h : s.points = t.points) : s = t := by
  cases s
  cases t
  congr

def indexCandle (p : ChartPoint) : SeriesCandle where
  openTime := p.day
  closeTime := p.day + daySpan
  close := p.value
  unchanged := p.unchanged
  rescaled := p.rescaled

def buildIndexCandlePage (series : ChartSeries) (win : CandleWindow) (limit : ℕ)
    (overlays : Bool) : TehranPage K :=
  let pts := series.points
  let lo := match win.fromBound with
    | some start => pts.findIdx (fun p ↦ start ≤ p.day)
    | none => 0
  let hi := max lo (pts.findIdx (fun p ↦ win.toBound ≤ p.day))
  let inWindow := (pts.take hi).drop lo
  let (fetchStart, visibleStart) := pageBounds inWindow.length limit overlays
  let fetched := inWindow.drop fetchStart
  let start := visibleStart - fetchStart
  { candles := (fetched.drop start).map indexCandle
    hasMore := !(fetched.drop start).isEmpty && decide (0 < visibleStart)
    nextBefore := (fetched.drop start).head?.map (fun p ↦ p.day)
    overlays :=
      if overlays then
        some (closeOverlays sqrt (fetched.map (fun p ↦ (p.value : K)))
          (fetched.map (fun p ↦ !p.unchanged)) start)
      else none }

def ChartBar.range (b : ChartBar) : Option (ℚ × ℚ) :=
  if b.traded then b.high.bind (fun high ↦ b.low.map (fun low ↦ (high, low))) else none

def equityCandle (b : ChartBar) : SeriesCandle where
  openTime := b.day * daySpan
  closeTime := b.day * daySpan + daySpan
  opening := b.opening
  high := b.high
  low := b.low
  close := b.close
  volume := some b.volume
  traded := some b.traded
  adjustmentFactor := if b.factor ≠ 1 then some b.factor else none
  lastTrade := b.lastTrade
  closeOutsideRange := b.closeOutsideRange

def equityOverlays (bars : List ChartBar) (start : ℕ) (line : Overlay) :
    Option (List (Option K)) :=
  let ranges := bars.map (fun b ↦ (ChartBar.range b).getD (0, 0))
  let ranged := bars.map (fun b ↦ (ChartBar.range b).isSome)
  let (hs, at_) := compress (ranges.map (fun r ↦ (r.1 : K))) ranged
  let (ls, _) := compress (ranges.map (fun r ↦ (r.2 : K))) ranged
  let cloud := ichimoku hs ls
  let n := bars.length
  match line with
  | .ichimokuTenkan => some (scatter cloud.1 at_ n start)
  | .ichimokuKijun => some (scatter cloud.2.1 at_ n start)
  | .ichimokuSenkouA => some (scatter cloud.2.2.1 at_ n start)
  | .ichimokuSenkouB => some (scatter cloud.2.2.2 at_ n start)
  | line => closeOverlays sqrt (bars.map (fun b ↦ (b.close : K))) (bars.map ChartBar.traded) start
      line

def buildEquityCandlePage (bars : List ChartBar) (olderExists : Bool) (limit : ℕ)
    (overlays : Bool) : TehranPage K :=
  let start := (pageBounds bars.length limit false).2
  { candles := (bars.drop start).map equityCandle
    hasMore := !(bars.drop start).isEmpty && (decide (0 < start) || olderExists)
    nextBefore := (bars.drop start).head?.map (fun b ↦ b.day * daySpan)
    overlays := if overlays then some (equityOverlays sqrt bars start) else none }

inductive TehranSource
  | index (series : ChartSeries)
  | share (tables : EquityTables) (insCode : String)

def tehranInterval : String := "1d"

/-- `tehranCandles`: any other interval is refused, and a share whose adjustment is not
servable. -/
def tehranCandles (source : TehranSource) (now : ℤ) (q : CandleQuery) : Option (TehranPage K) :=
  if q.interval.name ≠ tehranInterval then none
  else
    let win := snapCandleWindow q q.interval now
    match source with
    | .index series => some (buildIndexCandlePage sqrt series win q.limit q.overlays)
    | .share tables insCode =>
      let upper := q.interval.bucketCeil win.toBound
      let bars (limit : ℕ) := tables.chartBars insCode (win.fromBound.map (· / daySpan))
        (some (upper / daySpan)) limit
      (bars q.fetch).map (fun items ↦
        buildEquityCandlePage sqrt items
          (decide (q.fetch < ((bars (q.fetch + 1)).getD []).length)) q.limit q.overlays)

end Lines

end TalaPala.Prices
