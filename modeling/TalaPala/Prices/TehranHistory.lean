import TalaPala.Prices.TehranPages

namespace TalaPala.Prices

open Library Equities List

structure Session where
  day : ℤ
  close : ℚ
  kept : Bool

def ChartPoint.session (p : ChartPoint) : Session := ⟨p.day, p.value, !p.unchanged⟩

def shareSession (b : ChartBar) : Session := ⟨b.day * daySpan, b.close, b.traded⟩

def TehranSource.sessions : TehranSource → List Session
  | .index series => series.points.map ChartPoint.session
  | .share tables insCode =>
    ((tables.chartBars insCode none none tables.bars.length).getD []).map shareSession

def TehranSource.upper (source : TehranSource) (now : ℤ) (q : CandleQuery) : ℤ :=
  match source with
  | .index _ => (snapCandleWindow q q.interval now).toBound
  | .share _ _ => q.interval.bucketCeil (snapCandleWindow q q.interval now).toBound

def TehranSource.fetched (source : TehranSource) (now : ℤ) (q : CandleQuery) : List Session :=
  newest (q.limit + candleWarmupBuckets)
    (source.sessions.filter (fun s ↦ s.day < source.upper now q))

section Stored

variable {tables : EquityTables} {insCode : String}

def shareRows (tables : EquityTables) (insCode version : String) (start before : Option Date) :
    List ChartBar :=
  ((newestFirst (tables.bars.filter (fun b ↦ decide (b.insCode = insCode) &&
    start.all (fun d ↦ d ≤ b.tradeDate) && before.all (fun d ↦ b.tradeDate < d)))).map
      (fun b ↦ chartBarOf { bar := b, factor := tables.factor b.insCode version b.tradeDate })).reverse

theorem shareRows_ascending (version : String) (start before : Option Date) :
    AscendingBy ChartBar.day (shareRows tables insCode version start before) := by
  let read := tables.bars.filter (fun b ↦ decide (b.insCode = insCode) &&
    start.all (fun d ↦ d ≤ b.tradeDate) && before.all (fun d ↦ b.tradeDate < d))
  have hsorted : (newestFirst read).Pairwise (fun a b ↦ b.tradeDate ≤ a.tradeDate) := by
    have : Std.Total (fun a b : Equities.Bar ↦ b.tradeDate ≤ a.tradeDate) := ⟨fun a b ↦ le_total _ _⟩
    have : IsTrans Equities.Bar (fun a b ↦ b.tradeDate ≤ a.tradeDate) := ⟨fun a b c hab hbc ↦ hbc.trans hab⟩
    exact pairwise_insertionSort _ read
  have hread : ∀ b ∈ newestFirst read, b ∈ tables.bars ∧ b.insCode = insCode := by
    intro b hb
    have hb := mem_filter.mp ((mem_insertionSort _).mp hb)
    simp only [Bool.and_eq_true, decide_eq_true_eq] at hb
    exact ⟨hb.1, hb.2.1.1⟩
  have hdistinct : (newestFirst read).Pairwise (fun a b ↦ a ≠ b) := by
    have hnodup : tables.bars.Nodup := List.Nodup.of_map _ tables.barKey
    exact ((perm_insertionSort _ read).nodup_iff.mpr (hnodup.filter _))
  refine pairwise_reverse.mpr (pairwise_map.mpr ?_)
  refine (List.Pairwise.and hsorted hdistinct).imp_of_mem ?_
  rintro a b ha hb ⟨hle, hne⟩
  refine lt_of_le_of_ne hle (fun hdate ↦ hne ?_)
  exact tables.bar_unique (hread a ha).1 (hread b hb).1
    ((hread a ha).2.trans (hread b hb).2.symm) hdate.symm

theorem shareRows_before (version : String) (start : Option Date) (before : Date) :
    shareRows tables insCode version start (some before) =
      (shareRows tables insCode version start none).filter (fun b ↦ b.day < before) := by
  refine (shareRows_ascending _ _ _).ext ((shareRows_ascending _ _ _).filter _) (fun b ↦ ?_)
  simp only [shareRows, mem_reverse, mem_map, mem_filter, newestFirst,
    mem_insertionSort, Bool.and_eq_true, decide_eq_true_eq, Option.all_some, Option.all_none]
  constructor
  · rintro ⟨row, ⟨hrow, hread, hlt⟩, rfl⟩
    exact ⟨⟨row, ⟨hrow, hread, trivial⟩, rfl⟩, hlt⟩
  · rintro ⟨⟨row, ⟨hrow, hread, -⟩, rfl⟩, hlt⟩
    exact ⟨row, ⟨hrow, hread, hlt⟩, rfl⟩

theorem length_shareRows_le (version : String) (start before : Option Date) :
    (shareRows tables insCode version start before).length ≤ tables.bars.length := by
  rw [shareRows, length_reverse, length_map, newestFirst, length_insertionSort]
  exact length_filter_le _ _

theorem chartBars_eq {start before : Option Date} {limit : ℕ} {items : List ChartBar}
    (h : tables.chartBars insCode start before limit = some items) :
    ∃ version first, ∀ before' limit', tables.chartBars insCode start before' limit' =
      some (newest limit' (shareRows tables insCode version first before')) := by
  simp only [EquityTables.chartBars, Option.bind_eq_bind, Option.bind_eq_some_iff,
    Option.pure_def, Option.some.injEq] at h
  obtain ⟨i, hi, _, hservable, -⟩ := h
  have hcode := find?_some hi
  rw [decide_eq_true_eq] at hcode
  refine ⟨(tables.scanStock i).version, (tables.scanStock i).lowerBound start,
    fun before' limit' ↦ ?_⟩
  simp only [EquityTables.chartBars, hi, Option.bind_eq_bind, Option.bind_some, hservable]
  refine congrArg some ?_
  rw [chartBarsSelect, take_take, Nat.min_eq_left (Nat.le_succ _), hcode, shareRows, newest,
    reverse_reverse, map_reverse, map_take, map_map]
  rfl

end Stored

section Figures

variable {K : Type*} [Field K] (sqrt : K → K)

attribute [local instance] atLeastTwo_two

def closeFigure (line : Overlay) (vals : List K) : Option K :=
  match line with
  | .sma20 => trailing 20 (mean 20) vals
  | .sma50 => trailing 50 (mean 50) vals
  | .bollingerUpper => trailing 20 (bandOf sqrt 20 2 (· + ·)) vals
  | .bollingerMid => trailing 20 (mean 20) vals
  | .bollingerLower => trailing 20 (bandOf sqrt 20 2 (· - ·)) vals
  | .ichimokuTenkan | .ichimokuKijun | .ichimokuSenkouA | .ichimokuSenkouB => none

def closes (l : List Session) : List K := (l.filter Session.kept).map (fun s ↦ (s.close : K))

def sessionEntry (l : List Session) (start : ℕ) (line : Overlay) (k : ℕ) : Option (Option K) :=
  (closeOverlays sqrt (l.map (fun s ↦ (s.close : K))) (l.map Session.kept) start line).bind
    (fun vals ↦ vals[k]?)

theorem closeOverlays_eq (vals : List K) (keep : List Bool) (start : ℕ) {line : Overlay}
    (hline : line.ranged = false) : closeOverlays sqrt vals keep start line =
      some (scatter (along (closeFigure sqrt line) (compress vals keep).1) (compress vals keep).2
        vals.length start) := by
  have hbands : bollinger sqrt (compress vals keep).1 20 2 = _ := bollinger_eq (by decide)
  cases line with
  | sma20 | sma50 =>
    simp only [closeOverlays]
    rw [sma_eq (by decide)]
    rfl
  | bollingerUpper | bollingerMid | bollingerLower =>
    simp only [closeOverlays, hbands]
    rfl
  | ichimokuTenkan | ichimokuKijun | ichimokuSenkouA | ichimokuSenkouB => cases hline

theorem sessionEntry_eq {l : List Session} {start k : ℕ} {s : Session}
    (hs : l[start + k]? = some s) {line : Overlay} (hline : line.ranged = false) :
    sessionEntry sqrt l start line k =
      some (if s.kept then closeFigure sqrt line (closes (l.take (start + k + 1))) else none) := by
  have hlt := (List.getElem?_eq_some_iff.mp hs).1
  rw [sessionEntry, closeOverlays_eq sqrt _ _ _ hline, Option.bind_some, scatter,
    getElem?_drop, getElem?_map, length_map, getElem?_range hlt,
    Option.map_some, lookup_compress hs]
  rfl

theorem closeFigure_append_iff {front vals : List K} :
    (∀ line : Overlay, line.ranged = false →
      closeFigure sqrt line vals = closeFigure sqrt line (front ++ vals)) ↔
      ∀ period ∈ [20, 50], period ≤ (front ++ vals).length → period ≤ vals.length := by
  constructor
  · intro h period hperiod
    rcases mem_cons.mp hperiod with rfl | hperiod
    · exact trailing_append_iff.mp (h .sma20 rfl).symm
    · rw [mem_singleton.mp hperiod]
      exact trailing_append_iff.mp (h .sma50 rfl).symm
  · intro h line hline
    have hshort := h 20 (by simp)
    have hlong := h 50 (by simp)
    cases line with
    | sma20 | bollingerUpper | bollingerMid | bollingerLower =>
      exact (trailing_append_iff.mpr hshort).symm
    | sma50 => exact (trailing_append_iff.mpr hlong).symm
    | ichimokuTenkan | ichimokuKijun | ichimokuSenkouA | ichimokuSenkouB => cases hline

end Figures

section Shown

variable {K : Type*} [Field K] (sqrt : K → K)

theorem buildIndexCandlePage_eq (series : ChartSeries) {win : CandleWindow}
    (hfrom : win.fromBound = none) (limit : ℕ) :
    let fetched := newest (limit + candleWarmupBuckets)
      (series.points.filter (fun p ↦ p.day < win.toBound))
    let start := fetched.length - limit
    (buildIndexCandlePage sqrt series win limit true).candles =
        (fetched.drop start).map indexCandle ∧
      (buildIndexCandlePage sqrt series win limit true).overlays =
        some (closeOverlays sqrt (fetched.map (fun p ↦ (p.value : K)))
          (fetched.map (fun p ↦ !p.unchanged)) start) := by
  have hwindow : (series.points.take (max 0
      (series.points.findIdx (fun p ↦ win.toBound ≤ p.day)))).drop 0 =
        series.points.filter (fun p ↦ p.day < win.toBound) := by
    rw [Nat.zero_max, drop_zero]
    exact series.ascending.take_findIdx win.toBound
  have hcut (n : ℕ) : n - limit - candleWarmupBuckets = n - (limit + candleWarmupBuckets) :=
    Nat.sub_sub _ _ _
  have hstart (l : List ChartPoint) : l.length - limit - (l.length - limit - candleWarmupBuckets) =
      (newest (limit + candleWarmupBuckets) l).length - limit := by
    rw [length_newest]
    omega
  dsimp only
  simp only [buildIndexCandlePage, hfrom, pageBounds, if_true, hwindow]
  rw [← hstart, newest_eq_drop, ← hcut]
  exact ⟨rfl, rfl⟩

variable [LinearOrder K] {now : ℤ} {q : CandleQuery}

theorem shown_index {series : ChartSeries} {page : TehranPage K}
    (hpage : tehranCandles sqrt (.index series) now q = some page) (hfrom : q.fromBound = none)
    (hover : q.overlays = true) {k : ℕ} {c : SeriesCandle} (hc : page.candles[k]? = some c) :
    let source := TehranSource.index series
    ∃ s, (newest q.limit (source.sessions.filter (fun s ↦ s.day < source.upper now q)))[k]? =
        some s ∧ c.openTime = s.day ∧ c.skipped = !s.kept ∧
      ∀ line : Overlay, line.ranged = false → page.overlays.entry line k =
        sessionEntry sqrt (source.fetched now q) ((source.fetched now q).length - q.limit) line k := by
  unfold tehranCandles at hpage
  split_ifs at hpage
  obtain rfl := Option.some.inj hpage
  have hwin : (snapCandleWindow q q.interval now).fromBound = none := by
    simp [snapCandleWindow, hfrom]
  rw [hover] at hc ⊢
  obtain ⟨hcandles, hoverlays⟩ := buildIndexCandlePage_eq sqrt series hwin q.limit
  set win := snapCandleWindow q q.interval now with hwindow
  set pts := series.points.filter (fun p ↦ p.day < win.toBound) with hpts
  have hsessions : (TehranSource.index series).sessions.filter
      (fun s ↦ s.day < (TehranSource.index series).upper now q) = pts.map ChartPoint.session := by
    simp only [TehranSource.sessions, TehranSource.upper, filter_map]
    rfl
  have hfetched : (TehranSource.index series).fetched now q =
      (newest (q.limit + candleWarmupBuckets) pts).map ChartPoint.session := by
    rw [TehranSource.fetched, hsessions, ← map_newest]
  rw [hcandles, getElem?_map] at hc
  obtain ⟨p, hp, rfl⟩ := Option.map_eq_some_iff.mp hc
  refine ⟨p.session, ?_, rfl, by simp [SeriesCandle.skipped, indexCandle, ChartPoint.session], ?_⟩
  · rw [hsessions, ← map_newest, getElem?_map, ← newest_newest (Nat.le_add_right q.limit
      candleWarmupBuckets) pts, newest_eq_drop q.limit, hp]
    rfl
  · intro line hline
    rw [hoverlays, hfetched, length_map, sessionEntry, map_map, map_map]
    rfl

theorem skipped_equityCandle (b : ChartBar) : (equityCandle b).skipped = !b.traded := by
  cases hb : b.traded <;> simp [SeriesCandle.skipped, equityCandle, hb]

theorem daySpan_dvd_bucketCeil {iv : CandleInterval} (h : iv ∈ candleIntervals)
    (hname : iv.name = tehranInterval) (t : ℤ) : daySpan ∣ iv.bucketCeil t := by
  have hday : ∀ iv ∈ candleIntervals, iv.name = tehranInterval →
      iv.weekly = false ∧ iv.seconds = 86400 := by decide
  obtain ⟨hweekly, hseconds⟩ := hday iv h hname
  have hceil : iv.grid.IsBoundary (iv.bucketCeil t) := iv.bucketCeil_eq t ▸ Grid.isBoundary_ceil t
  simpa [Grid.IsBoundary, CandleInterval.grid, hweekly, hseconds, daySpan] using hceil

theorem entry_equityOverlays (bars : List ChartBar) (start k : ℕ) {line : Overlay}
    (hline : line.ranged = false) :
    (equityOverlays sqrt bars start line).bind (fun vals ↦ vals[k]?) =
      sessionEntry sqrt (bars.map shareSession) start line k := by
  rw [sessionEntry, map_map, map_map]
  cases line with
  | sma20 | sma50 | bollingerUpper | bollingerMid | bollingerLower => rfl
  | ichimokuTenkan | ichimokuKijun | ichimokuSenkouA | ichimokuSenkouB => cases hline

theorem shown_share {tables : EquityTables} {insCode : String} {page : TehranPage K}
    (hpage : tehranCandles sqrt (.share tables insCode) now q = some page)
    (hfrom : q.fromBound = none) (hover : q.overlays = true) {k : ℕ} {c : SeriesCandle}
    (hc : page.candles[k]? = some c) :
    let source := TehranSource.share tables insCode
    ∃ s, (newest q.limit (source.sessions.filter (fun s ↦ s.day < source.upper now q)))[k]? =
        some s ∧ c.openTime = s.day ∧ c.skipped = !s.kept ∧
      ∀ line : Overlay, line.ranged = false → page.overlays.entry line k =
        sessionEntry sqrt (source.fetched now q) ((source.fetched now q).length - q.limit) line k := by
  unfold tehranCandles at hpage
  split_ifs at hpage with hname
  have hwin : (snapCandleWindow q q.interval now).fromBound.map (· / daySpan) = none := by
    simp [snapCandleWindow, hfrom]
  have hfetch : q.fetch = q.limit + candleWarmupBuckets := by simp [CandleQuery.fetch, hover]
  simp only [hwin] at hpage
  obtain ⟨items, hitems, rfl⟩ := Option.map_eq_some_iff.mp hpage
  set upper := q.interval.bucketCeil (snapCandleWindow q q.interval now).toBound with hupper
  obtain ⟨version, first, hrows⟩ := chartBars_eq hitems
  have hday (d : Date) : d < upper / daySpan ↔ d * daySpan < upper := by
    obtain ⟨m, hm⟩ := daySpan_dvd_bucketCeil q.listed (not_not.mp hname)
      (snapCandleWindow q q.interval now).toBound
    rw [hupper, hm, Int.mul_ediv_cancel_left _ (by decide), mul_comm daySpan]
    exact (Int.mul_lt_mul_right (by decide)).symm
  set rows := shareRows tables insCode version first none with hrowsdef
  have hsessions : (TehranSource.share tables insCode).sessions.filter
      (fun s ↦ s.day < (TehranSource.share tables insCode).upper now q) =
        (rows.filter (fun b ↦ b.day < upper / daySpan)).map shareSession := by
    simp only [TehranSource.sessions, TehranSource.upper, hrows, Option.getD_some]
    rw [newest_of_length_le (length_shareRows_le _ _ _), filter_map]
    refine congrArg _ (filter_congr (fun b _ ↦ ?_))
    exact decide_eq_decide.mpr (hday b.day).symm
  have hread : items = newest (q.limit + candleWarmupBuckets)
      (rows.filter (fun b ↦ b.day < upper / daySpan)) := by
    rw [hrows, Option.some.injEq] at hitems
    rw [← hitems, hfetch, shareRows_before]
  have hfetched : (TehranSource.share tables insCode).fetched now q = items.map shareSession := by
    rw [TehranSource.fetched, hsessions, ← map_newest, hread]
  simp only [buildEquityCandlePage, pageBounds, hover, if_true] at hc ⊢
  rw [getElem?_map] at hc
  obtain ⟨b, hb, rfl⟩ := Option.map_eq_some_iff.mp hc
  refine ⟨shareSession b, ?_, rfl, skipped_equityCandle b, fun line hline ↦ ?_⟩
  · rw [hsessions, ← map_newest, getElem?_map, ← newest_newest (Nat.le_add_right q.limit
      candleWarmupBuckets), ← hread, newest_eq_drop q.limit, hb]
    rfl
  · rw [hfetched, length_map, ← entry_equityOverlays sqrt _ _ _ hline]
    rfl

theorem shown_session {source : TehranSource} {page : TehranPage K}
    (hpage : tehranCandles sqrt source now q = some page) (hfrom : q.fromBound = none)
    (hover : q.overlays = true) {k : ℕ} {c : SeriesCandle} (hc : page.candles[k]? = some c) :
    ∃ s, (newest q.limit (source.sessions.filter (fun s ↦ s.day < source.upper now q)))[k]? =
        some s ∧ c.openTime = s.day ∧ c.skipped = !s.kept ∧
      ∀ line : Overlay, line.ranged = false → page.overlays.entry line k =
        sessionEntry sqrt (source.fetched now q) ((source.fetched now q).length - q.limit)
          line k := by
  cases source with
  | index series => exact shown_index sqrt hpage hfrom hover hc
  | share tables insCode => exact shown_share sqrt hpage hfrom hover hc

theorem sessions_ascending (source : TehranSource) : AscendingBy Session.day source.sessions := by
  cases source with
  | index series => exact pairwise_map.mpr series.ascending
  | share tables insCode =>
    rw [TehranSource.sessions]
    cases hbars : tables.chartBars insCode none none tables.bars.length with
    | none => exact List.Pairwise.nil
    | some items =>
      obtain ⟨version, first, hrows⟩ := chartBars_eq hbars
      rw [hrows, Option.some.injEq] at hbars
      rw [Option.getD_some, ← hbars, newest_of_length_le (length_shareRows_le _ _ _)]
      refine pairwise_map.mpr ((shareRows_ascending version first none).imp ?_)
      intro a b hab
      exact Int.mul_lt_mul_of_pos_right hab (by decide)

def historyFigure (source : TehranSource) (line : Overlay) (day : ℤ) : Option (Option K) :=
  let read := source.sessions.filter (fun s ↦ s.day ≤ day)
  sessionEntry sqrt read 0 line (read.length - 1)

def keptUpTo (l : List Session) (day : ℤ) : ℕ :=
  l.countP (fun s ↦ decide (s.day ≤ day) && s.kept)

def WarmFor (source : TehranSource) (now : ℤ) (q : CandleQuery) (day : ℤ) (period : ℕ) : Prop :=
  period ≤ keptUpTo source.sessions day → period ≤ keptUpTo (source.fetched now q) day

omit [LinearOrder K] in
theorem length_closes_filter (l : List Session) (day : ℤ) :
    (closes (l.filter (fun s ↦ s.day ≤ day)) : List K).length = keptUpTo l day := by
  rw [closes, length_map, filter_filter, ← countP_eq_length_filter, keptUpTo]
  exact countP_congr (fun s _ ↦ by simp [and_comm])

theorem page_entries_iff {source : TehranSource} {page : TehranPage K}
    (hpage : tehranCandles sqrt source now q = some page) (hfrom : q.fromBound = none)
    (hover : q.overlays = true) {k : ℕ} {c : SeriesCandle} (hc : page.candles[k]? = some c) :
    (∀ line : Overlay, line.ranged = false →
      page.overlays.entry line k = historyFigure sqrt source line c.openTime) ↔
      c.skipped = true ∨ ∀ period ∈ [20, 50], WarmFor source now q c.openTime period := by
  obtain ⟨s, hs, hopen, hskipped, hentry⟩ := shown_session sqrt hpage hfrom hover hc
  have hasc := sessions_ascending source
  obtain ⟨hat, front, hsplit, -⟩ := hasc.shown candleWarmupBuckets hs
  set fetched := source.fetched now q with hfetched
  set i := fetched.length - q.limit + k
  change fetched[i]? = some s at hat
  change source.sessions.filter (fun b ↦ b.day ≤ s.day) = front ++ fetched.take (i + 1) at hsplit
  have hi := (List.getElem?_eq_some_iff.mp hat).1
  have hread : fetched.filter (fun b ↦ b.day ≤ s.day) = fetched.take (i + 1) := by
    have hfasc : AscendingBy Session.day fetched :=
      (hasc.filter _).sublist (newest_suffix _ _).sublist
    exact hfasc.filter_upTo hat
  have hlen : (front ++ fetched.take (i + 1)).length = front.length + (i + 1) := by
    rw [length_append, length_take, Nat.min_eq_left hi]
  have hlast : (front ++ fetched.take (i + 1))[0 + ((front ++ fetched.take (i + 1)).length - 1)]? =
      some s := by
    rw [hlen, Nat.zero_add, ← Nat.add_assoc, Nat.add_sub_cancel,
      getElem?_append_right (Nat.le_add_right _ _), Nat.add_sub_cancel_left,
      getElem?_take_of_lt (Nat.lt_succ_self i), hat]
  have hhistory (line : Overlay) (hline : line.ranged = false) :
      historyFigure sqrt source line c.openTime =
        some (if s.kept then
          closeFigure sqrt line (closes front ++ closes (fetched.take (i + 1))) else none) := by
    rw [historyFigure, hopen]
    simp only [hsplit]
    rw [sessionEntry_eq sqrt hlast hline, take_of_length_le (by omega), closes,
      filter_append, map_append]
    rfl
  have hpage' (line : Overlay) (hline : line.ranged = false) : page.overlays.entry line k =
      some (if s.kept then closeFigure sqrt line (closes (fetched.take (i + 1))) else none) := by
    rw [hentry line hline, sessionEntry_eq sqrt hat hline]
  have hcounts (period : ℕ) : WarmFor source now q c.openTime period ↔
      (period ≤ (closes front ++ closes (fetched.take (i + 1)) : List K).length →
        period ≤ (closes (fetched.take (i + 1)) : List K).length) := by
    have hall : (closes front ++ closes (fetched.take (i + 1)) : List K).length =
        keptUpTo source.sessions s.day := by
      rw [← length_closes_filter (K := K), hsplit, closes, closes, closes, filter_append,
        map_append]
    rw [WarmFor, hopen, hall, ← hread, length_closes_filter]
  cases hkept : s.kept with
  | false =>
    refine iff_of_true (fun line hline ↦ ?_) (.inl (by rw [hskipped, hkept]; rfl))
    rw [hpage' line hline, hhistory line hline, hkept]
    rfl
  | true =>
    have hskip : c.skipped = false := by rw [hskipped, hkept]; rfl
    simp only [hskip, Bool.false_eq_true, false_or, hcounts]
    rw [← closeFigure_append_iff sqrt]
    refine forall₂_congr (fun line hline ↦ ?_)
    rw [hpage' line hline, hhistory line hline, hkept]
    simp

/-- Two pages that show a session draw the same lines at it, those of the whole stored
history, exactly where the session is skipped or both pages are warm enough. -/
theorem tehran_overlays_iff {source : TehranSource} {q' : CandleQuery} {page page' : TehranPage K}
    (hpage : tehranCandles sqrt source now q = some page)
    (hpage' : tehranCandles sqrt source now q' = some page')
    (hfrom : q.fromBound = none) (hfrom' : q'.fromBound = none)
    (hover : q.overlays = true) (hover' : q'.overlays = true) {k k' : ℕ} {c c' : SeriesCandle}
    (hc : page.candles[k]? = some c) (hc' : page'.candles[k']? = some c')
    (hsame : c'.openTime = c.openTime) :
    (∀ line : Overlay, line.ranged = false →
      page.overlays.entry line k = page'.overlays.entry line k' ∧
        page.overlays.entry line k = historyFigure sqrt source line c.openTime) ↔
      c.skipped = true ∨ ∀ period ∈ [20, 50],
        WarmFor source now q c.openTime period ∧ WarmFor source now q' c.openTime period := by
  have hone := page_entries_iff sqrt hpage hfrom hover hc
  have htwo := page_entries_iff sqrt hpage' hfrom' hover' hc'
  rw [hsame] at htwo
  have hskipped : c'.skipped = c.skipped := by
    obtain ⟨s, hs, hopen, hskip, -⟩ := shown_session sqrt hpage hfrom hover hc
    obtain ⟨s', hs', hopen', hskip', -⟩ := shown_session sqrt hpage' hfrom' hover' hc'
    have hmem {upper : ℤ} {limit j : ℕ} {r : Session}
        (hr : (newest limit (source.sessions.filter (fun s ↦ s.day < upper)))[j]? = some r) :
        r ∈ source.sessions :=
      mem_of_mem_filter ((newest_suffix _ _).subset (mem_of_getElem? hr))
    obtain rfl := (sessions_ascending source).eq_of_start (hmem hs) (hmem hs')
      (hopen.symm.trans (hsame.symm.trans hopen'))
    rw [hskip, hskip']
  rw [hskipped] at htwo
  have hsplit : (∀ line : Overlay, line.ranged = false →
      page.overlays.entry line k = page'.overlays.entry line k' ∧
        page.overlays.entry line k = historyFigure sqrt source line c.openTime) ↔
      (∀ line : Overlay, line.ranged = false →
        page.overlays.entry line k = historyFigure sqrt source line c.openTime) ∧
      ∀ line : Overlay, line.ranged = false →
        page'.overlays.entry line k' = historyFigure sqrt source line c.openTime := by
    constructor
    · exact fun h ↦ ⟨fun line hline ↦ (h line hline).2,
        fun line hline ↦ (h line hline).1.symm.trans (h line hline).2⟩
    · exact fun h line hline ↦ ⟨(h.1 line hline).trans (h.2 line hline).symm, h.1 line hline⟩
  rw [hsplit, hone, htwo, ← or_and_left]
  simp only [← forall_and]

end Shown

section Closure

def reopening : ChartPoint where
  day := 90 * daySpan
  value := 200
  unchanged := false
  rescaled := false

def closureSeries : ChartSeries where
  points := markUnchanged ((List.range 90).map (fun i ↦
    { day := i * daySpan, value := 100 + min i 19, unchanged := false, rescaled := false })) ++
      [reopening]
  ascending := by
    refine pairwise_append.mpr ⟨markUnchanged_ascending ?_, pairwise_singleton _ _, ?_⟩
    · rw [bind_pure_comp, map_eq_map, map_map]
      refine pairwise_map.mpr (pairwise_lt_range.imp fun {i j} hij ↦ ?_)
      exact Int.mul_lt_mul_of_pos_right (Int.ofNat_lt.mpr hij) (by decide)
    · intro p hp r hr
      obtain rfl := mem_singleton.mp hr
      have hday := mem_map_of_mem (f := fun p : ChartPoint ↦ p.day) hp
      rw [days_markUnchanged, bind_pure_comp, map_eq_map, map_map, map_map] at hday
      obtain ⟨i, hi, heq⟩ := mem_map.mp hday
      rw [mem_range] at hi
      refine heq.ge.trans_lt ?_
      exact Int.mul_lt_mul_of_pos_right (Int.ofNat_lt.mpr hi) (by decide)

def closurePoints : List ChartPoint :=
  (List.range 90).map (fun i : ℕ ↦
    { day := i * daySpan, value := 100 + (min i 19 : ℕ), unchanged := decide (20 ≤ i),
      rescaled := false }) ++ [reopening]

theorem closureSeries_points : closureSeries.points = closurePoints := by
  refine congrArg (· ++ [reopening]) (ext_getElem? fun i ↦ ?_)
  rw [markUnchanged, bind_pure_comp, map_eq_map, map_map, getElem?_mapIdx]
  simp only [getElem?_map]
  rcases Nat.lt_or_ge i 90 with hlt | hge
  · rw [getElem?_range hlt, getElem?_range (by omega)]
    simp only [Option.map_some, Function.comp_apply]
    congr 2
    · norm_cast
    · have hcast : ∀ j : ℕ, min (j : ℤ) 19 = ((min j 19 : ℕ) : ℤ) := fun j ↦ by norm_cast
      rw [Bool.eq_iff_iff, Bool.and_eq_true, decide_eq_true_eq, decide_eq_true_eq,
        decide_eq_true_eq, Option.some_inj, add_right_inj, hcast, hcast, Int.cast_inj, Nat.cast_inj]
      omega
  · have hnone : (List.range 90)[i]? = none := getElem?_eq_none (by simpa using hge)
    rw [hnone]
    rfl

theorem closureSeries_eq : closureSeries =
    ⟨closurePoints, closureSeries_points ▸ closureSeries.ascending⟩ :=
  ChartSeries.eq_of_points closureSeries_points

theorem dayInterval_listed : dayInterval ∈ candleIntervals := by simp [candleIntervals]

theorem unbounded : ∀ f ∈ (none : Option ℤ), ∀ t ∈ (none : Option ℤ), f < t := by simp

def pageOf (limit : ℕ) (h : 1 ≤ limit ∧ limit ≤ maxCandleLimit) : CandleQuery where
  symbol := "IDX:32097828799138957"
  interval := dayInterval
  limit := limit
  before := none
  fromBound := none
  toBound := none
  overlays := true
  listed := dayInterval_listed
  limit_pos := h.1
  limit_le := h.2
  bounds := unbounded

def newestSession : CandleQuery := pageOf 1 (by decide)
def wholeSeries : CandleQuery := pageOf 2000 (by decide)

def closurePage {K : Type*} [Field K] [LinearOrder K] (sqrt : K → K) (q : CandleQuery) :
    TehranPage K :=
  buildIndexCandlePage sqrt closureSeries (snapCandleWindow q q.interval (91 * daySpan)) q.limit
    q.overlays

theorem tehranCandles_closure {K : Type*} [Field K] [LinearOrder K] (sqrt : K → K)
    {q : CandleQuery} (h : q.interval = dayInterval) :
    tehranCandles sqrt (.index closureSeries) (91 * daySpan) q = some (closurePage sqrt q) := by
  simp [tehranCandles, closurePage, h, dayInterval, tehranInterval]

theorem newestSession_candle {K : Type*} [Field K] [LinearOrder K] (sqrt : K → K) :
    (closurePage sqrt newestSession).candles[0]? = some (indexCandle reopening) := by
  have hfirst : (closurePage (id : ℚ → ℚ) newestSession).candles[0]? =
      some (indexCandle reopening) := by
    rw [closurePage, closureSeries_eq]
    decide
  exact hfirst

theorem wholeSeries_candle {K : Type*} [Field K] [LinearOrder K] (sqrt : K → K) :
    (closurePage sqrt wholeSeries).candles[90]? = some (indexCandle reopening) := by
  have hlast : (closurePage (id : ℚ → ℚ) wholeSeries).candles[90]? =
      some (indexCandle reopening) := by
    rw [closurePage, closureSeries_eq]
    decide +kernel
  exact hlast

/-- A page of one session reads sixty closed days before it, and the average of the whole
history, which takes no square root, is blank on it. -/
theorem closure_blanks_average :
    (closurePage (id : ℚ → ℚ) newestSession).candles[0]? =
        (closurePage (id : ℚ → ℚ) wholeSeries).candles[90]? ∧
      (closurePage (id : ℚ → ℚ) newestSession).overlays.entry .sma20 0 = some none ∧
        (closurePage (id : ℚ → ℚ) wholeSeries).overlays.entry .sma20 90 = some (some (229 / 2)) ∧
          historyFigure (id : ℚ → ℚ) (.index closureSeries) .sma20 (90 * daySpan) =
            some (some (229 / 2)) := by
  refine ⟨(newestSession_candle id).trans (wholeSeries_candle id).symm, ?_⟩
  rw [closurePage, closurePage, closureSeries_eq]
  decide +kernel

theorem tehran_overlays_iff_closure :
    (∀ line : Overlay, line.ranged = false →
      (closurePage Real.sqrt newestSession).overlays.entry line 0 =
          (closurePage Real.sqrt wholeSeries).overlays.entry line 90 ∧
        (closurePage Real.sqrt newestSession).overlays.entry line 0 =
          historyFigure Real.sqrt (.index closureSeries) line (indexCandle reopening).openTime) ↔
      (indexCandle reopening).skipped = true ∨ ∀ period ∈ [20, 50],
        WarmFor (.index closureSeries) (91 * daySpan) newestSession
            (indexCandle reopening).openTime period ∧
          WarmFor (.index closureSeries) (91 * daySpan) wholeSeries
            (indexCandle reopening).openTime period := by
  have hnewest := tehranCandles_closure Real.sqrt (q := newestSession) rfl
  have hwhole := tehranCandles_closure Real.sqrt (q := wholeSeries) rfl
  exact tehran_overlays_iff Real.sqrt hnewest hwhole rfl rfl rfl rfl
    (newestSession_candle Real.sqrt) (wholeSeries_candle Real.sqrt) rfl

end Closure

end TalaPala.Prices
