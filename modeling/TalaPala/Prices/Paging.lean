import TalaPala.Prices.Candles

namespace TalaPala.Prices

open Library List

def known (table : Table) (symbol : String) (now : ℤ) : List Tick :=
  (table.okTicks symbol).filter (fun t ↦ t.observedAt < now)

def windowBars (table : Table) (now : ℤ) (q : CandleQuery) : List CandleBar :=
  (aggregate q.interval (known table q.symbol now)).filter (fun b ↦
    inWindow (snapCandleWindow q q.interval now).fromBound
      (snapCandleWindow q q.interval now).toBound b.date)

def Snapped (iv : CandleInterval) (now upper : ℤ) : Prop :=
  upper = now ∨ iv.grid.IsBoundary upper ∧ upper ≤ now

theorem inWindow_iff {lower : Option ℤ} {upper t : ℤ} :
    inWindow lower upper t = true ↔ t < upper ∧ ∀ l ∈ lower, l ≤ t := by
  cases lower <;> simp [inWindow]

theorem lt_snapped_iff (q : CandleQuery) (now t : ℤ) :
    t < (snapCandleWindow q q.interval now).toBound ↔
      t < now ∧ (∀ e ∈ q.toBound, t < q.interval.bucketCeil e) ∧
        ∀ b ∈ q.before, t < q.interval.bucketStart b := by
  have hmin (bound upper : ℤ) : t < (if bound < upper then bound else upper) ↔
      t < upper ∧ t < bound := by
    split <;> omega
  simp only [snapCandleWindow]
  cases q.toBound <;> cases q.before <;> simp [hmin, and_assoc]

theorem snapped (q : CandleQuery) (now : ℤ) :
    Snapped q.interval now (snapCandleWindow q q.interval now).toBound := by
  have hmin {bound upper : ℤ} (hb : q.interval.grid.IsBoundary bound)
      (hu : Snapped q.interval now upper) :
      Snapped q.interval now (if bound < upper then bound else upper) := by
    split
    · refine .inr ⟨hb, ?_⟩
      rcases hu with rfl | ⟨_, hle⟩ <;> omega
    · exact hu
  have hceil (e : ℤ) : q.interval.grid.IsBoundary (q.interval.bucketCeil e) :=
    q.interval.bucketCeil_eq e ▸ Grid.isBoundary_ceil e
  simp only [snapCandleWindow]
  cases q.toBound with
  | none =>
    cases q.before with
    | none => exact .inl rfl
    | some b => exact hmin (q.interval.isBoundary_bucketStart b) (.inl rfl)
  | some e =>
    cases q.before with
    | none => exact hmin (hceil e) (.inl rfl)
    | some b => exact hmin (q.interval.isBoundary_bucketStart b) (hmin (hceil e) (.inl rfl))

theorem snapped_from (q : CandleQuery) (now : ℤ) :
    ∀ l ∈ (snapCandleWindow q q.interval now).fromBound, q.interval.grid.IsBoundary l := by
  intro l hl
  obtain ⟨f, _, rfl⟩ := Option.map_eq_some_iff.mp hl
  exact q.interval.isBoundary_bucketStart f

theorem candleBuckets_eq (table : Table) (symbol : String) {iv : CandleInterval} (now : ℤ)
    {lower : Option ℤ} {upper : ℤ} (hlower : ∀ l ∈ lower, iv.grid.IsBoundary l)
    (hupper : Snapped iv now upper) (limit : ℕ) :
    candleBuckets table symbol iv lower upper limit = newest limit
      ((aggregate iv (known table symbol now)).filter (fun b ↦ inWindow lower upper b.date)) := by
  have hticks : (table.okTicks symbol).filter (fun t ↦ inWindow lower upper t.observedAt) =
      (known table symbol now).filter
        (fun t ↦ inWindow lower upper (iv.bucketExpr t.observedAt)) := by
    rw [known, filter_filter]
    apply filter_congr
    intro t _
    rw [Bool.eq_iff_iff, Bool.and_eq_true, inWindow_iff, inWindow_iff, decide_eq_true_eq,
      iv.bucketExpr_eq]
    have hlow : (∀ l ∈ lower, l ≤ iv.grid.floor t.observedAt) ↔ ∀ l ∈ lower, l ≤ t.observedAt :=
      forall₂_congr (fun l hl ↦ (hlower l hl).le_floor_iff)
    have hup : t.observedAt < upper ↔ iv.grid.floor t.observedAt < upper ∧ t.observedAt < now := by
      have := Grid.floor_le (g := iv.grid) t.observedAt
      rcases hupper with rfl | ⟨hb, hle⟩
      · omega
      · rw [hb.floor_lt_iff]
        omega
    rw [hlow, hup]
    tauto
  rw [candleBuckets, hticks]
  exact congrArg (newest limit)
    (summarise_filter candleBar_date (fun d ↦ inWindow lower upper d) (known table symbol now))

theorem windowBars_ascending (table : Table) (now : ℤ) (q : CandleQuery) :
    AscendingBy CandleBar.date (windowBars table now q) :=
  (aggregate_ascending _ _).filter _

theorem ticksExistBefore_iff {table : Table} {symbol : String} {lower : Option ℤ} {cutoff : ℤ} :
    ticksExistBefore table symbol lower cutoff = true ↔
      ∃ t ∈ table.okTicks symbol, t.observedAt < cutoff ∧ ∀ l ∈ lower, l ≤ t.observedAt := by
  simp only [ticksExistBefore, any_eq_true, inWindow_iff]

theorem scanned_suffix {bars : List CandleBar} (h : AscendingBy CandleBar.date bars)
    (lower upper : ℤ) : bars.filter (fun b ↦ inWindow (some lower) upper b.date) <:+
      bars.filter (fun b ↦ inWindow none upper b.date) := by
  refine AscendingBy.suffix (h.filter _) (h.filter _) ?_ ?_
  · intro b hb
    rw [mem_filter, inWindow_iff] at hb ⊢
    exact ⟨hb.1, hb.2.1, by simp⟩
  · intro a ha b hb hab
    rw [mem_filter, inWindow_iff] at ha hb ⊢
    exact ⟨hb.1, hb.2.1, fun l hl ↦ (ha.2.2 l hl).trans hab.le⟩

theorem scanned_all {table : Table} {symbol : String} {now lower : ℤ} {iv : CandleInterval}
    (hlower : iv.grid.IsBoundary lower) (hnone : ¬ ticksExistBefore table symbol none lower = true)
    (upper : ℤ) :
    (aggregate iv (known table symbol now)).filter (fun b ↦ inWindow (some lower) upper b.date) =
      (aggregate iv (known table symbol now)).filter (fun b ↦ inWindow none upper b.date) := by
  rw [ticksExistBefore_iff] at hnone
  apply filter_congr
  intro b hb
  obtain ⟨t, ht, hdate⟩ := (mem_aggregate.mp hb).1
  have htick : lower ≤ t.observedAt := by
    by_contra hlt
    exact hnone ⟨t, mem_of_mem_filter ht, not_le.mp hlt, by simp⟩
  have hle : lower ≤ b.date := by
    rw [← hdate, iv.bucketExpr_eq]
    exact hlower.le_floor_iff.mpr htick
  simp [inWindow, hle]

theorem fetchedBars_eq (table : Table) (now : ℤ) (q : CandleQuery) :
    fetchedBars table q (snapCandleWindow q q.interval now) =
      newest q.fetch (windowBars table now q) := by
  have hfrom := snapped_from q now
  have hupper := snapped q now
  rw [fetchedBars, windowBars]
  cases hw : (snapCandleWindow q q.interval now).fromBound with
  | some l =>
    rw [hw] at hfrom
    simp only [Option.getD_some, reduceCtorEq, false_and, and_false, if_false]
    exact candleBuckets_eq table q.symbol now hfrom hupper q.fetch
  | none =>
    rw [hw] at hfrom
    simp only [Option.getD_none, true_and]
    have hfloor : q.interval.grid.IsBoundary
        (scanFloor q (snapCandleWindow q q.interval now)) := q.interval.isBoundary_bucketStart _
    have hlow : ∀ l ∈ some (scanFloor q (snapCandleWindow q q.interval now)),
        q.interval.grid.IsBoundary l := by simpa using hfloor
    have hbounded := candleBuckets_eq table q.symbol now hlow hupper q.fetch
    split
    · exact candleBuckets_eq table q.symbol now hfrom hupper q.fetch
    · rename_i hdone
      rw [hbounded] at hdone ⊢
      rw [length_newest] at hdone
      rcases le_or_gt q.fetch _ with hlen | hshort
      · exact newest_of_suffix (scanned_suffix (aggregate_ascending _ _) _ _) hlen
      · -- a short bounded scan with nothing older before its floor has missed nothing
        have hnone : ¬ ticksExistBefore table q.symbol none
            (scanFloor q (snapCandleWindow q q.interval now)) = true :=
          fun holder ↦ hdone ⟨by omega, holder⟩
        rw [scanned_all hfloor hnone]

theorem older_iff {table : Table} {now : ℤ} {q : CandleQuery} {b : CandleBar}
    (hb : b ∈ windowBars table now q) :
    ticksExistBefore table q.symbol (snapCandleWindow q q.interval now).fromBound b.date = true ↔
      ∃ a ∈ windowBars table now q, a.date < b.date := by
  obtain ⟨hagg, hwin⟩ := mem_filter.mp hb
  obtain ⟨hdate, hlow⟩ := inWindow_iff.mp hwin
  have hboundary := isBoundary_of_mem_aggregate hagg
  rw [ticksExistBefore_iff]
  constructor
  · rintro ⟨t, ht, hlt, hle⟩
    have hnow := ((lt_snapped_iff q now _).mp hdate).1
    have hknown : t ∈ known table q.symbol now :=
      mem_filter.mpr ⟨ht, decide_eq_true (by omega)⟩
    obtain ⟨a, ha, hadate⟩ := exists_mem_aggregate q.interval hknown
    rw [q.interval.bucketExpr_eq] at hadate
    have hab : a.date < b.date := by
      rw [hadate]
      exact hboundary.floor_lt_iff.mpr hlt
    refine ⟨a, mem_filter.mpr ⟨ha, inWindow_iff.mpr ⟨hab.trans hdate, fun l hl ↦ ?_⟩⟩, hab⟩
    rw [hadate]
    exact (snapped_from q now l hl).le_floor_iff.mpr (hle l hl)
  · rintro ⟨a, ha, hab⟩
    obtain ⟨ha, hawin⟩ := mem_filter.mp ha
    obtain ⟨t, ht, hadate⟩ := (mem_aggregate.mp ha).1
    rw [q.interval.bucketExpr_eq] at hadate
    refine ⟨t, mem_of_mem_filter ht, hboundary.floor_lt_iff.mp (hadate ▸ hab), ?_⟩
    intro l hl
    have hle := (inWindow_iff.mp hawin).2 l hl
    have := Grid.floor_le (g := q.interval.grid) t.observedAt
    omega

theorem candles_eq (table : Table) (now : ℤ) (q : CandleQuery) :
    (candles table now q).1 =
      buildCandles (newest q.limit (windowBars table now q)) q.interval now ∧
    (candles table now q).2.nextBefore =
      (newest q.limit (windowBars table now q)).head?.map CandleBar.date ∧
    ((candles table now q).2.hasMore = true ↔ q.limit < (windowBars table now q).length) := by
  set W := windowBars table now q with hW
  have hfetched := fetchedBars_eq table now q
  rw [← hW] at hfetched
  have hlimit := le_fetch q
  have hpos := q.limit_pos
  have hlen : (newest q.fetch W).length = min q.fetch W.length := length_newest _ _
  have hshown : (newest q.fetch W).drop ((newest q.fetch W).length - q.limit) =
      newest q.limit W := by rw [← newest_eq_drop, newest_newest hlimit]
  have hhead : (newest q.fetch W)[(newest q.fetch W).length - q.limit]? =
      (newest q.limit W).head? := by rw [← hshown, head?_drop]
  simp only [candles, hfetched, paginateCandles, hhead]
  cases hfirst : (newest q.limit W).head? with
  | none =>
    have hempty : W.length = 0 := by
      have := length_eq_zero_iff.mpr (head?_eq_none_iff.mp hfirst)
      rw [length_newest] at this
      omega
    refine ⟨?_, rfl, ?_⟩
    · simp only [buildCandles, ← map_drop, hshown]
    · simp only [Bool.false_eq_true, false_iff, hempty]
      omega
  | some first =>
    have hmem : first ∈ W :=
      (newest_suffix q.limit W).subset (mem_of_head? hfirst)
    obtain ⟨rest, hcons⟩ := head?_eq_some_iff.mp hfirst
    have holder : ticksExistBefore table q.symbol (snapCandleWindow q q.interval now).fromBound
        first.date = true ↔ q.limit < W.length := by
      rw [older_iff hmem, ← hW]
      have hfront := (windowBars_ascending table now q).filter_before_newest hcons
      rw [← hW] at hfront
      constructor
      · rintro ⟨a, ha, hlt⟩
        have hin : a ∈ W.filter (fun b ↦ b.date < first.date) :=
          mem_filter.mpr ⟨ha, decide_eq_true hlt⟩
        rw [hfront] at hin
        have := length_pos_of_mem hin
        rw [length_take] at this
        omega
      · intro hlt
        obtain ⟨a, ha⟩ := exists_mem_of_length_pos (l := W.take (W.length - q.limit))
          (by rw [length_take]; omega)
        rw [← hfront, mem_filter, decide_eq_true_eq] at ha
        exact ⟨a, ha⟩
    simp only [Bool.or_false, decide_eq_true_eq]
    split
    · rename_i hstart
      refine ⟨?_, rfl, ?_⟩
      · simp only [buildCandles, ← map_drop, hshown]
      · simp only [decide_eq_true_eq]
        omega
    · refine ⟨?_, rfl, holder⟩
      simp only [buildCandles, ← map_drop, hshown]

theorem windowBars_before (table : Table) (now : ℤ) (q : CandleQuery) {first : CandleBar}
    {rest : List CandleBar} (h : newest q.limit (windowBars table now q) = first :: rest) :
    windowBars table now { q with before := some first.date } =
      (windowBars table now q).take ((windowBars table now q).length - q.limit) := by
  have hmem : first ∈ windowBars table now q :=
    (newest_suffix q.limit _).subset (h ▸ mem_cons_self)
  rw [← (windowBars_ascending table now q).filter_before_newest h]
  obtain ⟨hagg, hwin⟩ := mem_filter.mp hmem
  have hstart : q.interval.bucketStart first.date = first.date := by
    rw [q.interval.bucketStart_eq, (isBoundary_of_mem_aggregate hagg).floor_eq]
  have hup := (lt_snapped_iff q now _).mp (inWindow_iff.mp hwin).1
  rw [windowBars, windowBars, filter_filter]
  apply filter_congr
  intro b _
  rw [Bool.eq_iff_iff, Bool.and_eq_true, inWindow_iff, inWindow_iff, decide_eq_true_eq,
    lt_snapped_iff, lt_snapped_iff]
  simp only [Option.mem_def, Option.some.injEq, forall_eq', hstart]
  constructor
  · rintro ⟨⟨hnow, hto, hlt⟩, hlow⟩
    exact ⟨hlt, ⟨hnow, hto, fun c hc ↦ hlt.trans (hup.2.2 c hc)⟩, hlow⟩
  · rintro ⟨hlt, ⟨hnow, hto, _⟩, hlow⟩
    exact ⟨⟨hnow, hto, hlt⟩, hlow⟩

theorem Follows.flatten {table : Table} {now : ℤ} {q : CandleQuery}
    {pages : List (List ServedCandle)} (h : Follows table now q pages) :
    pages.flatten = buildCandles (windowBars table now q) q.interval now := by
  induction h with
  | @last q hlast =>
    obtain ⟨hpage, _, hmore⟩ := candles_eq table now q
    have hlen : (windowBars table now q).length ≤ q.limit := by
      rw [← not_lt, ← hmore, hlast]
      exact Bool.false_ne_true
    rw [flatten_singleton, hpage, newest_of_length_le hlen]
  | @more q b pages hmore hb _ ih =>
    obtain ⟨hpage, hnext, _⟩ := candles_eq table now q
    rw [hb] at hnext
    obtain ⟨first, hfirst, rfl⟩ := Option.map_eq_some_iff.mp hnext.symm
    obtain ⟨rest, hcons⟩ := head?_eq_some_iff.mp hfirst
    rw [flatten_append, flatten_singleton, ih, hpage, windowBars_before table now q hcons]
    simp only [buildCandles]
    rw [← map_append, take_append_newest]

theorem exists_follows (table : Table) (now : ℤ) (q : CandleQuery) :
    ∃ pages, Follows table now q pages := by
  induction hn : (windowBars table now q).length using Nat.strong_induction_on generalizing q with
  | _ n ih =>
    obtain ⟨_, hnext, hmore⟩ := candles_eq table now q
    cases hm : (candles table now q).2.hasMore with
    | false => exact ⟨_, .last hm⟩
    | true =>
      have hlt := hmore.mp hm
      have hpos := q.limit_pos
      obtain ⟨first, rest, hcons⟩ : ∃ first rest,
          newest q.limit (windowBars table now q) = first :: rest := by
        apply exists_cons_of_length_pos
        rw [length_newest]
        omega
      rw [hcons] at hnext
      have hshorter := windowBars_before table now q hcons
      obtain ⟨pages, hpages⟩ := ih _ (by rw [hshorter, length_take]; omega)
        { q with before := some first.date } rfl
      exact ⟨_, .more hm hnext hpages⟩

def ServedCandle.candle (c : ServedCandle) : Candle where
  start := c.openTime
  opening := c.opening
  high := c.high
  low := c.low
  close := c.close

theorem inWindow_floor_iff (q : CandleQuery) {now t : ℤ} (hnow : t < now) :
    inWindow (snapCandleWindow q q.interval now).fromBound
        (snapCandleWindow q q.interval now).toBound (q.interval.bucketStart t) = true ↔
      (∀ f ∈ q.fromBound, q.interval.bucketStart f ≤ t) ∧
        (∀ e ∈ q.toBound, t < q.interval.bucketCeil e) ∧
        ∀ b ∈ q.before, t < q.interval.bucketStart b := by
  rw [inWindow_iff, lt_snapped_iff]
  simp only [snapCandleWindow, Option.mem_map, forall_exists_index, and_imp,
    forall_apply_eq_imp_iff₂, q.interval.bucketStart_eq, q.interval.bucketCeil_eq,
    (Grid.isBoundary_floor _).le_floor_iff, (Grid.isBoundary_floor _).floor_lt_iff,
    (Grid.isBoundary_ceil _).floor_lt_iff]
  have := Grid.floor_le (g := q.interval.grid) t
  constructor
  · rintro ⟨⟨_, hto, hbefore⟩, hfrom⟩
    exact ⟨hfrom, hto, hbefore⟩
  · rintro ⟨hfrom, hto, hbefore⟩
    exact ⟨⟨by omega, hto, hbefore⟩, hfrom⟩

theorem windowBars_starts (table : Table) (now : ℤ) (q : CandleQuery) (start : ℤ) :
    (∃ b ∈ windowBars table now q, b.date = start) ↔
      ∃ t ∈ table.okTicks q.symbol, q.interval.bucketStart t.observedAt = start ∧
        (∀ f ∈ q.fromBound, q.interval.bucketStart f ≤ t.observedAt) ∧ t.observedAt < now ∧
        (∀ e ∈ q.toBound, t.observedAt < q.interval.bucketCeil e) ∧
        ∀ b ∈ q.before, t.observedAt < q.interval.bucketStart b := by
  constructor
  · rintro ⟨b, hb, rfl⟩
    obtain ⟨hagg, hwin⟩ := mem_filter.mp hb
    obtain ⟨t, ht, hdate⟩ := (mem_aggregate.mp hagg).1
    obtain ⟨hok, hnow⟩ := mem_filter.mp ht
    rw [decide_eq_true_eq] at hnow
    rw [← hdate, q.interval.bucketExpr_eq_bucketStart, inWindow_floor_iff q hnow] at hwin
    exact ⟨t, hok, (q.interval.bucketExpr_eq_bucketStart _).symm.trans hdate, hwin.1, hnow, hwin.2⟩
  · rintro ⟨t, hok, rfl, hfrom, hnow, hrest⟩
    have hknown : t ∈ known table q.symbol now :=
      mem_filter.mpr ⟨hok, decide_eq_true hnow⟩
    obtain ⟨b, hb, hdate⟩ := exists_mem_aggregate q.interval hknown
    rw [q.interval.bucketExpr_eq_bucketStart] at hdate
    refine ⟨b, mem_filter.mpr ⟨hb, ?_⟩, hdate⟩
    rw [hdate]
    exact (inWindow_floor_iff q hnow).mpr ⟨hfrom, hrest⟩

theorem windowBars_whole {table : Table} {now : ℤ} {q : CandleQuery} {b : CandleBar}
    (hb : b ∈ windowBars table now q) :
    b.candle.Draws {t | t ∈ table.okTicks q.symbol ∧ t.observedAt < now ∧
      q.interval.bucketStart t.observedAt = b.date} ∧
    b.ticks = ((table.okTicks q.symbol).filter (fun t ↦ decide (t.observedAt < now) &&
      decide (q.interval.bucketStart t.observedAt = b.date))).length := by
  obtain ⟨_, hdraws, hcount⟩ := candleBar_spec (mem_aggregate.mp (mem_of_mem_filter hb)).2
  have hticks : (known table q.symbol now).filter
        (fun t ↦ q.interval.bucketExpr t.observedAt = b.date) =
      (table.okTicks q.symbol).filter (fun t ↦ decide (t.observedAt < now) &&
        decide (q.interval.bucketStart t.observedAt = b.date)) := by
    rw [known, filter_filter]
    apply filter_congr
    intro t _
    rw [q.interval.bucketExpr_eq_bucketStart, Bool.and_comm]
  rw [hticks] at hdraws hcount
  refine ⟨?_, hcount⟩
  simpa only [mem_filter, Bool.and_eq_true, decide_eq_true_eq] using hdraws

/-- Paging ends with the window's chart: ascending, one candle for each bucket that holds
a tick of the snapped window, drawn from all known ticks of its bucket. -/
theorem paging_serves_window (table : Table) (now : ℤ) (q : CandleQuery) :
    (∃ pages, Follows table now q pages) ∧
    ∀ pages, Follows table now q pages →
      AscendingBy ServedCandle.openTime pages.flatten ∧
      (∀ start, (∃ c ∈ pages.flatten, c.openTime = start) ↔
        ∃ t ∈ table.okTicks q.symbol, q.interval.bucketStart t.observedAt = start ∧
          (∀ f ∈ q.fromBound, q.interval.bucketStart f ≤ t.observedAt) ∧ t.observedAt < now ∧
          (∀ e ∈ q.toBound, t.observedAt < q.interval.bucketCeil e) ∧
          ∀ b ∈ q.before, t.observedAt < q.interval.bucketStart b) ∧
      ∀ c ∈ pages.flatten,
        c.candle.Draws {t | t ∈ table.okTicks q.symbol ∧ t.observedAt < now ∧
          q.interval.bucketStart t.observedAt = c.openTime} ∧
        c.ticks = ((table.okTicks q.symbol).filter (fun t ↦ decide (t.observedAt < now) &&
          decide (q.interval.bucketStart t.observedAt = c.openTime))).length := by
  refine ⟨exists_follows table now q, fun pages hpages ↦ ?_⟩
  rw [hpages.flatten, buildCandles]
  refine ⟨pairwise_map.mpr (windowBars_ascending table now q), fun start ↦ ?_, fun c hc ↦ ?_⟩
  · rw [← windowBars_starts]
    simp only [mem_map, exists_exists_and_eq_and]
  · obtain ⟨b, hb, rfl⟩ := mem_map.mp hc
    exact windowBars_whole hb

end TalaPala.Prices
