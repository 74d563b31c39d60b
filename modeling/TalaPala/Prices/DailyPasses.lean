import TalaPala.Prices.DailyCloses

namespace TalaPala.Prices

open Library List

section Bars

variable {bars : List HistoryRow} {judged : Judged} {series : DailySeries} {now : Instant}
  {prices : List PriceRow} {row : PriceRow} {day : Date}

theorem bar_judgeBar (closes : List ℚ) (i : ℕ) (bar : HistoryRow) :
    (judgeBar closes i bar).bar = bar := by
  rw [judgeBar]
  split_ifs <;> rfl

theorem bars_judgeBars : (judgeBars bars).map Judged.bar =
    bars.insertionSort (fun a b ↦ a.day ≤ b.day) := by
  refine ext_getElem? fun i ↦ ?_
  rw [judgeBars, getElem?_map, getElem?_mapIdx, Option.map_map]
  simp [Function.comp_def, bar_judgeBar]

theorem mem_of_judged (h : judged ∈ judgeBars bars) : judged.bar ∈ bars := by
  have hmem := mem_map_of_mem (f := Judged.bar) h
  rw [bars_judgeBars] at hmem
  exact (mem_insertionSort _).mp hmem

theorem judgeBars_ascending (hdistinct : (bars.map HistoryRow.day).Nodup) :
    (judgeBars bars).Pairwise (fun a b ↦ a.bar.day < b.bar.day) := by
  have hsorted : (bars.insertionSort (fun a b ↦ a.day ≤ b.day)).Pairwise
      (fun a b ↦ a.day ≤ b.day) := pairwise_insertionSort _ bars
  have hnodup : ((bars.insertionSort (fun a b ↦ a.day ≤ b.day)).map HistoryRow.day).Nodup :=
    ((perm_insertionSort _ bars).map _).nodup_iff.mpr hdistinct
  rw [← bars_judgeBars] at hsorted hnodup
  rw [map_map] at hnodup
  have hle := pairwise_map.mp hsorted
  have hne := pairwise_map.mp hnodup
  exact hle.imp₂ (fun _ _ hle hne ↦ lt_of_le_of_ne hle hne) hne

theorem price_barOutcome (h : (barOutcome series now prices judged).price = some row) :
    row = series.priceRow judged.bar ∧ series.settled now judged.bar.day = true ∧
      judged.verdict = .ok ∧ rowsOnDay prices series.symbol judged.bar.day = [] ∧
      ∀ first, series.gapFillFrom = some first → first ≤ judged.bar.day := by
  simp only [barOutcome] at h
  split_ifs at h with hunsettled hsame hwindow hsuspect hunjudged hempty
  all_goals try cases h
  · split at h
    next => cases h
    next =>
      cases h
      refine ⟨rfl, by simpa using hunsettled, ?_, List.isEmpty_iff.mp hempty, ?_⟩
      · cases hverdict : judged.verdict with
        | ok => rfl
        | suspect => exact absurd hverdict hsuspect
        | unjudged => exact absurd hverdict hunjudged
      · intro first hfirst
        rw [hempty, hfirst] at hwindow
        simpa using hwindow
  · split at h <;> cases h

end Bars

section Passes

variable {iso : Isoformat} {db : DailyData} {symbol : String} {page : TgjuPage}
  {series : DailySeries} {now : Instant} {prices : List PriceRow} {row : PriceRow}

def passOver (page : TgjuPage) (now : Instant) : DailyRun := ⟨fun _ ↦ some page, now, false⟩

def dailyOutcomes (series : DailySeries) (page : TgjuPage) (now : Instant)
    (prices : List PriceRow) : List BarOutcome :=
  (judgeBars page.bars).map (barOutcome series now prices)

def writtenRows (series : DailySeries) (page : TgjuPage) (now : Instant)
    (prices : List PriceRow) : List PriceRow :=
  (dailyOutcomes series page now prices).filterMap BarOutcome.price

def auditRows (series : DailySeries) (page : TgjuPage) (now : Instant)
    (prices : List PriceRow) : List AuditRow :=
  (dailyOutcomes series page now prices).filterMap BarOutcome.audit

theorem fetchTable_passOver {entry : Option RegisterEntry} {hasRows : Bool}
    {fetched : TgjuPage × Option FullReason}
    (h : fetchTable (passOver page now) entry hasRows = some fetched) : fetched.1 = page := by
  unfold fetchTable at h
  split at h
  · cases h
    rfl
  · split at h
    · simp only [passOver, Option.bind_some] at h
      split at h
      · split at h <;> cases h <;> rfl
      · cases h
        rfl
    · cases h
      rfl

theorem symbol_of_dailySeries (h : dailySeries symbol = some series) :
    series.symbol = symbol ∧ series.gapFillFrom = gapFillFrom.lookup symbol := by
  simp only [dailySeries, Option.bind_eq_bind, Option.bind_eq_some_iff] at h
  obtain ⟨_, _, _, _, _, _, heq⟩ := h
  cases heq
  exact ⟨rfl, rfl⟩

theorem ingestSymbol_cases (iso : Isoformat) (db : DailyData) (symbol : String)
    (page : TgjuPage) (now : Instant) :
    ((ingestSymbol iso db symbol (passOver page now)).1 = db ∧
      ∀ report, (ingestSymbol iso db symbol (passOver page now)).2 ≠ .ok report) ∨
    ∃ series, dailySeries symbol = some series ∧
      (ingestSymbol iso db symbol (passOver page now)).1.prices =
        (writtenRows series page now db.prices).foldl insertIgnore db.prices ∧
      (ingestSymbol iso db symbol (passOver page now)).1.audits =
        (auditRows series page now db.prices).foldl insertAudit db.audits := by
  rw [ingestSymbol]
  split
  next => exact .inl ⟨rfl, by simp⟩
  next series hseries =>
    dsimp only
    split
    next => exact .inl ⟨rfl, by simp⟩
    next =>
      split
      next => exact .inl ⟨rfl, by simp⟩
      next fetched fullReason hfetched =>
        have hpage : fetched = page := fetchTable_passOver hfetched
        subst hpage
        split
        next => exact .inl ⟨rfl, by simp⟩
        next => exact .inr ⟨series, hseries, rfl, rfl⟩

theorem mem_writtenRows (h : row ∈ writtenRows series page now prices) :
    ∃ judged ∈ judgeBars page.bars, (barOutcome series now prices judged).price = some row := by
  obtain ⟨_, hmem, hprice⟩ := mem_filterMap.mp h
  obtain ⟨judged, hjudged, rfl⟩ := mem_map.mp hmem
  exact ⟨judged, hjudged, hprice⟩

theorem writtenRows_ascending :
    (writtenRows series page now prices).Pairwise (fun a b ↦ a.observedAt < b.observedAt) := by
  refine pairwise_filterMap.mpr (pairwise_map.mpr ?_)
  refine (judgeBars_ascending page.distinct).imp fun {judged later} hbefore row hrow row' hrow' ↦ ?_
  rw [(price_barOutcome hrow).1, (price_barOutcome hrow').1]
  exact Int.add_lt_add_right (Int.mul_lt_mul_of_pos_right hbefore (by decide)) _

theorem foldl_writtenRows : (writtenRows series page now prices).foldl insertIgnore prices =
    prices ++ writtenRows series page now prices := by
  refine foldl_insertIgnore series.symbol writtenRows_ascending ?_ ?_
  · intro row hrow
    obtain ⟨judged, -, hprice⟩ := mem_writtenRows hrow
    rw [(price_barOutcome hprice).1]
    rfl
  · intro row hrow p hp hsymbol heq
    obtain ⟨judged, -, hprice⟩ := mem_writtenRows hrow
    obtain ⟨hbar, -, -, hempty, -⟩ := price_barOutcome hprice
    have hday : utcDate p.observedAt = judged.bar.day := by
      rw [heq, hbar]
      exact utcDate_closeStamp _
    have hmem : p ∈ rowsOnDay prices series.symbol judged.bar.day :=
      mem_filter.mpr ⟨hp, by simp [hsymbol, hday]⟩
    rw [hempty] at hmem
    exact not_mem_nil hmem

theorem settled_iff {day : Date} : series.settled now day = true ↔
    day < tehranToday now ∧ closeStamp day ≤ now ∧
      ∀ first, series.gapFillFrom = some first → utcDayEnd day ≤ now := by
  rw [DailySeries.settled]
  cases series.gapFillFrom <;> simp [and_assoc]

theorem settled_mono {now' : Instant} {day : Date} (hle : now ≤ now')
    (h : series.settled now day = true) : series.settled now' day = true := by
  rw [settled_iff] at h ⊢
  obtain ⟨htehran, hstamp, hended⟩ := h
  refine ⟨htehran.trans_le ?_, hstamp.trans hle, fun first hfirst ↦ (hended first hfirst).trans hle⟩
  exact Int.ediv_le_ediv (by decide) (Int.add_le_add_right hle _)

theorem onDay_of_price {judged : Judged} (symbol : String) (day : Date)
    (hsymbol : series.symbol = symbol)
    (h : (barOutcome series now prices judged).price = some row) :
    (decide (row.symbol = symbol) && decide (utcDate row.observedAt = day)) =
      decide (judged.bar.day = day) := by
  rw [(price_barOutcome h).1, ← hsymbol]
  simp [DailySeries.priceRow, utcDate_closeStamp]

theorem rowsOnDay_written {judged : Judged} (hjudged : judged ∈ judgeBars page.bars) :
    rowsOnDay (writtenRows series page now prices) series.symbol judged.bar.day =
      (barOutcome series now prices judged).price.toList := by
  rw [writtenRows, dailyOutcomes]
  have hascending := judgeBars_ascending page.distinct
  generalize judgeBars page.bars = table at hjudged hascending ⊢
  induction table with
  | nil => cases hjudged
  | cons first rest ih =>
    obtain ⟨hfirst, hrest⟩ := pairwise_cons.mp hascending
    rw [map_cons, rowsOnDay]
    rcases mem_cons.mp hjudged with rfl | hmem
    · have hlater : rowsOnDay ((rest.map (barOutcome series now prices)).filterMap
          BarOutcome.price) series.symbol judged.bar.day = [] := by
        refine filter_eq_nil_iff.mpr fun row hrow ↦ ?_
        obtain ⟨_, hout, hprice⟩ := mem_filterMap.mp hrow
        obtain ⟨later, hmem, rfl⟩ := mem_map.mp hout
        rw [onDay_of_price _ _ rfl hprice, decide_eq_true_eq]
        exact (hfirst later hmem).ne'
      cases hprice : (barOutcome series now prices judged).price with
      | none => rw [filterMap_cons_none hprice]; exact hlater
      | some row =>
        rw [filterMap_cons_some hprice, filter_cons_of_pos, ← rowsOnDay, hlater]
        · rfl
        · rw [onDay_of_price _ _ rfl hprice, decide_eq_true_eq]
    · have hother : first.bar.day ≠ judged.bar.day := (hfirst judged hmem).ne
      rw [← ih hmem hrest]
      cases hprice : (barOutcome series now prices first).price with
      | none => rw [filterMap_cons_none hprice]; rfl
      | some row =>
        rw [filterMap_cons_some hprice, filter_cons_of_neg]
        · rfl
        · rw [onDay_of_price _ _ rfl hprice, decide_eq_true_eq]
          exact hother

end Passes

section Repetition

variable {page : TgjuPage} {series : DailySeries} {now now' : Instant}
  {prices prices' : List PriceRow} {row : PriceRow} {judged : Judged} {audits : List AuditRow}
  {rows : List AuditRow}

theorem sameValue_self (a : ℚ) : sameValue a a = true := by
  rw [sameValue, decide_eq_true_eq, sub_self, abs_zero]
  exact le_max_of_le_right (by norm_num [restatementAbsTolerance])

theorem ownClose_singleton (hsource : row.source = historySource) :
    ownClose [row] = some row.value := by
  rw [ownClose, filter_cons_of_pos (by simpa using hsource), filter_nil,
    argmax_singleton, Option.map_some]

theorem barOutcome_written (hwritten : (barOutcome series now prices judged).price = some row)
    (hsettled : series.settled now' judged.bar.day = true)
    (hrows : rowsOnDay prices' series.symbol judged.bar.day = [row]) :
    barOutcome series now' prices' judged = .unchanged := by
  have hrow := (price_barOutcome hwritten).1
  have hown : ownClose [row] = some (series.normalize judged.bar.close) := by
    rw [hrow]
    exact ownClose_singleton rfl
  rw [barOutcome, hsettled, hrows, hown]
  simp [sameValue_self]

theorem barOutcome_again
    (hsettled : series.settled now' judged.bar.day = series.settled now judged.bar.day)
    (hrows : rowsOnDay prices' series.symbol judged.bar.day =
      rowsOnDay prices series.symbol judged.bar.day) :
    (barOutcome series now' prices' judged).price = (barOutcome series now prices judged).price ∧
      (barOutcome series now' prices' judged).audit.map AuditRow.dedupeKey =
        (barOutcome series now prices judged).audit.map AuditRow.dedupeKey := by
  simp only [barOutcome, hsettled, hrows]
  split_ifs
  all_goals try exact ⟨rfl, rfl⟩
  all_goals split <;> exact ⟨rfl, rfl⟩

theorem barOutcome_next (hjudged : judged ∈ judgeBars page.bars)
    (hsettled : series.settled now' judged.bar.day = series.settled now judged.bar.day) :
    (barOutcome series now' (prices ++ writtenRows series page now prices) judged).price = none ∧
      ∀ audit, (barOutcome series now' (prices ++ writtenRows series page now prices)
        judged).audit = some audit →
          ∃ first, (barOutcome series now prices judged).audit = some first ∧
            first.dedupeKey = audit.dedupeKey := by
  have hrows : rowsOnDay (prices ++ writtenRows series page now prices) series.symbol
      judged.bar.day = rowsOnDay prices series.symbol judged.bar.day ++
        (barOutcome series now prices judged).price.toList := by
    rw [← rowsOnDay_written hjudged]
    exact filter_append ..
  cases hprice : (barOutcome series now prices judged).price with
  | none =>
    rw [hprice, Option.toList_none, append_nil] at hrows
    obtain ⟨hsame, haudit⟩ := barOutcome_again hsettled hrows
    refine ⟨hsame.trans hprice, fun audit hagain ↦ ?_⟩
    rw [hagain, Option.map_some] at haudit
    obtain ⟨first, hfirst, hkey⟩ := Option.map_eq_some_iff.mp haudit.symm
    exact ⟨first, hfirst, hkey⟩
  | some row =>
    obtain ⟨-, hdue, -, hempty, -⟩ := price_barOutcome hprice
    rw [hprice, hempty] at hrows
    rw [barOutcome_written hprice (hsettled.trans hdue) hrows]
    refine ⟨rfl, fun audit hnone ↦ ?_⟩
    cases hnone

theorem key_of_foldl_insertAudit {key : DedupeKey}
    (h : (∃ a ∈ audits, a.dedupeKey = key) ∨ ∃ a ∈ rows, a.dedupeKey = key) :
    ∃ a ∈ rows.foldl insertAudit audits, a.dedupeKey = key := by
  induction rows generalizing audits with
  | nil => exact h.resolve_right (by simp)
  | cons row rows ih =>
    refine ih ?_
    rw [insertAudit]
    rcases h with ⟨a, ha, hkey⟩ | ⟨a, ha, hkey⟩
    · split
      · exact .inl ⟨a, ha, hkey⟩
      · exact .inl ⟨a, mem_append_left _ ha, hkey⟩
    · rcases mem_cons.mp ha with rfl | hrest
      · split
        next hthere =>
          obtain ⟨a', ha', hsame⟩ := any_eq_true.mp hthere
          exact .inl ⟨a', ha', (of_decide_eq_true hsame).trans hkey⟩
        next => exact .inl ⟨a, mem_append_right _ mem_cons_self, hkey⟩
      · exact .inr ⟨a, hrest, hkey⟩

theorem foldl_insertAudit_of_keys (h : ∀ row ∈ rows, ∃ a ∈ audits, a.dedupeKey = row.dedupeKey) :
    rows.foldl insertAudit audits = audits := by
  induction rows with
  | nil => rfl
  | cons row rows ih =>
    obtain ⟨hrow, hrest⟩ := forall_mem_cons.mp h
    obtain ⟨a, ha, hkey⟩ := hrow
    rw [foldl_cons, insertAudit, if_pos (any_eq_true.mpr ⟨a, ha, decide_eq_true hkey⟩)]
    exact ih hrest

end Repetition

section Daily

variable {iso : Isoformat} {db : DailyData} {symbol : String} {page : TgjuPage}
  {series : DailySeries} {now now' : Instant} {prices : List PriceRow} {row : PriceRow}

def WrittenClose (db : DailyData) (symbol : String) (page : TgjuPage) (now : Instant)
    (row : PriceRow) : Prop :=
  ∃ judged ∈ judgeBars page.bars, judged.bar ∈ page.bars ∧ judged.verdict = .ok ∧
    row.symbol = symbol ∧ row.source = historySource ∧ row.observedAt = closeStamp judged.bar.day ∧
    judged.bar.day < tehranToday now ∧ closeStamp judged.bar.day ≤ now ∧
    (∀ first, gapFillFrom.lookup symbol = some first →
      first ≤ judged.bar.day ∧ utcDayEnd judged.bar.day ≤ now) ∧
    ∀ r ∈ db.prices, r.symbol = symbol → utcDate r.observedAt ≠ judged.bar.day

def NoFurtherDay (symbol : String) (now now' : Instant) : Prop :=
  ∀ series, dailySeries symbol = some series → ∀ day, series.settled now' day = true →
    series.settled now day = true

theorem writtenClose_of_mem (hseries : dailySeries symbol = some series)
    (hrow : row ∈ writtenRows series page now db.prices) :
    WrittenClose db symbol page now row := by
  obtain ⟨hsymbol, hfrom⟩ := symbol_of_dailySeries hseries
  obtain ⟨judged, hjudged, hprice⟩ := mem_writtenRows hrow
  obtain ⟨rfl, hsettled, hverdict, hempty, hwindow⟩ := price_barOutcome hprice
  obtain ⟨htehran, hstamp, hended⟩ := settled_iff.mp hsettled
  refine ⟨judged, hjudged, mem_of_judged hjudged, hverdict, hsymbol, rfl, rfl, htehran, hstamp,
    fun first hfirst ↦ ⟨hwindow first (hfrom.trans hfirst), hended first (hfrom.trans hfirst)⟩, ?_⟩
  intro r hr hrsymbol hday
  have hmem : r ∈ rowsOnDay db.prices series.symbol judged.bar.day :=
    mem_filter.mpr ⟨hr, by simp [hrsymbol, hsymbol, hday]⟩
  rw [hempty] at hmem
  exact not_mem_nil hmem

theorem days_nodup :
    ((writtenRows series page now prices).map (fun row ↦ utcDate row.observedAt)).Nodup := by
  refine pairwise_map.mpr (writtenRows_ascending.imp_of_mem ?_)
  intro row row' hrow hrow' hbefore hsame
  obtain ⟨judged, -, hprice⟩ := mem_writtenRows hrow
  obtain ⟨judged', -, hprice'⟩ := mem_writtenRows hrow'
  rw [(price_barOutcome hprice).1, (price_barOutcome hprice').1] at hbefore hsame
  simp only [DailySeries.priceRow, utcDate_closeStamp] at hbefore hsame
  rw [hsame] at hbefore
  exact lt_irrefl _ hbefore

theorem second_pass (hseries : dailySeries symbol = some series)
    (hprices : db.prices = prices ++ writtenRows series page now prices)
    (haudits : ∀ row ∈ auditRows series page now prices,
      ∃ a ∈ db.audits, a.dedupeKey = row.dedupeKey)
    (hsettled : ∀ day, series.settled now' day = series.settled now day) :
    (ingestSymbol iso db symbol (passOver page now')).1.prices = db.prices ∧
      (ingestSymbol iso db symbol (passOver page now')).1.audits = db.audits := by
  have hnext : ∀ judged ∈ judgeBars page.bars, (barOutcome series now' db.prices judged).price =
      none ∧ ∀ audit, (barOutcome series now' db.prices judged).audit = some audit →
        ∃ first, (barOutcome series now prices judged).audit = some first ∧
          first.dedupeKey = audit.dedupeKey := by
    intro judged hjudged
    rw [hprices]
    exact barOutcome_next hjudged (hsettled _)
  rcases ingestSymbol_cases iso db symbol page now' with ⟨hsame, -⟩ | ⟨series', hseries', hp, ha⟩
  · rw [hsame]
    exact ⟨rfl, rfl⟩
  · obtain rfl := Option.some.inj (hseries.symm.trans hseries')
    have hnone : writtenRows series page now' db.prices = [] := by
      refine eq_nil_iff_forall_not_mem.mpr fun row hrow ↦ ?_
      obtain ⟨judged, hjudged, hprice⟩ := mem_writtenRows hrow
      rw [(hnext judged hjudged).1] at hprice
      cases hprice
    refine ⟨by rw [hp, hnone, foldl_nil], ?_⟩
    rw [ha]
    refine foldl_insertAudit_of_keys fun audit haudit ↦ ?_
    obtain ⟨_, hout, hagain⟩ := mem_filterMap.mp haudit
    obtain ⟨judged, hjudged, rfl⟩ := mem_map.mp hout
    obtain ⟨first, hfirst, hkey⟩ := (hnext judged hjudged).2 audit hagain
    have hmem : first ∈ auditRows series page now prices :=
      mem_filterMap.mpr ⟨_, mem_map_of_mem hjudged, hfirst⟩
    obtain ⟨a, ha, hsame⟩ := haudits first hmem
    exact ⟨a, ha, hsame.trans hkey⟩

/-- A pass only adds rows, one a day and for settled closes on empty days, and the next
over the same page adds none. -/
theorem daily_pass_idempotent (iso : Isoformat) (db : DailyData) (symbol : String)
    (page : TgjuPage) (now : Instant) :
    (∃ new, (ingestSymbol iso db symbol (passOver page now)).1.prices = db.prices ++ new ∧
      (∀ row ∈ new, WrittenClose db symbol page now row) ∧
      (new.map (fun row ↦ utcDate row.observedAt)).Nodup) ∧
    ∀ report, (ingestSymbol iso db symbol (passOver page now)).2 = .ok report →
      ∀ now', now ≤ now' → NoFurtherDay symbol now now' →
        (ingestSymbol iso (ingestSymbol iso db symbol (passOver page now)).1 symbol
          (passOver page now')).1.prices =
            (ingestSymbol iso db symbol (passOver page now)).1.prices ∧
        (ingestSymbol iso (ingestSymbol iso db symbol (passOver page now)).1 symbol
          (passOver page now')).1.audits =
            (ingestSymbol iso db symbol (passOver page now)).1.audits := by
  rcases ingestSymbol_cases iso db symbol page now with ⟨hsame, hnot⟩ | ⟨series, hseries, hp, ha⟩
  · rw [hsame]
    exact ⟨⟨[], (append_nil _).symm, by simp, nodup_nil⟩,
      fun report hok ↦ absurd hok (hnot report)⟩
  · rw [foldl_writtenRows] at hp
    refine ⟨⟨_, hp, fun row hrow ↦ writtenClose_of_mem hseries hrow, days_nodup⟩, ?_⟩
    intro report _ now' hle hno
    refine second_pass hseries hp (fun row hrow ↦ ?_) fun day ↦ ?_
    · rw [ha]
      exact key_of_foldl_insertAudit (.inr ⟨row, hrow, rfl⟩)
    · exact Bool.eq_iff_iff.mpr ⟨hno series hseries day, settled_mono hle⟩

def levelBar (day : Date) : HistoryRow := ⟨day, 5065700, "5,065,700".toList, [], by norm_num⟩

def weekPage : TgjuPage where
  bars := [20720, 20721, 20722, 20723, 20724, 20725].map levelBar
  returnedRows := 6
  recordsTotal := some 6
  distinct := by decide

def pageAhead : TgjuPage where
  bars := [20720, 20721, 20722, 20723, 20724, 20725, 20727].map levelBar
  returnedRows := 7
  recordsTotal := some 7
  distinct := by decide

def noData : DailyData := ⟨[], [], none, fun _ ↦ none⟩

def beforeMidnight : Instant := 20725 * dayMicros + 47 * 1800 * 1000000

def afterMidnight : Instant := beforeMidnight + 3600 * 1000000

theorem no_day_by_midnight : NoFurtherDay "IR_SILVER_999" beforeMidnight afterMidnight := by
  intro series hseries day hsettled
  have hfrom : series.gapFillFrom = none := (symbol_of_dailySeries hseries).2.trans (by decide)
  rw [settled_iff] at hsettled ⊢
  have htehran : tehranToday afterMidnight = 20726 := by decide
  have htehran' : tehranToday beforeMidnight = 20726 := by decide
  rw [htehran] at hsettled
  refine ⟨htehran' ▸ hsettled.1, ?_, fun first hfirst ↦ ?_⟩
  · have hday : day ≤ 20725 := Int.le_of_lt_add_one hsettled.1
    have hstamp : closeStamp day ≤ closeStamp 20725 :=
      Int.add_le_add_right (Int.mul_le_mul_of_nonneg_right hday (by decide)) _
    exact hstamp.trans (by decide)
  · rw [hfrom] at hfirst
    cases hfirst

theorem week_written_once :
    (ingestSymbol plainIsoformat noData "IR_SILVER_999"
      (passOver weekPage beforeMidnight)).1.prices.length = 6 ∧
    (ingestSymbol plainIsoformat (ingestSymbol plainIsoformat noData "IR_SILVER_999"
      (passOver weekPage beforeMidnight)).1 "IR_SILVER_999"
        (passOver weekPage afterMidnight)).1.prices =
      (ingestSymbol plainIsoformat noData "IR_SILVER_999"
        (passOver weekPage beforeMidnight)).1.prices := by
  obtain ⟨report, hok⟩ : ∃ report, (ingestSymbol plainIsoformat noData "IR_SILVER_999"
    (passOver weekPage beforeMidnight)).2 = .ok report := ⟨_, rfl⟩
  refine ⟨by decide +kernel, ?_⟩
  exact ((daily_pass_idempotent plainIsoformat noData "IR_SILVER_999" weekPage beforeMidnight).2
    report hok afterMidnight (by decide) no_day_by_midnight).1

/-- A page that is refused for a date too far ahead is taken once that date is near. -/
theorem refused_then_written :
    (ingestSymbol plainIsoformat noData "IR_SILVER_999"
      (passOver pageAhead beforeMidnight)).1.prices = [] ∧
    NoFurtherDay "IR_SILVER_999" beforeMidnight afterMidnight ∧
    (ingestSymbol plainIsoformat (ingestSymbol plainIsoformat noData "IR_SILVER_999"
      (passOver pageAhead beforeMidnight)).1 "IR_SILVER_999"
        (passOver pageAhead afterMidnight)).1.prices.length = 6 :=
  ⟨by decide +kernel, no_day_by_midnight, by decide +kernel⟩

end Daily

end TalaPala.Prices
