import TalaPala.Prices.HistoryBackfill
import TalaPala.Library.Transition
import Mathlib.Tactic.Positivity

namespace TalaPala.Prices

open Library.Transition List
open News (Text strip isSpace)

section Bars

theorem utcDate_closeStamp (day : Date) : utcDate (closeStamp day) = day := by
  have hdiv : ∀ d : ℤ, (d * (86400 * 1000000) + 23 * 3600 * 1000000) / (86400 * 1000000) = d := by
    omega
  exact hdiv day

theorem closeStamp_lt {day : Date} {t : Instant} (h : day < utcDate t) : closeStamp day < t := by
  have hdiv : ∀ d t : ℤ, d < t / (86400 * 1000000) →
      d * (86400 * 1000000) + 23 * 3600 * 1000000 < t := by omega
  exact hdiv day t h

theorem closeStamp_lt_iff {day day' : Date} : closeStamp day < closeStamp day' ↔ day < day' := by
  have hlt : ∀ d d' : ℤ, d * (86400 * 1000000) + 23 * 3600 * 1000000 <
      d' * (86400 * 1000000) + 23 * 3600 * 1000000 ↔ d < d' := by omega
  exact hlt day day'

structure Eligible (cutoff : Date) (seen : List Date) (bars : List Bar) : Prop where
  days : (bars.map Bar.day).Nodup
  unseen : ∀ bar ∈ bars, bar.day ∉ seen
  before : ∀ bar ∈ bars, bar.day < cutoff
  positive : ∀ bar ∈ bars, 0 < bar.value

theorem eligible_spec (cutoff : Date) (pairs : List (Date × ℚ)) (seen : List Date) (skips : Skips) :
    Eligible cutoff seen (eligible cutoff pairs seen skips).1 := by
  induction pairs generalizing seen skips with
  | nil => exact ⟨nodup_nil, by simp [eligible], by simp [eligible], by simp [eligible]⟩
  | cons pair rest ih =>
    obtain ⟨day, rawClose⟩ := pair
    rw [eligible]
    split_ifs with hclose hcutoff hseen
    · exact ih seen _
    · exact ih seen _
    · exact ih seen _
    · obtain ⟨hdays, hunseen, hbefore, hpositive⟩ := ih (day :: seen) skips
      refine ⟨?_, ?_, ?_, ?_⟩
      · rw [map_cons, nodup_cons]
        refine ⟨fun hmem ↦ ?_, hdays⟩
        obtain ⟨bar, hbar, heq⟩ := mem_map.mp hmem
        exact hunseen bar hbar (heq ▸ mem_cons_self)
      · refine forall_mem_cons.mpr ⟨hseen, fun bar hbar hmem ↦ ?_⟩
        exact hunseen bar hbar (mem_cons_of_mem _ hmem)
      · exact forall_mem_cons.mpr ⟨not_le.mp hcutoff, hbefore⟩
      · refine forall_mem_cons.mpr ⟨?_, hpositive⟩
        exact div_pos (not_le.mp hclose) (by norm_num)

structure Ascending (cutoff : Instant) (bars : List Bar) : Prop where
  ascending : bars.Pairwise (fun a b ↦ a.day < b.day)
  before : ∀ bar ∈ bars, bar.day < utcDate cutoff
  positive : ∀ bar ∈ bars, 0 < bar.value

theorem rowsToWrite_ascending (pairs : List (Date × ℚ)) (cutoff : Instant) :
    Ascending cutoff (rowsToWrite pairs cutoff).1 := by
  obtain ⟨hdays, -, hbefore, hpositive⟩ := eligible_spec (utcDate cutoff) pairs [] ⟨0, 0, 0⟩
  generalize hkept : (eligible (utcDate cutoff) pairs [] ⟨0, 0, 0⟩).1 = kept at *
  have hrows : (rowsToWrite pairs cutoff).1 = kept.insertionSort (fun a b ↦ a.day ≤ b.day) := by
    rw [← hkept]
    rfl
  have : Std.Total (fun a b : Bar ↦ a.day ≤ b.day) := ⟨fun a b ↦ le_total a.day b.day⟩
  have : IsTrans Bar (fun a b ↦ a.day ≤ b.day) := ⟨fun a b c h h' ↦ le_trans h h'⟩
  have hperm := kept.perm_insertionSort (fun a b ↦ a.day ≤ b.day)
  rw [hrows]
  refine ⟨?_, fun bar hbar ↦ hbefore bar (hperm.mem_iff.mp hbar),
    fun bar hbar ↦ hpositive bar (hperm.mem_iff.mp hbar)⟩
  have hne := pairwise_map.mp ((hperm.map Bar.day).nodup_iff.mpr hdays)
  exact ((kept.pairwise_insertionSort (fun a b ↦ a.day ≤ b.day)).and hne).imp
    (fun h ↦ lt_of_le_of_ne h.1 h.2)

def WithinTolerance (previous row : PriceRow) : Prop :=
  barRatio previous.value row.value ≤
    spanToleranceRatio (utcDate row.observedAt - utcDate previous.observedAt)

theorem isChain_of_zip {α : Type*} {P : α → α → Prop} {l : List α}
    (h : ∀ p ∈ l.zip l.tail, P p.1 p.2) : l.IsChain P := by
  induction l with
  | nil => exact .nil
  | cons a rest ih =>
    cases rest with
    | nil => exact .singleton a
    | cons b rest =>
      rw [tail_cons, zip_cons_cons, forall_mem_cons] at h
      exact .cons_cons h.1 (ih h.2)

theorem coherent_of_ok {cutoff : Instant} {bars : List Bar} (hbars : Ascending cutoff bars)
    (h : (spanBreaks bars).ok = true) (symbol : String) :
    (bars.map (Bar.priceRow symbol)).IsChain WithinTolerance := by
  rw [isChain_map]
  refine isChain_of_zip (fun p hp ↦ ?_)
  have hmem := of_mem_zip hp
  have hpositive : decide (0 < p.1.value) && decide (0 < p.2.value) := by
    simp [hbars.positive p.1 hmem.1, hbars.positive p.2 (mem_of_mem_tail hmem.2)]
  have hunbroken := filter_eq_nil_iff.mp (List.isEmpty_iff.mp h) p
    (mem_filter.mpr ⟨hp, hpositive⟩)
  rw [broken, decide_eq_true_eq, not_lt] at hunbroken
  rw [WithinTolerance]
  simpa only [Bar.priceRow, utcDate_closeStamp] using hunbroken

end Bars

section Plans

variable {iso : Isoformat} {prices : List PriceRow} {symbol : String} {run : BackfillRun}
  {plan : BackfillPlan}

structure Oldest (rows : List PriceRow) (oldest : PriceRow) : Prop where
  mem : oldest ∈ rows
  least : ∀ r ∈ rows, oldest.observedAt ≤ r.observedAt

theorem liveAnchor_oldest {oldestFirst : OldestFirst} {ignoreSources : List String}
    {anchor : LiveAnchor} (h : liveAnchor oldestFirst prices symbol ignoreSources = some anchor) :
    ∃ oldest, Oldest (symbolRows prices symbol) oldest ∧ anchor.cutoff = oldest.observedAt ∧
      anchor.cutoffSource = oldest.source := by
  obtain ⟨oldest, hpick, rfl⟩ := Option.map_eq_some_iff.mp h
  exact ⟨oldest, ⟨oldestFirst.mem _ _ hpick, oldestFirst.least _ _ hpick⟩, rfl, rfl⟩

structure Planned (iso : Isoformat) (prices : List PriceRow) (symbol : String)
    (plan : BackfillPlan) : Prop where
  oldest : ∃ oldest, Oldest (symbolRows prices symbol) oldest ∧
    Ascending oldest.observedAt plan.bars ∧ ∃ first last anchor rows now,
      plan.bars.head? = some first ∧ plan.bars.getLast? = some last ∧
      plan.splice = spliceRecord iso symbol first.day last.day anchor rows now ∧
      rows = plan.bars.length ∧ anchor.cutoff = oldest.observedAt ∧
      anchor.cutoffSource = oldest.source
  coherent : (plan.bars.map (Bar.priceRow symbol)).IsChain WithinTolerance

structure GuardsPass (iso : Isoformat) (prices : List PriceRow) (symbol : String)
    (run : BackfillRun) (plan : BackfillPlan) (anchor : LiveAnchor) (page : HistoryPage)
    (first last : Bar) : Prop where
  known : ¬((backfillSlugs.lookup symbol).isNone || (symbolMeta.lookup symbol).isNone) = true
  anchored : liveAnchor run.oldestFirst prices symbol run.ignoreSources = some anchor
  fetched : run.page = some page
  whole : truncationError page = none
  dated : barDateError run.today page.rows = none
  bars : plan.bars = (rowsToWrite page.rows anchor.cutoff).1
  opens : plan.bars.head? = some first
  closes : plan.bars.getLast? = some last
  coherent : (spanBreaks plan.bars).ok = true
  joined : ∃ referenceAt referenceValue source,
    anchor.reference = some (referenceAt, referenceValue, source) ∧
      (checkJoin last referenceAt referenceValue).ok = true
  splice : plan.splice =
    spliceRecord iso symbol first.day last.day anchor plan.bars.length run.now

theorem planBackfill_guards (h : planBackfill iso prices symbol run = .ok plan) :
    ∃ anchor page first last, GuardsPass iso prices symbol run plan anchor page first last := by
  rw [planBackfill] at h
  split at h
  · cases h
  rename_i hknown
  split at h
  · cases h
  rename_i anchor hanchor
  split at h
  · cases h
  rename_i referenceAt referenceValue source hreference
  split at h
  · cases h
  split at h
  · cases h
  rename_i page hpage
  split at h
  · cases h
  rename_i hpasses
  obtain ⟨hwhole, hdated⟩ := Option.or_eq_none_iff.mp hpasses
  generalize hrows : rowsToWrite page.rows anchor.cutoff = written at h
  obtain ⟨kept, skips⟩ := written
  dsimp only at h
  split at h
  · rename_i first last hfirst hlast
    split_ifs at h with hpositive hspan hjoin
    obtain rfl := Except.ok.inj h
    exact ⟨anchor, page, first, last, hknown, hanchor, hpage, hwhole, hdated, by rw [hrows],
      hfirst, hlast, by simpa using hspan, ⟨referenceAt, referenceValue, source, hreference,
        by simpa using hjoin⟩, rfl⟩
  · split_ifs at h

theorem planBackfill_planned (h : planBackfill iso prices symbol run = .ok plan) :
    Planned iso prices symbol plan := by
  obtain ⟨anchor, page, first, last, hguards⟩ := planBackfill_guards h
  obtain ⟨oldest, holdest, hcutoff, hsource⟩ := liveAnchor_oldest hguards.anchored
  have hascending := rowsToWrite_ascending page.rows anchor.cutoff
  rw [← hguards.bars, hcutoff] at hascending
  exact ⟨⟨oldest, holdest, hascending, first, last, anchor, _, run.now, hguards.opens,
    hguards.closes, hguards.splice, rfl, hcutoff, hsource⟩,
    coherent_of_ok hascending hguards.coherent symbol⟩

variable (symbol) in
theorem foldl_insertIgnore {rows : List PriceRow} (hascending : rows.Pairwise
      (fun a b ↦ a.observedAt < b.observedAt))
    (hsymbol : ∀ row ∈ rows, row.symbol = symbol)
    (hnew : ∀ row ∈ rows, ∀ p ∈ prices, p.symbol = symbol → p.observedAt ≠ row.observedAt) :
    rows.foldl insertIgnore prices = prices ++ rows := by
  induction rows generalizing prices with
  | nil => simp
  | cons row rest ih =>
    obtain ⟨hfirst, hrest⟩ := pairwise_cons.mp hascending
    obtain ⟨hrow, hsymbol'⟩ := forall_mem_cons.mp hsymbol
    obtain ⟨hnew', hnewRest⟩ := forall_mem_cons.mp hnew
    have hinsert : insertIgnore prices row = prices ++ [row] := by
      rw [insertIgnore, if_neg]
      rw [any_eq_true]
      rintro ⟨p, hp, hconflict⟩
      simp only [Bool.and_eq_true, decide_eq_true_eq] at hconflict
      exact hnew' p hp (hconflict.1.1.trans hrow) hconflict.1.2
    rw [foldl_cons, hinsert, ih hrest hsymbol']
    · simp
    · intro later hlater p hp hpsymbol
      rcases mem_append.mp hp with hp | hp
      · exact hnewRest later hlater p hp hpsymbol
      · obtain rfl := mem_singleton.mp hp
        exact (hfirst later hlater).ne

end Plans

section Notes

theorem suffix_dropWhile {p : Char → Bool} {c : Char} (hc : p c = false) (a b : Text) :
    c :: b <:+ (a ++ c :: b).dropWhile p := by
  induction a with
  | nil => rw [nil_append, dropWhile_cons_of_neg (by simp [hc])]
  | cons d a ih =>
    rw [cons_append, dropWhile_cons]
    split
    · exact ih
    · exact (suffix_append a _).trans (suffix_cons d _)

theorem strip_suffix {c d : Char} (hc : isSpace c = false) (hd : isSpace d = false) (a b : Text) :
    c :: b ++ [d] <:+ strip (a ++ c :: b ++ [d]) := by
  obtain ⟨front, hfront⟩ := suffix_dropWhile hc a (b ++ [d])
  rw [strip, append_assoc, cons_append, ← hfront, ← cons_append,
    ← append_assoc, rdropWhile_concat_neg _ _ _ (by simp [hd]), append_assoc]
  exact suffix_append front _

theorem note_suffix_notesWith (iso : Isoformat) (symbol : String) (last : Date) (cutoff : Instant)
    (source : String) (notes : Text) : spliceNote iso symbol last cutoff source <:+
      notesWith notes (spliceNote iso symbol last cutoff source) := by
  obtain ⟨body, hbody⟩ : ∃ body, spliceNote iso symbol last cutoff source = '[' :: body ++ ['.'] := by
    rw [spliceNote]
    exact ⟨_, rfl⟩
  rw [notesWith]
  split
  · exact suffix_rfl
  · rw [hbody]
    have hsuffix := strip_suffix (c := '[') (d := '.') (by decide) (by decide)
      (strip (beforeMarker spliceNoteMarker notes) ++ [' ']) body
    rwa [append_assoc, append_assoc] at hsuffix

end Notes

section Boundary

def storedBars (prices : List PriceRow) (symbol : String) : List PriceRow :=
  (symbolRows prices symbol).filter (·.source = historySource)

def liveRows (prices : List PriceRow) (symbol : String) : List PriceRow :=
  (symbolRows prices symbol).filter (·.source ≠ historySource)

variable (iso : Isoformat)

structure Described (db : MarketData) (symbol : String) : Prop where
  boundary : ∃ record oldest, db.register.lookup symbol = some record ∧
    Oldest (liveRows db.prices symbol) oldest ∧ record.spliceAt = oldest.observedAt ∧
    record.liveSource = oldest.source ∧
    (∃ bar ∈ storedBars db.prices symbol, utcDate bar.observedAt = record.backfillFirstBar) ∧
    (∃ bar ∈ storedBars db.prices symbol, utcDate bar.observedAt = record.backfillLastBar) ∧
    (∀ bar ∈ storedBars db.prices symbol, record.backfillFirstBar ≤ utcDate bar.observedAt ∧
      utcDate bar.observedAt ≤ record.backfillLastBar) ∧
    record.backfillRows = (storedBars db.prices symbol).length ∧
    record.note = spliceNote iso symbol record.backfillLastBar record.spliceAt record.liveSource ∧
    ∀ note, db.notes symbol = some note → record.note <:+ note
  coherent : ((storedBars db.prices symbol).insertionSort
    (fun a b ↦ a.observedAt ≤ b.observedAt)).IsChain WithinTolerance

def InFront (db : MarketData) (symbol : String) : Prop :=
  ∀ bar ∈ storedBars db.prices symbol, ∀ r ∈ liveRows db.prices symbol,
    bar.observedAt < r.observedAt

/-- The register calls the backfill the live source. -/
def Misnamed (db : MarketData) (symbol : String) : Prop :=
  storedBars db.prices symbol ≠ [] ∧
    ∃ record, db.register.lookup symbol = some record ∧ record.liveSource = historySource

def Writes (db : MarketData) (symbol : String) (run : BackfillRun) : Prop :=
  run.dryRun = false ∧ run.commits = true ∧
    ∃ plan, planBackfill iso db.prices symbol run = .ok plan

def WritesFirst (symbol : String) (db : MarketData) (run : BackfillRun) : Prop :=
  Writes iso db symbol run → storedBars db.prices symbol = []

def nextBackfill (symbol : String) (db : MarketData) (run : BackfillRun) : Option MarketData :=
  some (backfillSymbol iso db symbol run).1

variable {iso} {db : MarketData} {symbol : String} {run : BackfillRun}

theorem Misnamed.not_described (h : Misnamed db symbol) : ¬Described iso db symbol := by
  rintro ⟨⟨record, oldest, hlookup, holdest, -, hsource, -⟩, -⟩
  obtain ⟨-, record', hlookup', hlive⟩ := h
  rw [hlookup, Option.some.injEq] at hlookup'
  subst hlookup'
  have hne := (mem_filter.mp holdest.mem).2
  rw [← hsource, hlive] at hne
  simp at hne

inductive Backfilled (iso : Isoformat) (db : MarketData) (symbol : String) (run : BackfillRun) :
    MarketData → Prop
  | same : ¬Writes iso db symbol run → Backfilled iso db symbol run db
  | writes (plan : BackfillPlan) : Writes iso db symbol run → Planned iso db.prices symbol plan →
      Backfilled iso db symbol run
        (writeSpliceRecord { db with prices := db.prices ++ plan.bars.map (Bar.priceRow symbol) }
          plan.splice).1

theorem Ascending.stamps {cutoff : Instant} {bars : List Bar} (h : Ascending cutoff bars)
    (symbol : String) : (bars.map (Bar.priceRow symbol)).Pairwise
      (fun a b ↦ a.observedAt < b.observedAt) :=
  pairwise_map.mpr (h.ascending.imp (fun hlt ↦ closeStamp_lt_iff.mpr hlt))

theorem Ascending.stamp_lt {cutoff : Instant} {bars : List Bar} (h : Ascending cutoff bars)
    {row : PriceRow} (hrow : row ∈ bars.map (Bar.priceRow symbol)) : row.observedAt < cutoff := by
  obtain ⟨bar, hbar, rfl⟩ := mem_map.mp hrow
  exact closeStamp_lt (h.before bar hbar)

theorem Planned.inserted {prices : List PriceRow} {plan : BackfillPlan}
    (h : Planned iso prices symbol plan) :
    (plan.bars.map (Bar.priceRow symbol)).foldl insertIgnore prices =
      prices ++ plan.bars.map (Bar.priceRow symbol) := by
  obtain ⟨oldest, holdest, hascending, -⟩ := h.oldest
  refine foldl_insertIgnore symbol (hascending.stamps symbol)
    (fun row hrow ↦ ?_) (fun row hrow p hp hsymbol heq ↦ ?_)
  · obtain ⟨bar, -, rfl⟩ := mem_map.mp hrow
    rfl
  · have hle := holdest.least p (mem_filter.mpr ⟨hp, decide_eq_true hsymbol⟩)
    rw [heq] at hle
    exact absurd (hascending.stamp_lt hrow) (not_lt.mpr hle)

theorem backfillSymbol_backfilled (iso : Isoformat) (db : MarketData) (symbol : String)
    (run : BackfillRun) : Backfilled iso db symbol run (backfillSymbol iso db symbol run).1 := by
  rw [backfillSymbol]
  cases hplan : planBackfill iso db.prices symbol run with
  | error outcome =>
    refine .same (fun hwrites ↦ ?_)
    obtain ⟨-, -, plan, hok⟩ := hwrites
    rw [hplan] at hok
    cases hok
  | ok plan =>
    dsimp only
    by_cases hdry : run.dryRun
    · rw [if_pos hdry]
      refine .same (fun hwrites ↦ ?_)
      rw [hwrites.1] at hdry
      cases hdry
    rw [if_neg hdry]
    by_cases hcommits : run.commits
    · rw [if_pos hcommits]
      have hplanned := planBackfill_planned hplan
      rw [hplanned.inserted]
      exact .writes plan ⟨Bool.eq_false_of_not_eq_true hdry, hcommits, plan, hplan⟩ hplanned
    · rw [if_neg hcommits]
      exact .same (fun hwrites ↦ hcommits hwrites.2.1)

theorem symbolRows_append (prices : List PriceRow) (bars : List Bar) :
    symbolRows (prices ++ bars.map (Bar.priceRow symbol)) symbol =
      symbolRows prices symbol ++ bars.map (Bar.priceRow symbol) := by
  rw [symbolRows, filter_append, ← symbolRows]
  congr 1
  refine filter_eq_self.mpr (fun row hrow ↦ ?_)
  obtain ⟨bar, -, rfl⟩ := mem_map.mp hrow
  exact decide_eq_true rfl

theorem storedBars_append (prices : List PriceRow) (bars : List Bar) :
    storedBars (prices ++ bars.map (Bar.priceRow symbol)) symbol =
      storedBars prices symbol ++ bars.map (Bar.priceRow symbol) := by
  rw [storedBars, symbolRows_append, filter_append, ← storedBars]
  congr 1
  refine filter_eq_self.mpr (fun row hrow ↦ ?_)
  obtain ⟨bar, -, rfl⟩ := mem_map.mp hrow
  exact decide_eq_true rfl

theorem liveRows_append (prices : List PriceRow) (bars : List Bar) :
    liveRows (prices ++ bars.map (Bar.priceRow symbol)) symbol = liveRows prices symbol := by
  rw [liveRows, symbolRows_append, filter_append, ← liveRows]
  refine (congrArg _ (filter_eq_nil_iff.mpr (fun row hrow ↦ ?_))).trans (append_nil _)
  obtain ⟨bar, -, rfl⟩ := mem_map.mp hrow
  simp [Bar.priceRow]

theorem Backfilled.inFront {db' : MarketData} (h : Backfilled iso db symbol run db')
    (hfront : InFront db symbol) : InFront db' symbol := by
  cases h with
  | same => exact hfront
  | writes plan _ hplanned =>
    obtain ⟨oldest, holdest, hascending, -⟩ := hplanned.oldest
    rintro bar hbar r hr
    change bar ∈ storedBars (db.prices ++ plan.bars.map (Bar.priceRow symbol)) symbol at hbar
    change r ∈ liveRows (db.prices ++ plan.bars.map (Bar.priceRow symbol)) symbol at hr
    rw [storedBars_append] at hbar
    rw [liveRows_append] at hr
    rcases mem_append.mp hbar with hbar | hbar
    · exact hfront bar hbar r hr
    · exact (hascending.stamp_lt hbar).trans_le (holdest.least r (mem_filter.mp hr).1)

theorem lookup_register (db : MarketData) {record : SpliceRecord} (h : record.symbol = symbol) :
    (writeSpliceRecord db record).1.register.lookup symbol = some record := by
  rw [← h]
  exact lookup_cons_self

theorem Backfilled.misnamed {db' : MarketData} (h : Backfilled iso db symbol run db')
    (hfront : InFront db symbol) (hnot : ¬WritesFirst iso symbol db run) : Misnamed db' symbol := by
  rw [WritesFirst, Classical.not_imp] at hnot
  obtain ⟨hwrites, hstored⟩ := hnot
  cases h with
  | same hno => exact absurd hwrites hno
  | writes plan _ hplanned =>
    obtain ⟨oldest, holdest, -, first, last, anchor, rows, now, -, -, hsplice, -, -, hsource⟩ :=
      hplanned.oldest
    obtain ⟨bar, hbar⟩ := exists_mem_of_ne_nil _ hstored
    have hhistory : oldest.source = historySource := by
      by_contra hlive
      have hlt := hfront bar hbar oldest (mem_filter.mpr ⟨holdest.mem, by simpa using hlive⟩)
      exact absurd hlt (not_lt.mpr (holdest.least bar (mem_filter.mp hbar).1))
    refine ⟨fun hnil ↦ ?_, plan.splice, ?_, ?_⟩
    · change storedBars (db.prices ++ plan.bars.map (Bar.priceRow symbol)) symbol = [] at hnil
      rw [storedBars_append] at hnil
      exact hstored (append_eq_nil_iff.mp hnil).1
    · rw [hsplice]
      exact lookup_register _ rfl
    · rw [hsplice, ← hhistory, ← hsource]
      rfl

theorem Backfilled.misnamed_of_misnamed {db' : MarketData}
    (h : Backfilled iso db symbol run db') (hfront : InFront db symbol)
    (hmisnamed : Misnamed db symbol) : Misnamed db' symbol := by
  by_cases hwrites : Writes iso db symbol run
  · exact h.misnamed hfront (fun hfirst ↦ hmisnamed.1 (hfirst hwrites))
  · cases h with
    | same => exact hmisnamed
    | writes _ hdone => exact absurd hdone hwrites

theorem Ascending.bounds {cutoff : Instant} {bars : List Bar} (h : Ascending cutoff bars)
    {first last : Bar} (hfirst : bars.head? = some first) (hlast : bars.getLast? = some last) :
    first ∈ bars ∧ last ∈ bars ∧ ∀ bar ∈ bars, first.day ≤ bar.day ∧ bar.day ≤ last.day := by
  obtain ⟨rest, rfl⟩ := head?_eq_some_iff.mp hfirst
  obtain ⟨front, hfront⟩ := getLast?_eq_some_iff.mp hlast
  refine ⟨mem_cons_self, by simp [hfront], fun bar hbar ↦ ⟨?_, ?_⟩⟩
  · rcases mem_cons.mp hbar with rfl | hbar
    · exact le_rfl
    · exact (rel_of_pairwise_cons h.ascending hbar).le
  · rw [hfront] at hbar
    have hascending := h.ascending
    rw [hfront, pairwise_append] at hascending
    rcases mem_append.mp hbar with hbar | hbar
    · exact (hascending.2.2 bar hbar last mem_cons_self).le
    · rw [mem_singleton.mp hbar]

theorem Backfilled.described {db' : MarketData} (h : Backfilled iso db symbol run db')
    (hstored : storedBars db.prices symbol = []) :
    storedBars db'.prices symbol = [] ∨ Described iso db' symbol := by
  cases h with
  | same => exact .inl hstored
  | writes plan _ hplanned =>
    right
    obtain ⟨⟨oldest, holdest, hascending, first, last, anchor, rows, now, hfirst, hlast, hsplice,
      hrows, hcutoff, hsource⟩, hcoherent⟩ := hplanned
    obtain ⟨hfirstMem, hlastMem, hbounds⟩ := hascending.bounds hfirst hlast
    have hlive : oldest ∈ liveRows db.prices symbol := by
      refine mem_filter.mpr ⟨holdest.mem, ?_⟩
      by_contra hhistory
      have hmem : oldest ∈ storedBars db.prices symbol :=
        mem_filter.mpr ⟨holdest.mem, by simpa using hhistory⟩
      rw [hstored] at hmem
      cases hmem
    have hbars : storedBars (db.prices ++ plan.bars.map (Bar.priceRow symbol)) symbol =
        plan.bars.map (Bar.priceRow symbol) := by
      rw [storedBars_append, hstored, nil_append]
    refine ⟨⟨plan.splice, oldest, ?_, ⟨?_, ?_⟩, ?_, ?_, ?_, ?_, ?_, ?_, ?_, ?_⟩, ?_⟩
    · exact lookup_register _ (by rw [hsplice]; rfl)
    · exact (liveRows_append db.prices plan.bars).symm ▸ hlive
    · intro r hr
      change r ∈ liveRows (db.prices ++ plan.bars.map (Bar.priceRow symbol)) symbol at hr
      rw [liveRows_append] at hr
      exact holdest.least r (mem_filter.mp hr).1
    · rw [hsplice, ← hcutoff]
      rfl
    · rw [hsplice, ← hsource]
      rfl
    · refine ⟨first.priceRow symbol, hbars.symm ▸ mem_map_of_mem hfirstMem, ?_⟩
      rw [hsplice]
      exact utcDate_closeStamp first.day
    · refine ⟨last.priceRow symbol, hbars.symm ▸ mem_map_of_mem hlastMem, ?_⟩
      rw [hsplice]
      exact utcDate_closeStamp last.day
    · intro row hrow
      change row ∈ storedBars (db.prices ++ plan.bars.map (Bar.priceRow symbol)) symbol at hrow
      rw [hbars] at hrow
      obtain ⟨bar, hbar, rfl⟩ := mem_map.mp hrow
      rw [hsplice, show utcDate (bar.priceRow symbol).observedAt = bar.day from
        utcDate_closeStamp bar.day]
      exact hbounds bar hbar
    · change plan.splice.backfillRows =
        (storedBars (db.prices ++ plan.bars.map (Bar.priceRow symbol)) symbol).length
      rw [hbars, length_map, hsplice, ← hrows]
      rfl
    · rw [hsplice]
      rfl
    · intro note hnote
      change (if symbol = plan.splice.symbol then (db.notes symbol).map (notesWith · plan.splice.note)
        else db.notes symbol) = some note at hnote
      rw [hsplice, if_pos (show symbol = (spliceRecord iso symbol first.day last.day anchor rows
        now).symbol from rfl)] at hnote
      obtain ⟨notes, -, rfl⟩ := Option.map_eq_some_iff.mp hnote
      rw [hsplice]
      exact note_suffix_notesWith _ _ _ _ _ notes
    · change ((storedBars (db.prices ++ plan.bars.map (Bar.priceRow symbol)) symbol).insertionSort
        (fun a b ↦ a.observedAt ≤ b.observedAt)).IsChain WithinTolerance
      rw [hbars, List.Pairwise.insertionSort_eq ((hascending.stamps symbol).imp le_of_lt)]
      exact hcoherent

theorem Backfilled.eq_of_not_writes {db' : MarketData} (h : Backfilled iso db symbol run db')
    (hnot : ¬Writes iso db symbol run) : db' = db := by
  cases h with
  | same => rfl
  | writes _ hwrites => exact absurd hwrites hnot

def Settled (iso : Isoformat) (db : MarketData) (symbol : String) : Prop :=
  storedBars db.prices symbol = [] ∨ Described iso db symbol

theorem Backfilled.settled {db' : MarketData} (h : Backfilled iso db symbol run db')
    (hsettled : Settled iso db symbol) (hfirst : WritesFirst iso symbol db run) :
    Settled iso db' symbol := by
  by_cases hwrites : Writes iso db symbol run
  · exact h.described (hfirst hwrites)
  · rw [h.eq_of_not_writes hwrites]
    exact hsettled

theorem settled_iff_of_run {runs : List BackfillRun} {t : MarketData}
    (h : Run (nextBackfill iso symbol) (fun _ _ ↦ True) db runs t) (hfront : InFront db symbol) :
    (Misnamed db symbol → Misnamed t symbol) ∧ (Settled iso db symbol →
      (Settled iso t symbol ↔
        Run (nextBackfill iso symbol) (WritesFirst iso symbol) db runs t)) := by
  induction h with
  | nil db => exact ⟨id, fun hsettled ↦ ⟨fun _ ↦ .nil db, fun _ ↦ hsettled⟩⟩
  | @cons db db' t run runs _ hnext _ ih =>
    obtain rfl := Option.some.inj hnext
    have hdone := backfillSymbol_backfilled iso db symbol run
    obtain ⟨ihmisnamed, ihsettled⟩ := ih (hdone.inFront hfront)
    refine ⟨fun h ↦ ihmisnamed (hdone.misnamed_of_misnamed hfront h), fun hsettled ↦ ?_⟩
    by_cases hfirst : WritesFirst iso symbol db run
    · rw [ihsettled (hdone.settled hsettled hfirst)]
      constructor
      · exact fun hrest ↦ .cons hfirst rfl hrest
      · rintro (_ | ⟨-, hnext', hrest⟩)
        obtain rfl := Option.some.inj hnext'
        exact hrest
    · have hmisnamed := ihmisnamed (hdone.misnamed hfront hfirst)
      refine iff_of_false (not_or.mpr ⟨hmisnamed.1, hmisnamed.not_described⟩) ?_
      rintro (_ | ⟨hok, -, -⟩)
      exact hfirst hok

/-- From prices without a backfilled row, register, note and bars are as they should be
once something is stored, if and only if every run that writes finds no backfilled row. -/
theorem splice_described_iff (iso : Isoformat) (symbol : String) {db t : MarketData}
    {runs : List BackfillRun} (hstart : storedBars db.prices symbol = [])
    (hrun : Run (nextBackfill iso symbol) (fun _ _ ↦ True) db runs t) :
    (storedBars t.prices symbol ≠ [] → Described iso t symbol) ↔
      Run (nextBackfill iso symbol) (WritesFirst iso symbol) db runs t := by
  have hfront : InFront db symbol := by
    intro bar hbar
    rw [hstart] at hbar
    cases hbar
  rw [← (settled_iff_of_run hrun hfront).2 (.inl hstart)]
  exact or_iff_not_imp_left.symm

end Boundary

section Example

def insertedFirst : OldestFirst where
  pick l := @List.argmin PriceRow ℤ Int.instLinearOrder.toPreorder Int.decLt PriceRow.observedAt l
  mem l r h := argmin_mem h
  least l r h r' hr' := le_of_mem_argmin hr' h
  found l h := by
    cases hl : @List.argmin PriceRow ℤ Int.instLinearOrder.toPreorder Int.decLt
      PriceRow.observedAt l with
    | none => exact absurd (argmin_eq_none.mp hl) h
    | some _ => rfl

def plainIsoformat : Isoformat := ⟨fun _ ↦ [], fun _ ↦ []⟩

def oneLiveRow : MarketData where
  prices := [⟨"USD_IRT", 1000, "IRT", "usd", "bitmax", 20000 * dayMicros, .ok⟩]
  register := []
  notes _ := none

def pageRun (rows : List (Date × ℚ)) : BackfillRun where
  oldestFirst := insertedFirst
  page := some ⟨rows, rows.length, some rows.length⟩
  today := 20000 * dayMicros
  now := 20000 * dayMicros
  ignoreSources := []
  dryRun := false
  commits := true

def firstPage : BackfillRun := pageRun [(19999, 10000)]

def secondPage : BackfillRun := pageRun [(19998, 10000), (19999, 10000)]

def afterFirst : MarketData := (backfillSymbol plainIsoformat oneLiveRow "USD_IRT" firstPage).1

def afterSecond : MarketData := (backfillSymbol plainIsoformat afterFirst "USD_IRT" secondPage).1

theorem described_afterFirst : Described plainIsoformat afterFirst "USD_IRT" :=
  have hempty : storedBars oneLiveRow.prices "USD_IRT" = [] := by decide +kernel
  have hrun : Run (nextBackfill plainIsoformat "USD_IRT") (fun _ _ ↦ True) oneLiveRow [firstPage]
    afterFirst := .cons trivial rfl (.nil _)
  (splice_described_iff plainIsoformat "USD_IRT" hempty hrun).mpr
    (.cons (fun _ ↦ hempty) rfl (.nil _)) (by decide +kernel)

theorem second_run_misnames_boundary :
    Run (nextBackfill plainIsoformat "USD_IRT") (fun _ _ ↦ True) oneLiveRow
      [firstPage, secondPage] afterSecond ∧
    storedBars oneLiveRow.prices "USD_IRT" = [] ∧ storedBars afterSecond.prices "USD_IRT" ≠ [] ∧
    ¬Described plainIsoformat afterSecond "USD_IRT" := by
  have hstored : storedBars afterSecond.prices "USD_IRT" ≠ [] := by decide +kernel
  have hsource : (afterSecond.register.lookup "USD_IRT").map SpliceRecord.liveSource =
      some historySource := by decide +kernel
  refine ⟨.cons trivial rfl (.cons trivial rfl (.nil _)), by decide +kernel, hstored, ?_⟩
  obtain ⟨record, hlookup, hlive⟩ := Option.map_eq_some_iff.mp hsource
  exact Misnamed.not_described ⟨hstored, record, hlookup, hlive⟩

end Example

end TalaPala.Prices
