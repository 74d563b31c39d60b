import TalaPala.Prices.SpliceRegister

namespace TalaPala.Prices

open News (Text)
open List

section RawRows

def backfillSlugMap : List (String × String × String) :=
  [("geram18", "IRR/gram", "IRR"), ("sekee", "IRR/coin", "IRR"), ("price_dollar_rl", "IRR/usd", "IRR")]

inductive PayloadValue
  | text (value : Text)
  | number (value : ℚ)

/-- A row of `raw_observations`. -/
structure RawObservation where
  providerCode : String
  symbol : String
  rawValue : ℚ
  unit : String
  currency : String
  rawPayload : List (String × PayloadValue)
  observedAt : Instant
  collectedAt : Instant
  quality : Quality
  dedupeKey : Text

def backfillProviderCode : String := "tgju"

variable (iso : Isoformat)

def Bar.dedupeKey (symbol : String) (bar : Bar) : Text :=
  backfillProviderCode.toList ++ '|' :: symbol.toList ++ "|history|".toList ++ iso.date bar.day

def Bar.rawObservation (symbol : String) (now : Instant) (bar : Bar) : RawObservation :=
  let slug := (backfillSlugs.lookup symbol).getD ""
  let (rawUnit, rawCurrency) := (backfillSlugMap.lookup slug).getD ("", "")
  { providerCode := backfillProviderCode
    symbol := symbol
    rawValue := bar.rawClose
    unit := rawUnit
    currency := rawCurrency
    rawPayload := [("slug", .text slug.toList), ("kind", .text "history_backfill".toList),
      ("bar_date", .text (iso.date bar.day)),
      ("availability_utc", .text (iso.time (closeStamp bar.day))),
      ("normalization", .text "rial_to_toman".toList), ("normalized_value", .number bar.value),
      ("normalized_currency", .text ((symbolMeta.lookup symbol).getD ("", "")).1.toList)]
    observedAt := closeStamp bar.day
    collectedAt := now
    quality := .ok
    dedupeKey := bar.dedupeKey iso symbol }

/-- `insert_ignore` into `raw_observations`. -/
def insertRawIgnore (raw : List RawObservation) (row : RawObservation) : List RawObservation :=
  if raw.any (fun r ↦ r.dedupeKey = row.dedupeKey) then raw else raw ++ [row]

structure BackfillTables extends MarketData where
  raw : List RawObservation

/-- A run with the rows that it writes to `raw_observations` in the same transaction, and
how many were inserted. -/
def backfillTables (db : BackfillTables) (symbol : String) (run : BackfillRun) :
    BackfillTables × BackfillOutcome × ℕ :=
  let (written, outcome) := backfillSymbol iso db.toMarketData symbol run
  match planBackfill iso db.prices symbol run with
  | .error _ => (⟨written, db.raw⟩, outcome, 0)
  | .ok plan =>
    if run.dryRun then (⟨written, db.raw⟩, outcome, 0)
    else if run.commits then
      let raw := (plan.bars.map (Bar.rawObservation iso symbol run.now)).foldl insertRawIgnore db.raw
      (⟨written, raw⟩, outcome, raw.length - db.raw.length)
    else (⟨written, db.raw⟩, outcome, 0)

def BackfillOutcome.isOk : BackfillOutcome → Bool
  | .ok _ _ _ => true
  | _ => false

end RawRows

section Inserts

theorem foldl_insertRawIgnore (rows raw : List RawObservation) :
    ∃ inserted, rows.foldl insertRawIgnore raw = raw ++ inserted ∧ inserted.Sublist rows := by
  induction rows generalizing raw with
  | nil => exact ⟨[], by simp, .slnil⟩
  | cons row rest ih =>
    rw [foldl_cons, insertRawIgnore]
    split_ifs
    · obtain ⟨inserted, heq, hsub⟩ := ih raw
      exact ⟨inserted, heq, hsub.cons row⟩
    · obtain ⟨inserted, heq, hsub⟩ := ih (raw ++ [row])
      exact ⟨row :: inserted, by rw [heq, append_assoc]; rfl, hsub.cons_cons row⟩

theorem lookup_others {α : Type*} {symbol other : String} (h : other ≠ symbol)
    (register : List (String × α)) :
    (register.filter (fun e ↦ e.1 ≠ symbol)).lookup other = register.lookup other := by
  induction register with
  | nil => rfl
  | cons entry rest ih =>
    obtain ⟨key, value⟩ := entry
    rw [filter_cons]
    by_cases hkey : key = symbol
    · have hother : (other == key) = false := by simpa [hkey] using h
      rw [if_neg (by simp [hkey]), ih, lookup_cons, hother]
    · rw [if_pos (by simp [hkey]), lookup_cons, lookup_cons, ih]

end Inserts

section Rows

variable {cutoff : Date} {pairs : List (Date × ℚ)} {seen : List Date} {skips : Skips}

theorem eligible_mem {bar : Bar} (h : bar ∈ (eligible cutoff pairs seen skips).1) :
    bar.day ∈ pairs.map Prod.fst := by
  induction pairs generalizing seen skips with
  | nil => cases h
  | cons pair rest ih =>
    obtain ⟨day, rawClose⟩ := pair
    rw [eligible] at h
    rw [map_cons]
    split_ifs at h
    · exact mem_cons_of_mem _ (ih h)
    · exact mem_cons_of_mem _ (ih h)
    · exact mem_cons_of_mem _ (ih h)
    · rcases mem_cons.mp h with rfl | h
      · exact mem_cons_self
      · exact mem_cons_of_mem _ (ih h)

theorem eligible_covers {pair : Date × ℚ} (hpair : pair ∈ pairs) (hpositive : 0 < pair.2)
    (hbefore : pair.1 < cutoff) :
    pair.1 ∈ seen ∨ ∃ bar ∈ (eligible cutoff pairs seen skips).1, bar.day = pair.1 := by
  induction pairs generalizing seen skips with
  | nil => cases hpair
  | cons first rest ih =>
    obtain ⟨day, rawClose⟩ := first
    rw [eligible]
    rcases mem_cons.mp hpair with rfl | hpair
    · rw [if_neg (not_le.mpr hpositive), if_neg (not_le.mpr hbefore)]
      by_cases hseen : day ∈ seen
      · exact .inl hseen
      · rw [if_neg hseen]
        exact .inr ⟨_, mem_cons_self, rfl⟩
    · split_ifs with hclose hcutoff hseen
      · exact ih hpair
      · exact ih hpair
      · exact ih hpair
      · rcases @ih (day :: seen) skips hpair with hmem | ⟨bar, hbar, heq⟩
        · rcases mem_cons.mp hmem with heq | hmem
          · exact .inr ⟨_, mem_cons_self, heq.symm⟩
          · exact .inl hmem
        · exact .inr ⟨bar, mem_cons_of_mem _ hbar, heq⟩

theorem eligible_of_covered (hcovered : ∀ pair ∈ pairs, 0 < pair.2 → cutoff ≤ pair.1) :
    (eligible cutoff pairs seen skips).1 = [] ∧
      (eligible cutoff pairs seen skips).2.atOrAfterCutoff =
        skips.atOrAfterCutoff + pairs.countP (fun pair ↦ decide (0 < pair.2)) := by
  induction pairs generalizing skips with
  | nil => exact ⟨rfl, rfl⟩
  | cons pair rest ih =>
    obtain ⟨day, rawClose⟩ := pair
    obtain ⟨hfirst, hrest⟩ := forall_mem_cons.mp hcovered
    rw [eligible, countP_cons]
    by_cases hclose : rawClose ≤ 0
    · rw [if_pos hclose, if_neg (by simpa using hclose)]
      exact ih hrest
    · have hpositive := not_le.mp hclose
      rw [if_neg hclose, if_pos (hfirst hpositive), if_pos (by simpa using hpositive)]
      obtain ⟨hnil, hcount⟩ :=
        @ih { skips with atOrAfterCutoff := skips.atOrAfterCutoff + 1 } hrest
      refine ⟨hnil, hcount.trans ?_⟩
      dsimp only
      omega

theorem mem_rowsToWrite {cutoff : Instant} {bar : Bar} :
    bar ∈ (rowsToWrite pairs cutoff).1 ↔
      bar ∈ (eligible (utcDate cutoff) pairs [] ⟨0, 0, 0⟩).1 :=
  (perm_insertionSort (fun a b : Bar ↦ a.day ≤ b.day) _).mem_iff

theorem rowsToWrite_of_covered {cutoff : Instant}
    (hcovered : ∀ pair ∈ pairs, 0 < pair.2 → utcDate cutoff ≤ pair.1) :
    (rowsToWrite pairs cutoff).1 = [] ∧ (rowsToWrite pairs cutoff).2.atOrAfterCutoff =
      pairs.countP (fun pair ↦ decide (0 < pair.2)) := by
  obtain ⟨hnil, hcount⟩ := @eligible_of_covered _ pairs [] ⟨0, 0, 0⟩ hcovered
  refine ⟨?_, hcount.trans (Nat.zero_add _)⟩
  change (eligible (utcDate cutoff) pairs [] ⟨0, 0, 0⟩).1.insertionSort
    (fun a b : Bar ↦ a.day ≤ b.day) = []
  rw [hnil]
  rfl

end Rows

section Rerun

variable {iso : Isoformat} {prices : List PriceRow} {symbol : String} {run : BackfillRun}
  {plan : BackfillPlan} {anchor : LiveAnchor} {page : HistoryPage} {first last : Bar}

def Trusted (ignoreSources : List String) (row : PriceRow) : Prop :=
  row.quality = .ok ∧ 0 < row.value ∧ row.source ∉ untrustedAnchorSources ++ ignoreSources

instance (ignoreSources : List String) (row : PriceRow) : Decidable (Trusted ignoreSources row) :=
  inferInstanceAs (Decidable (_ ∧ _ ∧ _))

def trustedRows (prices : List PriceRow) (symbol : String) (ignoreSources : List String) :
    List PriceRow :=
  (symbolRows prices symbol).filter (fun row ↦ Trusted ignoreSources row)

theorem liveAnchor_reference {oldestFirst : OldestFirst} {ignoreSources : List String}
    (h : liveAnchor oldestFirst prices symbol ignoreSources = some anchor) :
    anchor.reference = (oldestFirst.pick (trustedRows prices symbol ignoreSources)).map
      (fun r ↦ (r.observedAt, r.value, r.source)) := by
  obtain ⟨oldest, -, rfl⟩ := Option.map_eq_some_iff.mp h
  dsimp only
  rw [trustedRows]
  congr 3
  funext row
  simp [Trusted, Bool.and_assoc]

theorem GuardsPass.joins (h : GuardsPass iso prices symbol run plan anchor page first last) :
    ∃ reference, Oldest (trustedRows prices symbol run.ignoreSources) reference ∧
      (checkJoin last reference.observedAt reference.value).ok = true := by
  obtain ⟨referenceAt, referenceValue, source, hreference, hjoin⟩ := h.joined
  rw [liveAnchor_reference h.anchored] at hreference
  obtain ⟨reference, hpick, heq⟩ := Option.map_eq_some_iff.mp hreference
  simp only [Prod.mk.injEq] at heq
  obtain ⟨rfl, rfl, -⟩ := heq
  exact ⟨reference, ⟨run.oldestFirst.mem _ _ hpick, run.oldestFirst.least _ _ hpick⟩, hjoin⟩

theorem trustedRows_append (prices : List PriceRow) (symbol : String)
    (ignoreSources : List String) (bars : List Bar) :
    trustedRows (prices ++ bars.map (Bar.priceRow symbol)) symbol ignoreSources =
      trustedRows prices symbol ignoreSources := by
  rw [trustedRows, symbolRows_append, filter_append, ← trustedRows]
  refine (congrArg _ (filter_eq_nil_iff.mpr (fun row hrow ↦ ?_))).trans (append_nil _)
  obtain ⟨bar, -, rfl⟩ := mem_map.mp hrow
  rw [decide_eq_true_eq]
  rintro ⟨-, -, hsource⟩
  exact hsource (by simp [Bar.priceRow, untrustedAnchorSources])

theorem GuardsPass.cutoff_after
    (h : GuardsPass iso prices symbol run plan anchor page first last) {rows : List PriceRow}
    (hrows : rows = symbolRows (prices ++ plan.bars.map (Bar.priceRow symbol)) symbol)
    {oldest : PriceRow} (holdest : Oldest rows oldest) : utcDate oldest.observedAt = first.day := by
  obtain ⟨before, hbefore, hcutoff, -⟩ := liveAnchor_oldest h.anchored
  have hascending := rowsToWrite_ascending page.rows anchor.cutoff
  rw [← h.bars] at hascending
  obtain ⟨hfirst, -, hbounds⟩ := hascending.bounds h.opens h.closes
  rw [symbolRows_append] at hrows
  subst hrows
  have hmem : first.priceRow symbol ∈ plan.bars.map (Bar.priceRow symbol) :=
    mem_map_of_mem hfirst
  have hle := holdest.least _ (mem_append_right _ hmem)
  rcases mem_append.mp holdest.mem with hold | hnew
  · have hlt := hascending.stamp_lt hmem
    rw [hcutoff] at hlt
    exact absurd (hbefore.least _ hold) (not_le.mpr (lt_of_le_of_lt hle hlt))
  · obtain ⟨bar, hbar, rfl⟩ := mem_map.mp hnew
    have hday : ¬closeStamp first.day < closeStamp bar.day := not_lt.mpr hle
    rw [closeStamp_lt_iff, not_lt] at hday
    rw [show utcDate (bar.priceRow symbol).observedAt = bar.day from utcDate_closeStamp bar.day]
    exact le_antisymm hday (hbounds bar hbar).1

theorem GuardsPass.covered (h : GuardsPass iso prices symbol run plan anchor page first last)
    {pair : Date × ℚ} (hpair : pair ∈ page.rows) (hpositive : 0 < pair.2) :
    first.day ≤ pair.1 := by
  have hascending := rowsToWrite_ascending page.rows anchor.cutoff
  rw [← h.bars] at hascending
  obtain ⟨hfirst, -, hbounds⟩ := hascending.bounds h.opens h.closes
  rcases lt_or_ge pair.1 (utcDate anchor.cutoff) with hbefore | hafter
  · have hcovers := @eligible_covers _ _ [] ⟨0, 0, 0⟩ pair hpair hpositive hbefore
    rcases hcovers with hseen | ⟨bar, hbar, heq⟩
    · cases hseen
    · rw [← heq]
      exact (hbounds bar (h.bars ▸ mem_rowsToWrite.mpr hbar)).1
  · exact (hascending.before first hfirst).le.trans hafter

theorem plausibleDate_later {today later : Instant} (hlater : today ≤ later) {day : Date}
    (h : plausibleDate today day = true) : plausibleDate later day = true := by
  rw [plausibleDate, Bool.and_eq_true, decide_eq_true_eq, decide_eq_true_eq] at h ⊢
  have hday : utcDate today ≤ utcDate later := Int.ediv_le_ediv (by norm_num [dayMicros]) hlater
  exact ⟨h.1, h.2.trans (add_le_add_left hday _)⟩

theorem barDateError_eq_none {today : Instant} {pairs : List (Date × ℚ)} :
    barDateError today pairs = none ↔ ∀ day ∈ pairs.map Prod.fst, plausibleDate today day = true := by
  rw [barDateError]
  split_ifs with hbad
  · simpa using hbad
  · simpa using hbad

theorem GuardsPass.rerun (h : GuardsPass iso prices symbol run plan anchor page first last)
    {rerun : BackfillRun} (hpage : rerun.page = run.page)
    (hignore : rerun.ignoreSources = run.ignoreSources) (hlater : run.today ≤ rerun.today) :
    ∃ skips, planBackfill iso (prices ++ plan.bars.map (Bar.priceRow symbol)) symbol rerun =
      .error (if ∀ pair ∈ page.rows, 0 < pair.2 then .upToDate
        else .refused (.nothingEligible skips)) := by
  obtain ⟨reference, hreference, -⟩ := h.joins
  have hascending := rowsToWrite_ascending page.rows anchor.cutoff
  rw [← h.bars] at hascending
  have hfirst := (hascending.bounds h.opens h.closes).1
  rw [planBackfill, if_neg h.known]
  cases hanchor : liveAnchor rerun.oldestFirst (prices ++ plan.bars.map (Bar.priceRow symbol)) symbol
    rerun.ignoreSources with
  | none =>
    refine absurd (Option.map_eq_none_iff.mp hanchor)
      (Option.isSome_iff_ne_none.mp (rerun.oldestFirst.found _ ?_))
    rw [symbolRows_append]
    exact append_ne_nil_of_right_ne_nil _ (ne_nil_of_mem (mem_map_of_mem hfirst))
  | some anchor' =>
    obtain ⟨oldest, holdest, hcutoff, -⟩ := liveAnchor_oldest hanchor
    have hday : utcDate anchor'.cutoff = first.day := by
      rw [hcutoff]
      exact h.cutoff_after rfl holdest
    have hjoined := liveAnchor_reference hanchor
    rw [trustedRows_append, hignore] at hjoined
    obtain ⟨picked, hpicked⟩ := Option.isSome_iff_exists.mp
      (rerun.oldestFirst.found _ (ne_nil_of_mem hreference.mem))
    rw [hpicked, Option.map_some] at hjoined
    have hdates := barDateError_eq_none.mp h.dated
    have hplausible := plausibleDate_later hlater
      (hdates first.day (eligible_mem (mem_rowsToWrite.mp (h.bars ▸ hfirst))))
    have hdated : barDateError rerun.today page.rows = none :=
      barDateError_eq_none.mpr (fun day hmem ↦ plausibleDate_later hlater (hdates day hmem))
    dsimp only
    rw [hjoined]
    dsimp only
    rw [hday, hplausible, Bool.not_true, if_neg Bool.false_ne_true, hpage, h.fetched]
    dsimp only
    rw [h.whole, hdated, Option.or_none]
    have hcovered : ∀ pair ∈ page.rows, 0 < pair.2 → utcDate anchor'.cutoff ≤ pair.1 :=
      fun pair hpair hpositive ↦ hday ▸ h.covered hpair hpositive
    obtain ⟨hnil, hcount⟩ := rowsToWrite_of_covered hcovered
    generalize rowsToWrite page.rows anchor'.cutoff = written at hnil hcount ⊢
    obtain ⟨kept, skips⟩ := written
    dsimp only at hnil hcount
    subst hnil
    refine ⟨skips, ?_⟩
    dsimp only [head?_nil]
    have hall : (page.rows ≠ [] ∧ skips.atOrAfterCutoff = page.rows.length) ↔
        ∀ pair ∈ page.rows, 0 < pair.2 := by
      rw [hcount, countP_eq_length]
      simp only [decide_eq_true_eq]
      refine and_iff_right (fun hempty ↦ ?_)
      have hmem := eligible_mem (mem_rowsToWrite.mp (h.bars ▸ hfirst))
      rw [hempty] at hmem
      cases hmem
    by_cases hpositive : ∀ pair ∈ page.rows, 0 < pair.2
    · rw [if_pos hpositive, if_pos (hall.mpr hpositive)]
    · rw [if_neg hpositive, if_neg (fun hrow ↦ hpositive (hall.mp hrow))]

end Rerun

section Writes

variable {iso : Isoformat} {db after : BackfillTables} {symbol : String} {run : BackfillRun}
  {outcome : BackfillOutcome} {rawInserted : ℕ}

structure Gap (db : MarketData) (symbol : String) (ignoreSources : List String)
    (rows : List PriceRow) (raws : List RawObservation) : Prop where
  before : ∃ oldest, Oldest (symbolRows db.prices symbol) oldest ∧
    (∀ row ∈ rows, row.symbol = symbol ∧ utcDate row.observedAt < utcDate oldest.observedAt) ∧
    ∀ raw ∈ raws, raw.symbol = symbol ∧ utcDate raw.observedAt < utcDate oldest.observedAt
  onePerDay : rows.Pairwise (fun a b ↦ utcDate a.observedAt < utcDate b.observedAt)
  rawsOnePerDay : raws.Pairwise (fun a b ↦ utcDate a.observedAt < utcDate b.observedAt)
  coherent : rows.IsChain WithinTolerance
  joined : ∃ last reference, rows.getLast? = some last ∧
    Oldest (trustedRows db.prices symbol ignoreSources) reference ∧
    |reference.value - last.value| / last.value * 100 ≤
      joinThresholdPct (utcDate reference.observedAt - utcDate last.observedAt)

inductive TablesWritten (iso : Isoformat) (db : BackfillTables) (symbol : String)
    (run : BackfillRun) : BackfillTables → BackfillOutcome → Prop
  | same (outcome : BackfillOutcome) : outcome.isOk = false →
      TablesWritten iso db symbol run db outcome
  | gap (plan : BackfillPlan) (raws : List RawObservation) (inserted : ℕ) (noteUpdated : Bool) :
      planBackfill iso db.prices symbol run = .ok plan →
      raws.Sublist (plan.bars.map (Bar.rawObservation iso symbol run.now)) →
      TablesWritten iso db symbol run
        ⟨(writeSpliceRecord { db.toMarketData with
          prices := db.prices ++ plan.bars.map (Bar.priceRow symbol) } plan.splice).1,
          db.raw ++ raws⟩
        (.ok inserted plan.splice noteUpdated)

theorem planBackfill_error {prices : List PriceRow}
    (h : planBackfill iso prices symbol run = .error outcome) : outcome.isOk = false := by
  rw [planBackfill] at h
  split at h
  · cases h
    rfl
  split at h
  · cases h
    rfl
  split at h
  · cases h
    rfl
  split at h
  · cases h
    rfl
  split at h
  · cases h
    rfl
  split at h
  · cases h
    rfl
  dsimp only at h
  split at h
  · split_ifs at h <;> cases h <;> rfl
  · split_ifs at h <;> cases h <;> rfl

theorem backfillTables_of_error
    (hplan : planBackfill iso db.prices symbol run = .error outcome) :
    backfillTables iso db symbol run = (db, outcome, 0) := by
  rw [backfillTables, backfillSymbol, hplan]

theorem backfillTables_written (iso : Isoformat) (db : BackfillTables) (symbol : String)
    (run : BackfillRun) : TablesWritten iso db symbol run
      (backfillTables iso db symbol run).1 (backfillTables iso db symbol run).2.1 := by
  cases hplan : planBackfill iso db.prices symbol run with
  | error outcome =>
    rw [backfillTables_of_error hplan]
    exact .same outcome (planBackfill_error hplan)
  | ok plan =>
    rw [backfillTables, backfillSymbol, hplan]
    dsimp only
    by_cases hdry : run.dryRun
    · rw [if_pos hdry, if_pos hdry]
      exact .same _ rfl
    rw [if_neg hdry, if_neg hdry]
    by_cases hcommits : run.commits
    · rw [if_pos hcommits, if_pos hcommits, (planBackfill_planned hplan).inserted]
      obtain ⟨raws, hraws, hsub⟩ := foldl_insertRawIgnore
        (plan.bars.map (Bar.rawObservation iso symbol run.now)) db.raw
      rw [hraws]
      exact .gap plan raws _ _ hplan hsub
    · rw [if_neg hcommits, if_neg hcommits]
      exact .same _ rfl

theorem GuardsPass.gap {prices : List PriceRow} {plan : BackfillPlan} {anchor : LiveAnchor}
    {page : HistoryPage} {first last : Bar} {data : MarketData} (hprices : data.prices = prices)
    (h : GuardsPass iso prices symbol run plan anchor page first last) {raws : List RawObservation}
    (hraws : raws.Sublist (plan.bars.map (Bar.rawObservation iso symbol run.now))) :
    Gap data symbol run.ignoreSources (plan.bars.map (Bar.priceRow symbol)) raws := by
  subst hprices
  obtain ⟨oldest, holdest, hcutoff, -⟩ := liveAnchor_oldest h.anchored
  obtain ⟨reference, hreference, hjoin⟩ := h.joins
  have hascending := rowsToWrite_ascending page.rows anchor.cutoff
  rw [← h.bars, hcutoff] at hascending
  refine ⟨⟨oldest, holdest, fun row hrow ↦ ?_, fun raw hraw ↦ ?_⟩, ?_, ?_,
    coherent_of_ok hascending h.coherent symbol, ?_⟩
  · obtain ⟨bar, hbar, rfl⟩ := mem_map.mp hrow
    exact ⟨rfl, (utcDate_closeStamp bar.day).trans_lt (hascending.before bar hbar)⟩
  · obtain ⟨bar, hbar, rfl⟩ := mem_map.mp (hraws.subset hraw)
    exact ⟨rfl, (utcDate_closeStamp bar.day).trans_lt (hascending.before bar hbar)⟩
  · refine pairwise_map.mpr (hascending.ascending.imp (fun {a b} hlt ↦ ?_))
    simpa only [Bar.priceRow, utcDate_closeStamp] using hlt
  · refine (pairwise_map.mpr (hascending.ascending.imp (fun {a b} hlt ↦ ?_))).sublist hraws
    simpa only [Bar.rawObservation, utcDate_closeStamp] using hlt
  · refine ⟨last.priceRow symbol, reference, ?_, hreference, ?_⟩
    · rw [getLast?_map, h.closes, Option.map_some]
    · have hthreshold := of_decide_eq_true hjoin
      simpa only [Bar.priceRow, utcDate_closeStamp] using hthreshold

/-- A call changes no stored row, and writes everything or nothing; the next over the same
page writes nothing, and is up_to_date exactly if every close of the page is positive. -/
theorem backfill_all_or_nothing
    (h : backfillTables iso db symbol run = (after, outcome, rawInserted)) :
    db.prices <+: after.prices ∧ db.raw <+: after.raw ∧
    (outcome.isOk = false → after = db) ∧
    (outcome.isOk = true →
      (∃ rows raws, after.prices = db.prices ++ rows ∧ after.raw = db.raw ++ raws ∧
        Gap db.toMarketData symbol run.ignoreSources rows raws) ∧
      (∀ other, other ≠ symbol → after.register.lookup other = db.register.lookup other ∧
        after.notes other = db.notes other) ∧
      ∀ page rerun, run.page = some page → rerun.page = some page →
        rerun.ignoreSources = run.ignoreSources → run.today ≤ rerun.today →
        (backfillTables iso after symbol rerun).1 = after ∧
        ((∀ pair ∈ page.rows, 0 < pair.2) →
          (backfillTables iso after symbol rerun).2.1 = .upToDate) ∧
        ((∃ pair ∈ page.rows, pair.2 ≤ 0) → ∃ skips,
          (backfillTables iso after symbol rerun).2.1 = .refused (.nothingEligible skips))) := by
  have hwritten := backfillTables_written iso db symbol run
  rw [h] at hwritten
  dsimp only at hwritten
  cases hwritten with
  | same _ hnot =>
    exact ⟨prefix_rfl, prefix_rfl, fun _ ↦ rfl, fun hok ↦ absurd hok (by simp [hnot])⟩
  | gap plan raws inserted noteUpdated hplan hraws =>
    obtain ⟨anchor, page, first, last, hguards⟩ := planBackfill_guards hplan
    refine ⟨prefix_append _ _, prefix_append _ _, (fun hnot ↦ nomatch hnot),
      fun _ ↦ ⟨⟨_, raws, rfl, rfl, hguards.gap rfl hraws⟩, fun other hother ↦ ?_, ?_⟩⟩
    · have hkey : (other == symbol) = false := by simpa using hother
      rw [hguards.splice]
      refine ⟨?_, if_neg hother⟩
      rw [← lookup_others hother db.register]
      exact lookup_cons.trans (by rw [spliceRecord, hkey])
    · intro page' rerun hpage hsame hignore hlater
      obtain rfl := Option.some.inj (hguards.fetched.symm.trans hpage)
      obtain ⟨skips, hrerun⟩ := hguards.rerun (hsame.trans hpage.symm) hignore hlater
      rw [backfillTables_of_error hrerun]
      refine ⟨rfl, fun hpositive ↦ if_pos hpositive, fun hzero ↦ ⟨skips, if_neg ?_⟩⟩
      rintro hpositive
      obtain ⟨pair, hpair, hle⟩ := hzero
      exact absurd (hpositive pair hpair) (not_lt.mpr hle)

def oneLiveTables : BackfillTables := ⟨oneLiveRow, []⟩

def afterFirstPage : BackfillTables :=
  (backfillTables plainIsoformat oneLiveTables "USD_IRT" firstPage).1

theorem first_page_again :
    (backfillTables plainIsoformat afterFirstPage "USD_IRT" firstPage).2.1 = .upToDate := by
  have h : backfillTables plainIsoformat oneLiveTables "USD_IRT" firstPage =
    (afterFirstPage, _, _) := rfl
  obtain ⟨-, -, hagain⟩ := (backfill_all_or_nothing h).2.2.2 (by decide +kernel)
  refine (hagain ⟨[(19999, 10000)], 1, some 1⟩ firstPage rfl rfl rfl le_rfl).2.1 (fun pair hpair ↦ ?_)
  rw [mem_singleton.mp hpair]
  norm_num

def zeroClosePage : BackfillRun := pageRun [(19998, 0), (19999, 10000)]

def afterZeroClose : BackfillTables :=
  (backfillTables plainIsoformat oneLiveTables "USD_IRT" zeroClosePage).1

theorem zero_close_refused_again :
    (backfillTables plainIsoformat oneLiveTables "USD_IRT" zeroClosePage).2.1.isOk = true ∧
    (backfillTables plainIsoformat afterZeroClose "USD_IRT" zeroClosePage).2.1 ≠ .upToDate := by
  refine ⟨by decide +kernel, fun hagain ↦ ?_⟩
  have hnot : (match (backfillTables plainIsoformat afterZeroClose "USD_IRT" zeroClosePage).2.1 with
    | .upToDate => true
    | _ => false) = false := by decide +kernel
  rw [hagain] at hnot
  cases hnot

end Writes

end TalaPala.Prices
