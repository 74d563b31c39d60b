import TalaPala.Economic.EditionOrder

namespace TalaPala.Economic

open Library Library.Transition List

section Guarantees

structure CbiRun.Contiguous (s : CbiRun) : Prop where
  blank : s.first = none → ∀ e, ¬ s.db.Stores e
  segment : ∀ first ∈ s.first, ∃ stored, stored <+: s.listed.filter (fun e ↦ first ≤ e) ∧
    ∀ e, s.db.Stores e ↔ e ∈ stored

structure CbiRun.AvailableInOrder (s : CbiRun) : Prop where
  sources : ∀ r ∈ s.db.rows, ∃ e, s.db.editionOf r = some e ∧ s.db.Stores e
  monotone : ∀ r ∈ s.db.rows, ∀ r' ∈ s.db.rows, ∀ e e', s.db.editionOf r = some e →
    s.db.editionOf r' = some e' → e < e' → r.availableAt ≤ r'.availableAt

structure CbiRun.ServesNewest (s : CbiRun) (code : CbiCode) (start : Date) : Prop where
  blank : s.db.current (.cbi code) start = none →
    ∀ copy ∈ s.copies, ∀ point ∈ copy.observations code, point.start ≠ start
  newest : ∀ row ∈ s.db.current (.cbi code) start, ∃ front copy back,
    s.copies = front ++ copy :: back ∧
      (∃ point ∈ copy.observations code, point.start = start ∧
        valuesEqual row.value (.finite point.value) = true ∧ row.method = point.method) ∧
      (∀ other ∈ front, other.edition ≤ copy.edition) ∧
      ∀ other ∈ back, ∀ point ∈ other.observations code, point.start ≠ start

structure CbiRun.Served (s : CbiRun) : Prop where
  copies : ∀ e, s.db.Stores e ↔ ∃ copy ∈ s.copies, copy.edition = e
  contiguous : s.Contiguous
  available : s.AvailableInOrder
  newest : ∀ code start, s.ServesNewest code start

variable {files : String → Except String EditionFile} {s : CbiRun} {run : WebsiteRun}

theorem CbiRun.Inv.contiguous (h : s.Inv files) : s.Contiguous where
  blank hnone e := by
    rintro hstores
    obtain ⟨p, hp, -⟩ := (h.kept.stored e).mp hstores
    rw [h.started.mp hnone] at hp
    cases hp
  segment first hfirst := by
    obtain ⟨newest, hnewest, -, -, hmax⟩ := h.exists_newest hfirst
    obtain ⟨top, htop, htop_eq⟩ := (h.kept.stored newest).mp (mem_newestStoredEdition hnewest).1
    have hascending := h.ascending.sublist (filter_sublist (p := fun e ↦ first ≤ e))
    refine ⟨_, takeWhile_prefix (fun e ↦ decide (e ≤ newest)), fun e ↦ ?_⟩
    rw [h.kept.stored, h.segment first hfirst, mem_takeWhile_le hascending, mem_filter,
      decide_eq_true_eq, and_assoc]
    refine and_congr_right (fun _ ↦ and_congr_right (fun _ ↦ ⟨?_, fun hle ↦ ?_⟩))
    · rintro ⟨p, hp, hle⟩
      exact hle.trans (hmax p hp)
    · exact ⟨top, htop, htop_eq ▸ hle⟩

theorem Kept.availableInOrder (h : Kept files s.db s.copies s.time) : s.AvailableInOrder where
  sources r hr := by
    obtain ⟨e, he⟩ := h.sources r hr
    obtain ⟨d, hd, hlabel⟩ := Option.bind_eq_some_iff.mp he
    obtain ⟨id, -, hget⟩ := Option.bind_eq_some_iff.mp hd
    have hmem := mem_of_getElem? hget
    obtain ⟨hedition, file, -, hmonthly⟩ := h.catalogued d hmem
    rw [hmonthly] at hlabel
    obtain rfl := Option.some.inj hlabel
    exact ⟨_, he, d, hmem, hedition, hmonthly⟩
  monotone := h.monotone

theorem lastPrint_singleton_eq_none {copy : ParsedEdition} {code : CbiCode} {start : Date}
    (h : lastPrint [copy] code start = none) :
    ∀ point ∈ copy.observations code, point.start ≠ start := by
  rw [lastPrint, flatMap_singleton] at h
  exact fun point hpoint ↦ of_decide_eq_false (lastOf_eq_none.mp h point hpoint)

theorem Kept.servesNewest (h : Kept files s.db s.copies s.time) (code : CbiCode) (start : Date) :
    s.ServesNewest code start := by
  have hserved : ∀ point, lastPrint s.copies code start = some point →
      ∃ row, s.db.current (.cbi code) start = some row ∧
        valuesEqual row.value (.finite point.value) = true ∧ row.method = point.method :=
    fun point hpoint ↦ h.served code start point hpoint
  constructor
  · intro hnone copy hcopy point hpoint hstart
    cases hlast : lastPrint s.copies code start with
    | none =>
      have hno := lastOf_eq_none.mp hlast point (mem_flatMap.mpr ⟨copy, hcopy, hpoint⟩)
      exact of_decide_eq_false hno hstart
    | some p =>
      obtain ⟨row, hrow, -⟩ := hserved p hlast
      rw [hnone] at hrow
      cases hrow
  · intro row hrow
    have hrow : s.db.current (.cbi code) start = some row := hrow
    cases hlast : lastPrint s.copies code start with
    | none =>
      rw [Database.current, h.blank code start hlast] at hrow
      cases hrow
    | some p =>
      obtain ⟨row', hrow', hvalue, hmethod⟩ := hserved p hlast
      obtain rfl := Option.some.inj (hrow.symm.trans hrow')
      obtain ⟨front, copy, back, hcopies, hp, hback⟩ := lastOf_flatMap hlast
      obtain ⟨hmem, hstart⟩ := mem_of_lastOf hp
      have hsorted := h.sorted
      rw [hcopies] at hsorted
      refine ⟨front, copy, back, hcopies, ⟨p, hmem, of_decide_eq_true hstart, hvalue, hmethod⟩,
        fun other hother ↦ ?_, fun other hother ↦ ?_⟩
      · exact (pairwise_append.mp hsorted).2.2 other hother copy mem_cons_self
      · refine lastPrint_singleton_eq_none ?_
        rw [lastPrint, flatMap_singleton]
        exact hback other hother

theorem CbiRun.Inv.holds (h : s.Inv files) : s.Served where
  copies := h.kept.stored
  contiguous := h.contiguous
  available := h.kept.availableInOrder
  newest := h.kept.servesNewest

end Guarantees

section Moments

def WebsiteRun.interruptedAt (run : WebsiteRun) (edition : Edition) : WebsiteRun :=
  { run with interrupted := fun e ↦ decide (e = edition) || run.interrupted e }

variable {files : String → Except String EditionFile} {s : CbiRun} {run : WebsiteRun}
  {links done rest : List Edition} {e : Edition}

theorem ingest_interruptedAt (session : Session) {e' : Edition} (hne : e' ≠ e) :
    Session.ingest files (run.interruptedAt e) session e' = Session.ingest files run session e' := by
  have hsame : (run.interruptedAt e).interrupted e' = run.interrupted e' := by
    simp [WebsiteRun.interruptedAt, hne]
  have hlink : ingestLink files (run.interruptedAt e) session.working e' =
      ingestLink files run session.working e' := by
    rw [ingestLink, ingestLink, hsame]
    rfl
  rw [Session.ingest, Session.ingest, hlink]
  rfl

theorem ingest_interruptedAt_self (session : Session) :
    ∃ failure, Session.ingest files (run.interruptedAt e) session e = .error failure := by
  have hlink : ∃ failure, ingestLink files (run.interruptedAt e) session.working e =
      .error failure := by
    rw [ingestLink]
    split
    · exact ⟨_, rfl⟩
    · exact ⟨_, if_pos (by simp [WebsiteRun.interruptedAt])⟩
  obtain ⟨failure, hfailure⟩ := hlink
  exact ⟨failure, by rw [Session.ingest, hfailure]⟩

theorem committed_of_interruptedAt (hlinks : runLinks s.db run = .ok (done ++ e :: rest)) :
    (s.after files (run.interruptedAt e)).db =
      (workThrough (Session.ingest files run) ⟨s.db, s.db⟩ done).1.committed := by
  have hlinks' : runLinks s.db (run.interruptedAt e) = .ok (done ++ e :: rest) := hlinks
  have hascending := runLinks_ascending hlinks
  rw [CbiRun.after, ingestCbiMonetary, hlinks']
  dsimp only
  have hsame : ∀ b ∈ done, ∀ session, Session.ingest files (run.interruptedAt e) session b =
      Session.ingest files run session b := fun b hb session ↦
    ingest_interruptedAt session (lt_of_append hascending hb mem_cons_self).ne
  rw [workThrough_cut hsame ingest_interruptedAt_self]

structure CbiRun.GoesOn (files : String → Except String EditionFile) (s : CbiRun)
    (run : WebsiteRun) : Prop where
  moments : ∀ done e rest, runLinks s.db run = .ok (done ++ e :: rest) → ∃ t : CbiRun, t.Served ∧
    t.db = (workThrough (Session.ingest files run) ⟨s.db, s.db⟩ done).1.committed ∧
    t.listed = run.site.excelEditions ∧ ∀ first ∈ s.first, t.first = some first
  tries : ∀ links, runLinks s.db run = .ok links → ∀ first ∈ s.first,
    links.find? (fun e ↦ ¬ s.db.Stores e) =
      (run.site.excelEditions.filter (fun e ↦ first ≤ e)).find? (fun e ↦ ¬ s.db.Stores e)
  trial : run.dryRun = true → (s.after files run).db = s.db ∧
    (ingestCbiMonetary files s.db run).map Prod.snd =
      (ingestCbiMonetary files s.db { run with dryRun := false }).map Prod.snd

theorem after_listed {links : List Edition} (hlinks : runLinks s.db run = .ok links) :
    (s.after files run).listed = run.site.excelEditions := by
  rw [CbiRun.after, ingestCbiMonetary, hlinks]

theorem after_first {first : Edition} (hfirst : s.first = some first) :
    (s.after files run).first = some first := by
  rw [CbiRun.after]
  split
  · exact hfirst
  · exact firstAfter_of_some hfirst _

theorem CbiRun.Inv.goesOn (h : s.Inv files) (hfollows : s.Follows run) (hresumes : s.Resumes run) :
    s.GoesOn files run where
  moments done e rest hlinks := by
    have hcut : s.Follows (run.interruptedAt e) :=
      ⟨hfollows.gains, hfollows.clock_ge, hfollows.clock_le, hfollows.clock_mono⟩
    have hlinks' : runLinks s.db (run.interruptedAt e) = .ok (done ++ e :: rest) := hlinks
    exact ⟨_, (h.after hcut hresumes).holds, committed_of_interruptedAt hlinks,
      after_listed hlinks', fun first hfirst ↦ after_first hfirst⟩
  tries links hlinks first hfirst := by
    rw [← head?_filter, ← head?_filter, h.tries hfollows hresumes hlinks hfirst]
  trial hdry := by
    constructor
    · rw [CbiRun.after]
      split
      · rfl
      · rename_i db report hingest
        exact dry_run_store hdry hingest
    · have hreports := dry_run_reports files s.db run
      rwa [← hdry] at hreports

/-- When no backfill asks beyond an edition that is listed and not stored, none is
skipped: the store is a segment of the list at every moment, and the next run goes on at
its end. -/
theorem no_edition_skipped {time : Instant} {runs : List WebsiteRun}
    (hruns : Run (fun s run ↦ some (s.after files run)) (fun s run ↦ s.Follows run ∧ s.Resumes run)
      (CbiRun.initial time) runs s) :
    s.Served ∧ ∀ run, s.Follows run → s.Resumes run → s.GoesOn files run := by
  have hinv : s.Inv files := by
    refine hruns.preserves (fun s run t hs hok hnext ↦ ?_) (.initial time)
    obtain rfl := Option.some.inj hnext
    exact hs.after hok.1 hok.2
  exact ⟨hinv.holds, fun run hfollows hresumes ↦ hinv.goesOn hfollows hresumes⟩

end Moments

section Example

def springFiles (sha256 : String) : Except String EditionFile :=
  if sha256 = "1399-04" then .ok ⟨firstSpringEdition, 1024, none⟩
  else if sha256 = "1399-05" then
    .ok ⟨springEdition 5 (by norm_num) 20 (by norm_num), 1024, none⟩
  else if sha256 = "1399-06" then
    .ok ⟨springEdition 6 (by norm_num) 30 (by norm_num), 1024, none⟩
  else .error "not an OLE2 file"

def springSite : CbiSite where
  sectionFailure := none
  years := [
    { year := 1399
      months := [⟨⟨1399, 4⟩, true⟩, ⟨⟨1399, 5⟩, true⟩, ⟨⟨1399, 6⟩, true⟩]
      failure := none
      of_year := by decide
      ascending := by decide }]
  ascending := pairwise_singleton _ _
  download e := .ok ⟨"https://www.cbi.ir/file/", "spring.xls", periodLabel e.year e.month⟩

def springRun (mode : RunMode) (interrupted : Bool) : WebsiteRun where
  site := springSite
  mode := mode
  dryRun := false
  switchedOff := false
  clock _ := 0
  finished := 0
  interrupted e := interrupted && decide (e = ⟨1399, 5⟩)

def backfillStopped : WebsiteRun := springRun (.backfill (some ⟨1399, 4⟩)) true

def stoppedState : CbiRun := (CbiRun.initial 0).after springFiles backfillStopped

theorem springRun_follows {s : CbiRun} {mode : RunMode} {interrupted : Bool}
    (hlisted : s.listed <+: springSite.excelEditions) (htime : s.time ≤ 0) :
    s.Follows (springRun mode interrupted) :=
  ⟨hlisted, fun _ ↦ htime, fun _ ↦ le_rfl, fun _ _ _ ↦ le_rfl⟩

theorem stoppedState_listed : stoppedState.listed = springSite.excelEditions ∧
    stoppedState.time = 0 := by decide +kernel

/-- A backfill that stopped is taken up by the scheduled run. -/
theorem no_edition_skipped_resumed :
    ((stoppedState.after springFiles (springRun .fetchLatest false)).db.Stores ⟨1399, 6⟩) ∧
      (stoppedState.after springFiles (springRun .fetchLatest false)).Served := by
  have hrun : Run (fun s run ↦ some (s.after springFiles run))
      (fun s run ↦ s.Follows run ∧ s.Resumes run) (CbiRun.initial 0)
      [backfillStopped, springRun .fetchLatest false]
      (stoppedState.after springFiles (springRun .fetchLatest false)) := by
    refine .cons ⟨?_, ?_⟩ rfl (.cons ⟨?_, ?_⟩ rfl (.nil _))
    · exact springRun_follows List.nil_prefix le_rfl
    · rintro start - newest hnewest
      cases hnewest
    · obtain ⟨hlisted, htime⟩ := stoppedState_listed
      exact springRun_follows (hlisted ▸ prefix_rfl) htime.le
    · rintro start hmode
      cases hmode
  exact ⟨by decide +kernel, (no_edition_skipped hrun).1⟩

/-- A second backfill that asks for a later edition passes over the one that
failed: it is older than a stored one from then on. -/
theorem later_backfill_skips :
    (CbiRun.initial 0).Follows backfillStopped ∧
      stoppedState.Follows (springRun (.backfill (some ⟨1399, 6⟩)) false) ∧
      ¬ (stoppedState.after springFiles
        (springRun (.backfill (some ⟨1399, 6⟩)) false)).Contiguous := by
  obtain ⟨hlisted, htime⟩ := stoppedState_listed
  refine ⟨springRun_follows nil_prefix le_rfl,
    springRun_follows (hlisted ▸ prefix_rfl) htime.le, fun h ↦ ?_⟩
  obtain ⟨stored, hprefix, hstored⟩ := h.segment ⟨1399, 4⟩ (by decide +kernel)
  have hlist : (stoppedState.after springFiles
      (springRun (.backfill (some ⟨1399, 6⟩)) false)).listed.filter
        (fun e ↦ (⟨1399, 4⟩ : Edition) ≤ e) = [⟨1399, 4⟩, ⟨1399, 5⟩, ⟨1399, 6⟩] := by
    decide +kernel
  rw [hlist] at hprefix
  have hlast : (⟨1399, 6⟩ : Edition) ∈ stored := (hstored _).mp (by decide +kernel)
  have hgap : (⟨1399, 5⟩ : Edition) ∉ stored := fun hmem ↦
    absurd ((hstored _).mpr hmem) (by decide +kernel)
  obtain ⟨rest, hsplit⟩ := hprefix
  have hrest : (⟨1399, 5⟩ : Edition) ∈ rest := by
    refine (mem_append.mp (hsplit ▸ ?_)).resolve_left hgap
    decide
  have hlt := lt_of_append (hsplit ▸ (by decide)) hlast hrest
  exact absurd hlt (by decide)

end Example

end TalaPala.Economic
