import TalaPala.Economic.CbiRuns
import TalaPala.Economic.EditionStore

namespace TalaPala.Economic

open Library Library.Transition List

structure CbiRun where
  db : Database
  copies : List ParsedEdition
  first : Option Edition
  listed : List Edition
  time : Instant

def CbiRun.initial (time : Instant) : CbiRun := ⟨.empty, [], none, [], time⟩

variable (files : String → Except String EditionFile)

def WebsiteRun.copyOf (run : WebsiteRun) (edition : Edition) : Option ParsedEdition :=
  match run.site.download edition with
  | .error _ => none
  | .ok download =>
    match files download.contentSha256 with
    | .error _ => none
    | .ok file => some file.parsed

def CbiRun.firstAfter (s : CbiRun) (run : WebsiteRun) (done : List Edition) : Option Edition :=
  match s.first, done with
  | some first, _ => some first
  | none, [] => none
  | none, _ :: _ => (sinceEdition s.db run.mode).toOption

def CbiRun.after (s : CbiRun) (run : WebsiteRun) : CbiRun :=
  match ingestCbiMonetary files s.db run with
  | .error _ => { s with listed := run.site.excelEditions, time := run.finished }
  | .ok (db, report) =>
    let done := if run.dryRun then [] else report.editions.map EditionReport.edition
    { db := db
      copies := s.copies ++ done.filterMap (run.copyOf files)
      first := s.firstAfter run done
      listed := run.site.excelEditions
      time := run.finished }

structure CbiRun.Follows (s : CbiRun) (run : WebsiteRun) : Prop where
  gains : s.listed <+: run.site.excelEditions
  clock_ge : ∀ e, s.time ≤ run.clock e
  clock_le : ∀ e, run.clock e ≤ run.finished
  clock_mono : ∀ e e', e ≤ e' → run.clock e ≤ run.clock e'

def CbiRun.Resumes (s : CbiRun) (run : WebsiteRun) : Prop :=
  ∀ start, run.mode = .backfill (some start) → ∀ newest ∈ newestStoredEdition s.db,
    ∀ e ∈ run.site.excelEditions, newest < e → start ≤ e

section Reports

variable {files} {run : WebsiteRun} {db db' : Database} {edition : Edition}
  {report : EditionReport}

theorem ingestLink_ok (h : ingestLink files run db edition = .ok (db', report)) :
    ∃ download file, run.site.download edition = .ok download ∧
      files download.contentSha256 = .ok file ∧ file.parsed.edition = edition ∧
      report.edition = edition ∧ (∀ newest ∈ newestStoredEdition db, newest ≤ edition) ∧
      writeEdition.storeEdition db (run.post edition download) file = .ok (db', report) := by
  rw [ingestLink] at h
  split at h
  · cases h
  · rename_i download hdownload
    split at h
    · cases h
    · split at h
      · cases h
      · rename_i result hingest
        obtain rfl := Except.ok.inj h
        obtain ⟨file, hfile, hlisted, hnewest, hstore⟩ := ingestEditionFile_ok hingest
        have hedition : edition = file.parsed.edition := hlisted edition rfl
        refine ⟨download, file, hdownload, hfile, hedition.symm,
          (storeEdition_ok hstore).1.trans hedition.symm, fun newest hmem ↦ ?_, hstore⟩
        exact hedition ▸ hnewest rfl newest hmem

theorem dry_run_reports (files : String → Except String EditionFile) (db : Database)
    (run : WebsiteRun) :
    (ingestCbiMonetary files db { run with dryRun := true }).map Prod.snd =
      (ingestCbiMonetary files db { run with dryRun := false }).map Prod.snd := by
  have hlinks : runLinks db { run with dryRun := true } =
      runLinks db { run with dryRun := false } := rfl
  rw [ingestCbiMonetary, ingestCbiMonetary, hlinks]
  cases runLinks db { run with dryRun := false } with
  | error e => rfl
  | ok links =>
    have hsame : (workThrough (Session.ingest files { run with dryRun := true })
        ⟨db, db⟩ links).2 =
          (workThrough (Session.ingest files { run with dryRun := false }) ⟨db, db⟩ links).2 := by
      refine (workThrough_simulates (R := fun s t : Session ↦ s.working = t.working)
        (fun s t e hst ↦ ?_) rfl).1
      have hlink : ingestLink files { run with dryRun := true } s.working e =
          ingestLink files { run with dryRun := false } t.working e := by
        rw [hst]
        rfl
      rw [Session.ingest, Session.ingest, hlink]
      cases ingestLink files { run with dryRun := false } t.working e with
      | error e => exact .inl ⟨e, rfl, rfl⟩
      | ok result => exact .inr ⟨_, _, result.2, rfl, rfl, rfl⟩
    dsimp only
    rw [hsame]
    rfl

theorem dry_run_store {result : RunReport} (hdry : run.dryRun = true)
    (h : ingestCbiMonetary files db run = .ok (db', result)) : db' = db := by
  rw [ingestCbiMonetary] at h
  split at h
  · cases h
  · rename_i links hlinks
    obtain ⟨rfl, -⟩ := Prod.mk.inj (Except.ok.inj h)
    have hstep : ∀ (done : List Edition) (a : Edition) (rest : List Edition) (s t : Session)
        (report : EditionReport), links = done ++ a :: rest → s.committed = db →
          Session.ingest files run s a = .ok (t, report) → t.committed = db := by
      intro done a rest s t report _ hs hwork
      rw [Session.ingest] at hwork
      split at hwork
      · cases hwork
      · obtain ⟨rfl, -⟩ := Prod.mk.inj (Except.ok.inj hwork)
        rw [if_pos hdry]
        exact hs
    obtain ⟨-, -, -, -, hcommitted⟩ :=
      workThrough_invariant (I := fun _ (session : Session) ↦ session.committed = db)
        (s := ⟨db, db⟩) hstep (nil_append links).symm rfl
    exact hcommitted

end Reports

section RealRun

variable {files} {run : WebsiteRun} {s : CbiRun} {db db' : Database} {result : RunReport}
  {links : List Edition} {since : Edition}

theorem ingestCbiMonetary_ok (h : ingestCbiMonetary files db run = .ok (db', result)) :
    ∃ links, runLinks db run = .ok links ∧
      db' = (workThrough (Session.ingest files run) ⟨db, db⟩ links).1.committed ∧
      result.editions = (workThrough (Session.ingest files run) ⟨db, db⟩ links).2.1 := by
  rw [ingestCbiMonetary] at h
  split at h
  · cases h
  · rename_i links hlinks
    obtain ⟨rfl, rfl⟩ := Prod.mk.inj (Except.ok.inj h)
    exact ⟨links, hlinks, rfl, rfl⟩

theorem Session.ingest_ok {session session' : Session} {edition : Edition}
    {report : EditionReport}
    (h : Session.ingest files run session edition = .ok (session', report)) :
    ingestLink files run session.working edition = .ok (session'.working, report) ∧
      (run.dryRun = false → session'.committed = session'.working) := by
  rw [Session.ingest] at h
  split at h
  · cases h
  · rename_i db report' hlink
    obtain ⟨rfl, rfl⟩ := Prod.mk.inj (Except.ok.inj h)
    cases hdry : run.dryRun with
    | true => exact ⟨hlink, fun hfalse ↦ by cases hfalse⟩
    | false => exact ⟨hlink, fun _ ↦ rfl⟩

theorem copyOf_eq {edition : Edition} {download : Download} {file : EditionFile}
    (hdownload : run.site.download edition = .ok download)
    (hfile : files download.contentSha256 = .ok file) :
    run.copyOf files edition = some file.parsed := by
  rw [WebsiteRun.copyOf, hdownload]
  dsimp only
  rw [hfile]

variable (files run s) in
structure Doing (done : List Edition) (session : Session) : Prop where
  same : session.committed = session.working
  editions : (done.filterMap (run.copyOf files)).map ParsedEdition.edition = done
  kept : ∃ time, Kept files session.committed (s.copies ++ done.filterMap (run.copyOf files)) time ∧
    time ≤ run.finished ∧ ∀ e, (∀ d ∈ done, d ≤ e) → time ≤ run.clock e

theorem Doing.initial (hkept : Kept files s.db s.copies s.time) (hfollows : s.Follows run) :
    Doing files run s [] ⟨s.db, s.db⟩ where
  same := rfl
  editions := rfl
  kept := by
    refine ⟨s.time, by rwa [filterMap_nil, append_nil], ?_,
      fun e _ ↦ hfollows.clock_ge e⟩
    exact (hfollows.clock_ge firstExcelEdition).trans (hfollows.clock_le _)

theorem Doing.step {done : List Edition} {a : Edition} {session session' : Session}
    {report : EditionReport} (h : Doing files run s done session) (hfollows : s.Follows run)
    (hreal : run.dryRun = false) (hafter : ∀ d ∈ done, d ≤ a)
    (hwork : Session.ingest files run session a = .ok (session', report)) :
    Doing files run s (done ++ [a]) session' := by
  obtain ⟨hlink, hsame⟩ := Session.ingest_ok hwork
  obtain ⟨download, file, hdownload, hfile, hedition, -, hnewest, hstore⟩ := ingestLink_ok hlink
  obtain ⟨time, hkept, hfinished, hclock⟩ := h.kept
  have hcopy := copyOf_eq hdownload hfile
  have hdone : (done ++ [a]).filterMap (run.copyOf files) =
      done.filterMap (run.copyOf files) ++ [file.parsed] := by
    rw [filterMap_append, filterMap_cons_some hcopy, filterMap_nil]
  refine ⟨hsame hreal, ?_, run.clock a, ?_, hfollows.clock_le a, fun e he ↦ ?_⟩
  · rw [hdone, map_append, h.editions, map_singleton, hedition]
  · rw [hdone, ← append_assoc, hsame hreal]
    rw [h.same] at hkept
    have hstarted : time ≤ (run.post a download).started := hclock a hafter
    exact hkept.ingest hstarted hfile
      (fun newest hmem ↦ hedition ▸ hnewest newest hmem) hstore
  · exact hfollows.clock_mono a e (he a (mem_append_right _ mem_cons_self))

theorem real_run_ok (hkept : Kept files s.db s.copies s.time) (hfollows : s.Follows run)
    (hreal : run.dryRun = false) (h : ingestCbiMonetary files s.db run = .ok (db', result)) :
    ∃ since new rest, sinceEdition s.db run.mode = .ok since ∧
      run.site.excelEditions.filter (fun e ↦ since ≤ e) = new ++ rest ∧
      result.editions.map EditionReport.edition = new ∧
      (new.filterMap (run.copyOf files)).map ParsedEdition.edition = new ∧
      Kept files db' (s.copies ++ new.filterMap (run.copyOf files)) run.finished := by
  obtain ⟨links, hruns, hdb, hreports⟩ := ingestCbiMonetary_ok h
  have hascending := runLinks_ascending hruns
  obtain ⟨since, hsince, hlinks⟩ := runLinks_ok hruns
  obtain ⟨new, rest, hsplit, hlength, hdoing⟩ := workThrough_invariant (I := Doing files run s)
    (fun done a rest session session' report hall hs hwork ↦ hs.step hfollows hreal
      (fun d hd ↦ (lt_of_append (hall ▸ hascending) hd mem_cons_self).le) hwork)
    (nil_append links).symm (Doing.initial hkept hfollows)
  rw [nil_append] at hdoing
  obtain ⟨time, hkept', hfinished, -⟩ := hdoing.kept
  refine ⟨since, new, rest, hsince, hlinks ▸ hsplit, ?_, hdoing.editions, ?_⟩
  · have hreport : ∀ (session : Session) (e : Edition) (session' : Session)
        (report : EditionReport), Session.ingest files run session e = .ok (session', report) →
          report.edition = e := by
      intro session e session' report hwork
      obtain ⟨hlink, -⟩ := Session.ingest_ok hwork
      obtain ⟨-, -, -, -, -, hreport, -⟩ := ingestLink_ok hlink
      exact hreport
    rw [hreports, workThrough_reports hreport, ← hlength, hsplit, take_left]
  · rw [hdb]
    exact hkept'.later hfinished

end RealRun

section Segments

variable {files} {run : WebsiteRun} {s : CbiRun} {db : Database} {since newest e : Edition}
  {l l' : List Edition}

variable (files s) in
structure CbiRun.Inv : Prop where
  kept : Kept files s.db s.copies s.time
  started : s.first = none ↔ s.copies = []
  excel : ∀ first ∈ s.first, firstExcelEdition ≤ first
  ascending : s.listed.Pairwise (· < ·)
  segment : ∀ first ∈ s.first, ∀ e, (∃ p ∈ s.copies, p.edition = e) ↔
    e ∈ s.listed ∧ first ≤ e ∧ ∃ p ∈ s.copies, e ≤ p.edition

theorem CbiRun.Inv.initial (time : Instant) : (CbiRun.initial time).Inv files where
  kept := .empty time
  started := ⟨fun _ ↦ rfl, fun _ ↦ rfl⟩
  excel _ h := by cases h
  ascending := .nil
  segment _ h := by cases h

theorem mem_of_gains (hgains : l <+: l') (hascending : l'.Pairwise (· < ·)) (he : e ∈ l')
    {f : Edition} (hf : f ∈ l) (hle : e ≤ f) : e ∈ l := by
  obtain ⟨rest, rfl⟩ := hgains
  rcases mem_append.mp he with he | he
  · exact he
  · exact absurd hle (not_le.mpr (lt_of_append hascending hf he))

theorem CbiRun.Inv.segment_of_gains (h : s.Inv files) (hgains : s.listed <+: l)
    (hascending : l.Pairwise (· < ·)) {first : Edition} (hfirst : first ∈ s.first) :
    (∃ p ∈ s.copies, p.edition = e) ↔ e ∈ l ∧ first ≤ e ∧ ∃ p ∈ s.copies, e ≤ p.edition := by
  rw [h.segment first hfirst]
  constructor
  · rintro ⟨he, hrest⟩
    exact ⟨hgains.subset he, hrest⟩
  · rintro ⟨he, hle, p, hp, hpe⟩
    obtain ⟨hlisted, -⟩ := (h.segment first hfirst p.edition).mp ⟨p, hp, rfl⟩
    exact ⟨mem_of_gains hgains hascending he hlisted hpe, hle, p, hp, hpe⟩

theorem raised_eq_max (e f : Edition) : (if e < f then f else e) = max e f := by
  split
  · exact (max_eq_right ‹e < f›.le).symm
  · exact (max_eq_left (not_lt.mp ‹_›)).symm

theorem sinceEdition_of_none (hnone : newestStoredEdition db = none)
    (h : sinceEdition db run.mode = .ok since) : firstExcelEdition ≤ since := by
  unfold sinceEdition at h
  split at h
  · rw [hnone] at h
    cases h
  · cases h
  · rw [hnone, raised_eq_max] at h
    obtain rfl := Except.ok.inj h
    exact le_max_right _ _

theorem sinceEdition_of_some (hnewest : newest ∈ newestStoredEdition s.db)
    (hexcel : firstExcelEdition ≤ newest) (hresumes : s.Resumes run)
    (h : sinceEdition s.db run.mode = .ok since) :
    newest ≤ since ∧ ∀ e ∈ run.site.excelEditions, newest < e → since ≤ e := by
  have hsome : newestStoredEdition s.db = some newest := hnewest
  unfold sinceEdition at h
  split at h
  · rw [hsome] at h
    obtain rfl := Except.ok.inj h
    exact ⟨le_rfl, fun e _ hlt ↦ hlt.le⟩
  · cases h
  · rename_i start hmode
    rw [hsome] at h
    dsimp only at h
    rw [raised_eq_max, raised_eq_max] at h
    obtain rfl := Except.ok.inj h
    refine ⟨le_max_right _ _, fun e he hlt ↦ ?_⟩
    exact max_le (max_le (hresumes start hmode newest hnewest e he hlt) (hexcel.trans hlt.le))
      hlt.le

theorem CbiRun.Inv.exists_newest (h : s.Inv files) {first : Edition} (hfirst : first ∈ s.first) :
    ∃ newest ∈ newestStoredEdition s.db, first ≤ newest ∧ newest ∈ s.listed ∧
      ∀ p ∈ s.copies, p.edition ≤ newest := by
  have hne : s.copies ≠ [] := by
    intro hnil
    rw [h.started.mpr hnil] at hfirst
    cases hfirst
  obtain ⟨p, hp⟩ := exists_mem_of_ne_nil _ hne
  cases hnewest : newestStoredEdition s.db with
  | none =>
    exact absurd ((h.kept.stored _).mpr ⟨p, hp, rfl⟩) (newestStoredEdition_eq_none hnewest _)
  | some newest =>
    obtain ⟨hstores, hmax⟩ := mem_newestStoredEdition hnewest
    obtain ⟨hlisted, hle, -⟩ :=
      (h.segment first hfirst newest).mp ((h.kept.stored newest).mp hstores)
    exact ⟨newest, rfl, hle, hlisted, fun q hq ↦ hmax _ ((h.kept.stored _).mpr ⟨q, hq, rfl⟩)⟩

theorem firstAfter_nil : s.firstAfter run [] = s.first := by
  cases hfirst : s.first <;> simp [CbiRun.firstAfter, hfirst]

theorem firstAfter_of_some {first : Edition} (h : s.first = some first) (done : List Edition) :
    s.firstAfter run done = some first := by
  unfold CbiRun.firstAfter
  rw [h]

theorem firstAfter_cons {done : List Edition} (h : s.first = none)
    (hsince : sinceEdition s.db run.mode = .ok since) :
    s.firstAfter run (e :: done) = some since := by
  unfold CbiRun.firstAfter
  rw [h, hsince]
  rfl

theorem CbiRun.Inv.tries (h : s.Inv files) (hfollows : s.Follows run) (hresumes : s.Resumes run)
    {links : List Edition} (hlinks : runLinks s.db run = .ok links) {first : Edition}
    (hfirst : first ∈ s.first) :
    links.filter (fun e ↦ ¬ s.db.Stores e) =
      (run.site.excelEditions.filter (fun e ↦ first ≤ e)).filter (fun e ↦ ¬ s.db.Stores e) := by
  obtain ⟨newest, hnewest, hle, hlisted, hmax⟩ := h.exists_newest hfirst
  obtain ⟨since, hsince, rfl⟩ := runLinks_ok hlinks
  obtain ⟨hsince_ge, hsince_le⟩ :=
    sinceEdition_of_some hnewest ((h.excel first hfirst).trans hle) hresumes hsince
  rw [filter_filter, filter_filter]
  refine filter_congr (fun e he ↦ ?_)
  -- both sides keep what is listed after the newest stored edition
  have hafter : ∀ lo, lo ≤ newest ∨ newest ≤ lo ∧
      (∀ e ∈ run.site.excelEditions, newest < e → lo ≤ e) → first ≤ lo →
      ((decide (¬ s.db.Stores e) && decide (lo ≤ e)) = true ↔ newest < e) := by
    intro lo hlo hfirst_lo
    rw [Bool.and_eq_true, decide_eq_true_eq, decide_eq_true_eq, h.kept.stored,
      h.segment_of_gains hfollows.gains run.site.excelEditions_ascending hfirst]
    constructor
    · rintro ⟨hnot, hloe⟩
      by_contra hlt
      have hle' := not_lt.mp hlt
      obtain ⟨p, hp, hpe⟩ := (h.kept.stored newest).mp (mem_newestStoredEdition hnewest).1
      exact hnot ⟨he, hfirst_lo.trans hloe, p, hp, hpe ▸ hle'⟩
    · intro hlt
      refine ⟨fun ⟨_, _, p, hp, hpe⟩ ↦ ?_, ?_⟩
      · exact absurd (hpe.trans (hmax p hp)) (not_le.mpr hlt)
      · rcases hlo with hlo | ⟨-, hlo⟩
        · exact hlo.trans hlt.le
        · exact hlo e he hlt
  rw [Bool.eq_iff_iff, hafter since (.inr ⟨hsince_ge, hsince_le⟩) (hle.trans hsince_ge),
    hafter first (.inl hle) le_rfl]

theorem CbiRun.Inv.idle (h : s.Inv files) (hfollows : s.Follows run) :
    ({ s with listed := run.site.excelEditions, time := run.finished } : CbiRun).Inv files where
  kept := h.kept.later ((hfollows.clock_ge firstExcelEdition).trans (hfollows.clock_le _))
  started := h.started
  excel := h.excel
  ascending := run.site.excelEditions_ascending
  segment _ hfirst _ := h.segment_of_gains hfollows.gains run.site.excelEditions_ascending hfirst

theorem CbiRun.Inv.extended (h : s.Inv files) (hfollows : s.Follows run)
    (hresumes : s.Resumes run) {new rest : List Edition} {copies : List ParsedEdition}
    (hsince : sinceEdition s.db run.mode = .ok since)
    (hlinks : run.site.excelEditions.filter (fun e ↦ since ≤ e) = new ++ rest)
    (hcopies : copies.map ParsedEdition.edition = new) {first : Edition}
    (hfirst : first ∈ s.firstAfter run new) :
    firstExcelEdition ≤ first ∧ ∀ e, (∃ p ∈ s.copies ++ copies, p.edition = e) ↔
      e ∈ run.site.excelEditions ∧ first ≤ e ∧ ∃ p ∈ s.copies ++ copies, e ≤ p.edition := by
  have hascending : (new ++ rest).Pairwise (· < ·) :=
    hlinks ▸ run.site.excelEditions_ascending.sublist filter_sublist
  have hmem : ∀ e, e ∈ new ++ rest ↔ e ∈ run.site.excelEditions ∧ since ≤ e := by
    intro e
    rw [← hlinks, mem_filter, decide_eq_true_eq]
  have hnew : ∀ e, (∃ p ∈ copies, p.edition = e) ↔ e ∈ new := by
    intro e
    rw [← hcopies, mem_map]
  have hclosed : ∀ e ∈ run.site.excelEditions, since ≤ e → (∃ p ∈ copies, e ≤ p.edition) →
      e ∈ new := by
    rintro e he hle ⟨p, hp, hpe⟩
    rcases mem_append.mp ((hmem e).mpr ⟨he, hle⟩) with hin | hin
    · exact hin
    · exact absurd hpe (not_le.mpr (lt_of_append hascending ((hnew _).mp ⟨p, hp, rfl⟩) hin))
  have hlisted : ∀ e, (∃ p ∈ copies, p.edition = e) →
      e ∈ run.site.excelEditions ∧ since ≤ e := fun e he ↦
    (hmem e).mp (mem_append_left _ ((hnew e).mp he))
  have hsplit : ∀ P : ParsedEdition → Prop,
      (∃ p ∈ s.copies ++ copies, P p) ↔ (∃ p ∈ s.copies, P p) ∨ ∃ p ∈ copies, P p := by
    intro P
    simp only [mem_append, or_and_right, exists_or]
  simp only [hsplit]
  cases hstarted : s.first with
  | none =>
    have hnil := h.started.mp hstarted
    have hnone : newestStoredEdition s.db = none := by
      cases hnewest : newestStoredEdition s.db with
      | none => rfl
      | some newest =>
        obtain ⟨p, hp, -⟩ := (h.kept.stored newest).mp (mem_newestStoredEdition hnewest).1
        rw [hnil] at hp
        cases hp
    have hfirst_eq : first = since := by
      cases new with
      | nil =>
        rw [firstAfter_nil, hstarted] at hfirst
        cases hfirst
      | cons a new =>
        rw [firstAfter_cons hstarted hsince] at hfirst
        exact (Option.mem_some_iff.mp hfirst).symm
    subst hfirst_eq
    refine ⟨sinceEdition_of_none hnone hsince, fun e ↦ ?_⟩
    rw [hnil]
    simp only [not_mem_nil, false_and, exists_false, false_or]
    constructor
    · intro he
      obtain ⟨hin, hle⟩ := hlisted e he
      obtain ⟨p, hp, rfl⟩ := he
      exact ⟨hin, hle, p, hp, le_rfl⟩
    · rintro ⟨hin, hle, hbelow⟩
      exact (hnew e).mpr (hclosed e hin hle hbelow)
  | some first' =>
    have hfirst_eq : first = first' := by
      rw [firstAfter_of_some hstarted] at hfirst
      exact (Option.mem_some_iff.mp hfirst).symm
    subst hfirst_eq
    have hfirst' : first ∈ s.first := hstarted
    obtain ⟨newest, hnewest, hle, hnewest_listed, hmax⟩ := h.exists_newest hfirst'
    obtain ⟨hsince_ge, hsince_le⟩ :=
      sinceEdition_of_some hnewest ((h.excel first hfirst').trans hle) hresumes hsince
    have hsegment := fun e ↦ h.segment_of_gains (e := e) hfollows.gains
      run.site.excelEditions_ascending hfirst'
    obtain ⟨top, htop, htop_eq⟩ := (h.kept.stored newest).mp (mem_newestStoredEdition hnewest).1
    refine ⟨h.excel first hfirst', fun e ↦ ⟨?_, ?_⟩⟩
    · rintro (hold | hcopy)
      · obtain ⟨hin, hlo, hbelow⟩ := (hsegment e).mp hold
        exact ⟨hin, hlo, .inl hbelow⟩
      · obtain ⟨hin, hlo⟩ := hlisted e hcopy
        obtain ⟨p, hp, rfl⟩ := hcopy
        exact ⟨hin, (hle.trans hsince_ge).trans hlo, .inr ⟨p, hp, le_rfl⟩⟩
    · rintro ⟨hin, hlo, hbelow⟩
      by_cases hold : e ≤ newest
      · exact .inl ((hsegment e).mpr ⟨hin, hlo, top, htop, htop_eq ▸ hold⟩)
      · have hlt := not_le.mp hold
        rcases hbelow with ⟨p, hp, hpe⟩ | hbelow
        · exact absurd (hpe.trans (hmax p hp)) hold
        · exact .inr ((hnew e).mpr (hclosed e hin (hsince_le e hin hlt) hbelow))

theorem CbiRun.Inv.after (h : s.Inv files) (hfollows : s.Follows run)
    (hresumes : s.Resumes run) : (s.after files run).Inv files := by
  rw [CbiRun.after]
  split
  · exact h.idle hfollows
  · rename_i db report hingest
    cases hdry : run.dryRun with
    | true =>
      obtain rfl := dry_run_store hdry hingest
      dsimp only
      rw [if_pos rfl, filterMap_nil, append_nil, firstAfter_nil]
      exact h.idle hfollows
    | false =>
      obtain ⟨since, new, rest, hsince, hlinks, hnames, hcopies, hkept⟩ :=
        real_run_ok h.kept hfollows hdry hingest
      dsimp only
      rw [if_neg Bool.false_ne_true, hnames]
      refine ⟨hkept, ?_, fun first hfirst ↦
        (h.extended hfollows hresumes hsince hlinks hcopies hfirst).1,
        run.site.excelEditions_ascending, fun first hfirst ↦
        (h.extended hfollows hresumes hsince hlinks hcopies hfirst).2⟩
      have hnil : new.filterMap (run.copyOf files) = [] ↔ new = [] := by
        rw [← map_eq_nil_iff (f := ParsedEdition.edition), hcopies]
      rw [append_eq_nil_iff, ← h.started, hnil]
      cases hfirst : s.first with
      | some first => simp [firstAfter_of_some hfirst]
      | none =>
        cases new with
        | nil => simp [firstAfter_nil, hfirst]
        | cons a new => simp [firstAfter_cons hfirst hsince]

end Segments

end TalaPala.Economic
