import TalaPala.Economic.CbiEditions

namespace TalaPala.Economic

open Library List

def Database.editionOf (db : Database) (row : Observation) : Option Edition :=
  (db.documentOf row).bind (fun d ↦ d.editionLabel.edition?)

def Database.Stores (db : Database) (e : Edition) : Prop :=
  ∃ d ∈ db.documents, d.isEdition = true ∧ d.editionLabel = .monthly e

instance (db : Database) (e : Edition) : Decidable (db.Stores e) :=
  inferInstanceAs (Decidable (∃ d ∈ db.documents, d.isEdition = true ∧ d.editionLabel = .monthly e))

def lastPrint (copies : List ParsedEdition) (code : CbiCode) (start : Date) :
    Option CbiObservation :=
  lastOf (fun p ↦ p.start = start) (copies.flatMap (fun parsed ↦ parsed.observations code))

variable {files : String → Except String EditionFile} {db db' : Database} {post : EditionPost}
  {file : EditionFile} {report : EditionReport} {copies : List ParsedEdition}
  {time : Instant} {code : CbiCode} {start : Date} {e : Edition}

variable (files) in
structure Kept (db : Database) (copies : List ParsedEdition) (time : Instant) : Prop where
  sound : db.Sound
  catalogued : ∀ d ∈ db.documents, d.isEdition = true ∧
    ∃ file, files d.contentSha256 = .ok file ∧ d.editionLabel = .monthly file.parsed.edition
  stored : ∀ e, db.Stores e ↔ ∃ p ∈ copies, p.edition = e
  sorted : copies.Pairwise (fun p q ↦ p.edition ≤ q.edition)
  sources : ∀ r ∈ db.rows, ∃ e, db.editionOf r = some e
  in_time : ∀ r ∈ db.rows, r.availableAt ≤ time
  monotone : ∀ r ∈ db.rows, ∀ r' ∈ db.rows, ∀ e e', db.editionOf r = some e →
    db.editionOf r' = some e' → e < e' → r.availableAt ≤ r'.availableAt
  blank : ∀ code start, lastPrint copies code start = none → db.rowsOf (.cbi code) start = []
  served : ∀ code start p, lastPrint copies code start = some p →
    db.Says (.cbi code) start (.finite p.value) p.method

theorem Kept.empty (time : Instant) : Kept files .empty [] time where
  sound := .empty
  catalogued _ hd := absurd hd not_mem_nil
  stored e := ⟨fun ⟨_, hd, _⟩ ↦ absurd hd not_mem_nil, fun ⟨_, hp, _⟩ ↦
    absurd hp not_mem_nil⟩
  sorted := .nil
  sources _ hr := absurd hr not_mem_nil
  in_time _ hr := absurd hr not_mem_nil
  monotone _ hr := absurd hr not_mem_nil
  blank _ _ _ := rfl
  served _ _ _ h := by cases h

theorem Kept.later (h : Kept files db copies time) {time' : Instant} (ht : time ≤ time') :
    Kept files db copies time' :=
  { h with in_time := fun r hr ↦ (h.in_time r hr).trans ht }

section Newest

theorem mem_newestStoredEdition {newest : Edition} (h : newest ∈ newestStoredEdition db) :
    db.Stores newest ∧ ∀ e, db.Stores e → e ≤ newest := by
  obtain ⟨hmem, hmax⟩ := max?_eq_some_iff.mp h
  have hlabel : ∀ (d : Document) (e : Edition), d.editionLabel.edition? = some e ↔
      d.editionLabel = .monthly e := by
    intro d e
    cases d.editionLabel <;> simp [EditionLabel.edition?]
  constructor
  · obtain ⟨d, hd, he⟩ := mem_filterMap.mp hmem
    obtain ⟨hd, hedition⟩ := mem_filter.mp hd
    exact ⟨d, hd, hedition, (hlabel d newest).mp he⟩
  · rintro e ⟨d, hd, hedition, he⟩
    exact hmax e (mem_filterMap.mpr
      ⟨d, mem_filter.mpr ⟨hd, hedition⟩, (hlabel d e).mpr he⟩)

theorem newestStoredEdition_eq_none (h : newestStoredEdition db = none) (e : Edition) :
    ¬ db.Stores e := by
  rintro ⟨d, hd, hedition, he⟩
  rw [newestStoredEdition, max?_eq_none_iff, filterMap_eq_nil_iff] at h
  have hnone := h d (mem_filter.mpr ⟨hd, hedition⟩)
  rw [he] at hnone
  cases hnone

theorem Kept.le_of_newest (h : Kept files db copies time)
    (hnewest : ∀ newest ∈ newestStoredEdition db, newest ≤ e) : ∀ p ∈ copies, p.edition ≤ e := by
  intro p hp
  have hp := (h.stored p.edition).mpr ⟨p, hp, rfl⟩
  cases hstored : newestStoredEdition db with
  | none => exact absurd hp (newestStoredEdition_eq_none hstored p.edition)
  | some newest => exact ((mem_newestStoredEdition hstored).2 _ hp).trans (hnewest newest hstored)

end Newest

section Available

theorem newestEditionAvailableAt_ge (h : Kept files db copies time) :
    ∀ r ∈ db.rows, ∃ floor, newestEditionAvailableAt db = some floor ∧ r.availableAt ≤ floor := by
  intro r hr
  obtain ⟨e, he⟩ := h.sources r hr
  obtain ⟨d, hd, -⟩ := Option.bind_eq_some_iff.mp he
  have hdocument : d ∈ db.documents := by
    obtain ⟨id, -, hget⟩ := Option.bind_eq_some_iff.mp hd
    exact mem_of_getElem? hget
  have hmem : r.availableAt ∈ (db.rows.filter
      (fun row ↦ (db.documentOf row).any Document.isEdition)).map Observation.availableAt := by
    refine mem_map.mpr ⟨r, mem_filter.mpr ⟨hr, ?_⟩, rfl⟩
    rw [hd, Option.any_some]
    exact (h.catalogued d hdocument).1
  rw [newestEditionAvailableAt]
  cases hmax : ((db.rows.filter (fun row ↦ (db.documentOf row).any Document.isEdition)).map
      Observation.availableAt).max? with
  | none =>
    rw [max?_eq_none_iff.mp hmax] at hmem
    cases hmem
  | some floor => exact ⟨floor, rfl, (max?_eq_some_iff.mp hmax).2 _ hmem⟩

theorem observed_or_candidate (candidate now : Instant) :
    (if now ≤ candidate then (now, false) else (candidate, true)).1 = min now candidate := by
  split
  · exact (min_eq_left ‹_›).symm
  · exact (min_eq_right (not_le.mp ‹_›).le).symm

theorem backfillAvailableAt_le (savedAt floor : Option Instant) (now : Instant) :
    (backfillAvailableAt savedAt floor now).1 ≤ now := by
  cases savedAt with
  | none => exact le_rfl
  | some saved =>
    unfold backfillAvailableAt
    dsimp only
    rw [observed_or_candidate]
    exact min_le_left _ _

theorem le_backfillAvailableAt {savedAt : Option Instant} {floor now : Instant}
    (hnow : floor ≤ now) : floor ≤ (backfillAvailableAt savedAt (some floor) now).1 := by
  cases savedAt with
  | none => exact hnow
  | some saved =>
    unfold backfillAvailableAt
    dsimp only
    rw [observed_or_candidate]
    refine le_min hnow ?_
    split
    · exact le_rfl
    · exact not_lt.mp ‹_›

theorem Kept.available (h : Kept files db copies time) (htime : time ≤ post.started) :
    (post.available db file).1 ≤ post.started ∧
      ∀ r ∈ db.rows, r.availableAt ≤ (post.available db file).1 := by
  rw [EditionPost.available]
  split
  · refine ⟨backfillAvailableAt_le _ _ _, fun r hr ↦ ?_⟩
    obtain ⟨floor, hfloor, hle⟩ := newestEditionAvailableAt_ge h r hr
    rw [hfloor]
    refine hle.trans (le_backfillAvailableAt ?_)
    have hmem := max?_mem hfloor
    obtain ⟨r', hr', rfl⟩ := mem_map.mp hmem
    exact (h.in_time r' (mem_filter.mp hr').1).trans htime
  · exact ⟨le_rfl, fun r hr ↦ (h.in_time r hr).trans htime⟩

end Available

section Store

theorem editionOf_extended {r : Observation} (hdocuments : db.documents <+: db'.documents)
    (h : db.editionOf r = some e) : db'.editionOf r = some e := by
  obtain ⟨d, hd, he⟩ := Option.bind_eq_some_iff.mp h
  exact Option.bind_eq_some_iff.mpr ⟨d, documentOf_extended hdocuments hd, he⟩

theorem Kept.document (h : Kept files db copies time)
    (hfile : files post.contentSha256 = .ok file) :
    ∃ d ∈ (recordSourceDocument db (post.document file)).1.documents,
      (recordSourceDocument db (post.document file)).1.documents[
        (recordSourceDocument db (post.document file)).2.1]? = some d ∧
      d.isEdition = true ∧ d.editionLabel = .monthly file.parsed.edition := by
  obtain ⟨d, hd, hget, hsame, hor⟩ := recordSourceDocument_document db (post.document file)
  rcases hor with hold | rfl
  · obtain ⟨hedition, file', hfile', hlabel⟩ := h.catalogued d hold
    rw [Document.sameContent, Bool.and_eq_true, decide_eq_true_eq, decide_eq_true_eq] at hsame
    have hsha : d.contentSha256 = post.contentSha256 := hsame.2
    rw [hsha, hfile] at hfile'
    obtain rfl := Except.ok.inj hfile'
    exact ⟨d, hd, hget, hedition, hlabel⟩
  · exact ⟨_, hd, hget, by simp [Document.isEdition, EditionPost.document], rfl⟩

theorem storeEdition_documents (hdb : db.Sound)
    (h : writeEdition.storeEdition db post file = .ok (db', report)) :
    db'.documents = (recordSourceDocument db (post.document file)).1.documents ∧ db'.Sound := by
  obtain ⟨-, stamp, written, -, -, hrecord⟩ := storeEdition_ok h
  obtain ⟨hsound, hdocuments, -⟩ := recordMany_ok (recordSourceDocument_sound hdb) hrecord
  exact ⟨hdocuments, hsound⟩

theorem Kept.storeEdition_rows (h : Kept files db copies time)
    (hfile : files post.contentSha256 = .ok file)
    (hstore : writeEdition.storeEdition db post file = .ok (db', report)) :
    ∃ new, db'.rows = db.rows ++ new ∧ ∀ r ∈ new,
      db'.editionOf r = some file.parsed.edition ∧
        r.availableAt = (post.available db file).1 := by
  obtain ⟨-, stamp, written, hid, havailable, hrecord⟩ := storeEdition_ok hstore
  obtain ⟨new, hnew, hwrote⟩ := recordMany_rows (recordSourceDocument_sound h.sound) hrecord
  rw [recordSourceDocument_rows] at hnew
  refine ⟨new, hnew, fun r hr ↦ ?_⟩
  obtain ⟨key, points, -, p, -, hr⟩ := hwrote r hr
  constructor
  · obtain ⟨d, -, hget, -, hlabel⟩ := h.document hfile
    have hsource : r.sourceDocumentId = some stamp.documentId := hr.sourceDocumentId_eq
    rw [Database.editionOf, Database.documentOf, hsource, Option.bind_some,
      (storeEdition_documents h.sound hstore).1, hid, hget, Option.bind_some, hlabel]
    rfl
  · have hcall : some stamp.availableAt = some r.availableAt := hr.availableAt_eq
    rw [← Option.some.inj hcall, havailable]

theorem storeEdition_frame (hdb : db.Sound)
    (h : writeEdition.storeEdition db post file = .ok (db', report))
    (hnone : lastPrint [file.parsed] code start = none) :
    db'.rowsOf (.cbi code) start = db.rowsOf (.cbi code) start := by
  obtain ⟨-, stamp, written, -, -, hrecord⟩ := storeEdition_ok h
  rw [recordMany_frame (recordSourceDocument_sound hdb) hrecord, recordSourceDocument_rowsOf]
  intro points hpoints
  obtain ⟨code', hcode, rfl⟩ := ParsedEdition.of_mem_entries hpoints
  obtain rfl := SeriesCode.cbi.inj hcode
  rw [lastPrint, flatMap_singleton] at hnone
  exact Posting.printed_eq_none hnone

theorem storeEdition_serves {p : CbiObservation} (hdb : db.Sound)
    (h : writeEdition.storeEdition db post file = .ok (db', report))
    (hlast : lastPrint [file.parsed] code start = some p) :
    db'.Says (.cbi code) start (.finite p.value) p.method := by
  obtain ⟨-, stamp, written, -, -, hrecord⟩ := storeEdition_ok h
  rw [lastPrint, flatMap_singleton] at hlast
  exact recordMany_states (recordSourceDocument_sound hdb) hrecord
    (file.parsed.entries_nodup) (file.parsed.mem_entries code) hlast

theorem lastPrint_append (copies : List ParsedEdition) (parsed : ParsedEdition) :
    lastPrint (copies ++ [parsed]) code start =
      (lastPrint [parsed] code start).or (lastPrint copies code start) := by
  rw [lastPrint, flatMap_append, lastOf_append]
  rfl

theorem Kept.ingest (h : Kept files db copies time) (htime : time ≤ post.started)
    (hfile : files post.contentSha256 = .ok file)
    (hnewest : ∀ newest ∈ newestStoredEdition db, newest ≤ file.parsed.edition)
    (hstore : writeEdition.storeEdition db post file = .ok (db', report)) :
    Kept files db' (copies ++ [file.parsed]) post.started := by
  obtain ⟨hdocuments, hsound⟩ := storeEdition_documents h.sound hstore
  obtain ⟨new, hrows, hnew⟩ := h.storeEdition_rows hfile hstore
  obtain ⟨hnow, havailable⟩ : (post.available db file).1 ≤ post.started ∧
      ∀ r ∈ db.rows, r.availableAt ≤ (post.available db file).1 := h.available htime
  have hprefix : db.documents <+: db'.documents := hdocuments ▸ recordSourceDocument_prefix
  have hle := h.le_of_newest hnewest
  have hold : ∀ r ∈ db.rows, ∀ e', db'.editionOf r = some e' →
      db.editionOf r = some e' ∧ e' ≤ file.parsed.edition := by
    intro r hr e' he'
    obtain ⟨e, he⟩ := h.sources r hr
    obtain rfl := Option.some.inj ((editionOf_extended hprefix he).symm.trans he')
    obtain ⟨d, hd, hlabel⟩ := Option.bind_eq_some_iff.mp he
    obtain ⟨id, -, hget⟩ := Option.bind_eq_some_iff.mp hd
    have hd := mem_of_getElem? hget
    obtain ⟨hedition, file', -, hmonthly⟩ := h.catalogued d hd
    rw [hmonthly] at hlabel
    obtain rfl := Option.some.inj hlabel
    obtain ⟨p, hp, hpe⟩ := (h.stored _).mp ⟨d, hd, hedition, hmonthly⟩
    exact ⟨he, hpe ▸ hle p hp⟩
  refine ⟨hsound, fun d hd ↦ ?_, fun e ↦ ⟨?_, ?_⟩, ?_, fun r hr ↦ ?_, fun r hr ↦ ?_,
    fun r hr r' hr' e e' he he' hlt ↦ ?_, fun code start hlast ↦ ?_, fun code start p hlast ↦ ?_⟩
  · rw [hdocuments] at hd
    rcases mem_recordSourceDocument hd with hd | rfl
    · exact h.catalogued d hd
    · exact ⟨by simp [Document.isEdition, EditionPost.document], file, hfile, rfl⟩
  · rintro ⟨d, hd, hedition, hlabel⟩
    rw [hdocuments] at hd
    rcases mem_recordSourceDocument hd with hd | rfl
    · obtain ⟨p, hp, hpe⟩ := (h.stored e).mp ⟨d, hd, hedition, hlabel⟩
      exact ⟨p, mem_append_left _ hp, hpe⟩
    · exact ⟨file.parsed, mem_append_right _ mem_cons_self, EditionLabel.monthly.inj hlabel⟩
  · rintro ⟨p, hp, rfl⟩
    rcases mem_append.mp hp with hp | hp
    · obtain ⟨d, hd, hedition, hlabel⟩ := (h.stored p.edition).mpr ⟨p, hp, rfl⟩
      exact ⟨d, hprefix.subset hd, hedition, hlabel⟩
    · obtain rfl := mem_singleton.mp hp
      obtain ⟨d, hd, -, hedition, hlabel⟩ := h.document hfile
      exact ⟨d, hdocuments ▸ hd, hedition, hlabel⟩
  · exact pairwise_append.mpr ⟨h.sorted, pairwise_singleton _ _,
      fun p hp q hq ↦ mem_singleton.mp hq ▸ hle p hp⟩
  · rw [hrows] at hr
    rcases mem_append.mp hr with hr | hr
    · obtain ⟨e, he⟩ := h.sources r hr
      exact ⟨e, editionOf_extended hprefix he⟩
    · exact ⟨_, (hnew r hr).1⟩
  · rw [hrows] at hr
    rcases mem_append.mp hr with hr | hr
    · exact (h.in_time r hr).trans htime
    · exact (hnew r hr).2 ▸ hnow
  · rw [hrows] at hr hr'
    rcases mem_append.mp hr with hr | hr <;> rcases mem_append.mp hr' with hr' | hr'
    · exact h.monotone r hr r' hr' e e' (hold r hr e he).1 (hold r' hr' e' he').1 hlt
    · exact (hnew r' hr').2 ▸ havailable r hr
    · -- no stored row is of a later edition
      obtain rfl := Option.some.inj ((hnew r hr).1.symm.trans he)
      exact absurd hlt (not_lt.mpr (hold r' hr' e' he').2)
    · obtain rfl := Option.some.inj ((hnew r hr).1.symm.trans he)
      obtain rfl := Option.some.inj ((hnew r' hr').1.symm.trans he')
      exact absurd hlt (lt_irrefl _)
  · rw [lastPrint_append, Option.or_eq_none_iff] at hlast
    rw [storeEdition_frame h.sound hstore hlast.1, h.blank code start hlast.2]
  · rw [lastPrint_append] at hlast
    cases hprinted : lastPrint [file.parsed] code start with
    | none =>
      rw [hprinted] at hlast
      exact (h.served code start p hlast).congr (storeEdition_frame h.sound hstore hprinted)
    | some q =>
      rw [hprinted] at hlast
      obtain rfl := Option.some.inj hlast
      exact storeEdition_serves h.sound hstore hprinted

end Store

end TalaPala.Economic
