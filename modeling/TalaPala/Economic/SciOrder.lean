import TalaPala.Economic.SciCpi

namespace TalaPala.Economic

open Library Library.Transition List

structure Accepted where
  contentSha256 : String
  published : Option Instant
  workbook : SciWorkbook

def SciCall.accepted (call : SciCall) : Option Accepted :=
  match call.file with
  | none => none
  | some file =>
    match file.workbook with
    | .error _ => none
    | .ok workbook => some ⟨file.contentSha256, publishedInstant (call.name file), workbook⟩

structure SciRun where
  db : Database
  accepted : List Accepted

def SciRun.post (s : SciRun) (call : SciCall) : SciRun :=
  match ingestSciCpi s.db call with
  | .error _ => s
  | .ok (db, _) => ⟨db, s.accepted ++ call.accepted.toList⟩

def postNext (s : SciRun) (call : SciCall) : Option SciRun :=
  if call.allowOlder then none else some (s.post call)

section Publication

def Accepted.before (a b : Accepted) : Bool :=
  match a.published, b.published with
  | some published, some published' => decide (published < published')
  | _, _ => false

def Accepted.printsMonth (a : Accepted) (code : SciCode) (start : Date) : Bool :=
  (a.workbook.points code).any (fun p ↦ decide (p.refPeriodStart = start))

def Accepted.printsValue (a : Accepted) (code : SciCode) (start : Date) (value : Value) : Bool :=
  (a.workbook.points code).any
    (fun p ↦ decide (p.refPeriodStart = start) && valuesEqual value p.value)

def SciRun.newestPrinting (s : SciRun) (code : SciCode) (start : Date) (a : Accepted) : Bool :=
  s.accepted.all (fun b ↦ b.printsMonth code start → a.before b = false)

/-- A month is served as a newest workbook prints it, and a month that none
prints is not served. -/
structure SciRun.ServesNewest (s : SciRun) (code : SciCode) (start : Date) : Prop where
  blank : s.db.current (.sci code) start = none →
    ∀ a ∈ s.accepted, a.printsMonth code start = false
  newest : ∀ row ∈ s.db.current (.sci code) start, ∃ a ∈ s.accepted,
    a.printsValue code start row.value = true ∧ s.newestPrinting code start a = true

instance (s : SciRun) (code : SciCode) (start : Date) : Decidable (s.ServesNewest code start) :=
  decidable_of_iff
    ((s.db.current (.sci code) start = none →
        ∀ a ∈ s.accepted, a.printsMonth code start = false) ∧
      ∀ row ∈ s.db.current (.sci code) start, ∃ a ∈ s.accepted,
        a.printsValue code start row.value = true ∧ s.newestPrinting code start a = true)
    ⟨fun h ↦ ⟨h.1, h.2⟩, fun h ↦ ⟨h.blank, h.newest⟩⟩

def SciRun.lastPrinted (s : SciRun) (code : SciCode) (start : Date) : Option Value :=
  (lastOf (fun p ↦ p.refPeriodStart = start)
    (s.accepted.flatMap (fun a ↦ a.workbook.points code))).map SciObservation.value

structure SciRun.Recorded (s : SciRun) (call : SciCall) : Prop where
  stamp : ∀ a published, call.accepted = some a → a.published = some published →
    (∀ newest, newestPublishedAt s.db = some newest → newest < published) →
      ∃ code, ∃ p ∈ a.workbook.points code,
        ¬ s.db.Says (.sci code) p.refPeriodStart p.value none
  again : ∀ a, call.accepted = some a → staleAgainst s.db a.published false = none →
    (∃ b ∈ s.accepted, b.contentSha256 = a.contentSha256) →
      ∀ code, ∀ p ∈ a.workbook.points code, s.lastPrinted code p.refPeriodStart = some p.value

end Publication

section Step

variable {db db' : Database} {call : SciCall} {report : SciReport} {s t : SciRun} {a : Accepted}
  {code : SciCode} {start : Date}

theorem ingestSciCpi_ok (h : ingestSciCpi db call = .ok (db', report)) :
    ∃ a, call.accepted = some a ∧ staleAgainst db a.published call.allowOlder = none ∧
      ∃ (document : Document) (id : ℕ) (written : List (SeriesCode × List ObservationWrite)),
        recordMany (fun _ _ _ ↦ (none : Option Empty)) (sciPosting a.published call.now id)
          (recordSourceDocument db document).1 a.workbook.entries = .ok (db', written) := by
  rw [ingestSciCpi] at h
  split at h
  · cases h
  · rename_i file hfile
    split at h
    · cases h
    · split at h
      · cases h
      · rename_i workbook hworkbook
        dsimp only at h
        split at h
        · cases h
        · rename_i hstale
          refine ⟨⟨file.contentSha256, publishedInstant (call.name file), workbook⟩, ?_, hstale, ?_⟩
          · rw [SciCall.accepted, hfile]
            dsimp only
            rw [hworkbook]
          · rw [writeWorkbook] at h
            dsimp only at h
            split at h
            · cases h
            · rename_i stored written hrecord
              obtain ⟨rfl, -⟩ := Prod.mk.inj (Except.ok.inj h)
              exact ⟨_, _, written, hrecord⟩

theorem mem_entries (workbook : SciWorkbook) (code : SciCode) :
    (SeriesCode.sci code, workbook.points code) ∈ workbook.entries :=
  mem_map.mpr ⟨code, by cases code <;> decide, rfl⟩

theorem of_mem_entries {workbook : SciWorkbook} {key : SeriesCode} {points : List SciObservation}
    (h : (key, points) ∈ workbook.entries) :
    ∃ code, key = .sci code ∧ points = workbook.points code := by
  obtain ⟨code, -, heq⟩ := mem_map.mp h
  obtain ⟨rfl, rfl⟩ := Prod.mk.inj heq
  exact ⟨code, rfl, rfl⟩

theorem entries_nodup (workbook : SciWorkbook) : (workbook.entries.map Prod.fst).Nodup := by
  have hkeys : workbook.entries.map Prod.fst = sciCodes.map .sci := by
    rw [SciWorkbook.entries, map_map]
    rfl
  rw [hkeys]
  decide

theorem newestPublishedAt_ge {r : Observation} {published : Instant} (hr : r ∈ db.rows)
    (hseries : db.isSeriesOf (sciCodes.map .sci) r = true)
    (hpublished : r.publishedAt = some published) :
    ∃ newest, newestPublishedAt db = some newest ∧ published ≤ newest := by
  have hmem : published ∈ (db.rows.filter (db.isSeriesOf (sciCodes.map .sci))).filterMap
      Observation.publishedAt :=
    mem_filterMap.mpr ⟨r, mem_filter.mpr ⟨hr, hseries⟩, hpublished⟩
  rw [newestPublishedAt]
  cases hmax : ((db.rows.filter (db.isSeriesOf (sciCodes.map .sci))).filterMap
      Observation.publishedAt).max? with
  | none =>
    rw [max?_eq_none_iff.mp hmax] at hmem
    cases hmem
  | some newest => exact ⟨newest, rfl, (max?_eq_some_iff.mp hmax).2 _ hmem⟩

theorem newestPublishedAt_row {newest : Instant} (h : newestPublishedAt db = some newest) :
    ∃ r ∈ db.rows, db.isSeriesOf (sciCodes.map .sci) r = true ∧
      r.publishedAt = some newest := by
  obtain ⟨r, hr, hpublished⟩ := mem_filterMap.mp (max?_mem h)
  obtain ⟨hr, hseries⟩ := mem_filter.mp hr
  exact ⟨r, hr, hseries, hpublished⟩

theorem isSeriesOf_mono {codes : List SeriesCode} {r : Observation}
    (hseries : db.series <+: db'.series) (h : db.isSeriesOf codes r = true) :
    db'.isSeriesOf codes r = true := by
  obtain ⟨code, hcode, hget⟩ := any_eq_true.mp h
  obtain ⟨rest, hrest⟩ := hseries
  refine any_eq_true.mpr ⟨code, hcode, decide_eq_true ?_⟩
  have hget := of_decide_eq_true hget
  rw [← hrest, getElem?_append_left (List.getElem?_eq_some_iff.mp hget).1]
  exact hget

theorem newestPublishedAt_mono {newest : Instant} (hseries : db.series <+: db'.series)
    (hrows : db.rows <+: db'.rows) (h : newestPublishedAt db = some newest) :
    ∃ newest', newestPublishedAt db' = some newest' ∧ newest ≤ newest' := by
  obtain ⟨r, hr, hmember, hpublished⟩ := newestPublishedAt_row h
  exact newestPublishedAt_ge (hrows.subset hr) (isSeriesOf_mono hseries hmember) hpublished

theorem isSeriesOf_wrote (hdb : db.Sound) {r : Observation} (hr : r ∈ db.rows)
    (hid : r.seriesId = db.series.idxOf (.sci code)) :
    db.isSeriesOf (sciCodes.map .sci) r = true := by
  have hlt : db.series.idxOf (.sci code) < db.series.length := hid ▸ hdb.registered r hr
  refine any_eq_true.mpr ⟨.sci code, mem_map.mpr ⟨code, ?_, rfl⟩, decide_eq_true ?_⟩
  · cases code <;> decide
  · rw [hid, getElem?_eq_getElem hlt, getElem_idxOf hlt]

end Step

section Invariant

/-- The store says what was printed last, a workbook printed it that none is
known to be published after, and the newest day that was accepted is stored. -/
structure SciRun.Inv (s : SciRun) : Prop where
  sound : s.db.Sound
  blank : ∀ code start, s.lastPrinted code start = none → s.db.rowsOf (.sci code) start = []
  served : ∀ code start value, s.lastPrinted code start = some value →
    s.db.Says (.sci code) start value none
  newest : ∀ code start value, s.lastPrinted code start = some value → ∃ a ∈ s.accepted,
    (∃ p ∈ a.workbook.points code, p.refPeriodStart = start ∧ p.value = value) ∧
      ∀ b ∈ s.accepted, b.printsMonth code start = true → a.before b = false
  stored : ∀ a ∈ s.accepted, ∀ published, a.published = some published →
    ∃ newest, newestPublishedAt s.db = some newest ∧ published ≤ newest

variable {db db' : Database} {call : SciCall} {report : SciReport} {s t : SciRun} {a b : Accepted}
  {code : SciCode} {start : Date}

theorem SciRun.Inv.initial (hdb : db.Sound)
    (hempty : ∀ code start, db.rowsOf (.sci code) start = []) : (SciRun.mk db []).Inv where
  sound := hdb
  blank code start _ := hempty code start
  served _ _ _ h := by cases h
  newest _ _ _ h := by cases h
  stored _ ha := absurd ha not_mem_nil

theorem newestPrinting_iff : s.newestPrinting code start a = true ↔
    ∀ b ∈ s.accepted, b.printsMonth code start = true → a.before b = false := by
  rw [SciRun.newestPrinting, all_eq_true]
  exact forall₂_congr (fun b _ ↦ decide_eq_true_iff)

theorem SciRun.Inv.servesNewest (h : s.Inv) : s.ServesNewest code start := by
  cases hlast : s.lastPrinted code start with
  | none =>
    have hcurrent : s.db.current (.sci code) start = none := by
      rw [Database.current, h.blank code start hlast]
      rfl
    refine ⟨fun _ a ha ↦ ?_, fun row hrow ↦ ?_⟩
    · rw [Accepted.printsMonth, Bool.eq_false_iff]
      intro hprints
      obtain ⟨p, hp, hstart⟩ := any_eq_true.mp hprints
      rw [SciRun.lastPrinted, Option.map_eq_none_iff, lastOf_eq_none] at hlast
      rw [hlast p (mem_flatMap.mpr ⟨a, ha, hp⟩)] at hstart
      cases hstart
    · rw [hcurrent] at hrow
      cases hrow
  | some value =>
    obtain ⟨row, hrow, hvalue, -⟩ := h.served code start value hlast
    obtain ⟨a, ha, ⟨p, hp, hstart, rfl⟩, hnewest⟩ := h.newest code start value hlast
    refine ⟨fun hnone ↦ ?_, fun row' hrow' ↦ ⟨a, ha, ?_, newestPrinting_iff.mpr hnewest⟩⟩
    · rw [hrow] at hnone
      cases hnone
    · obtain rfl := Option.some.inj (hrow.symm.trans hrow')
      refine any_eq_true.mpr ⟨p, hp, ?_⟩
      rw [hstart, hvalue, decide_eq_true rfl]
      rfl

theorem not_before_of_fresh {published : Option Instant}
    (hfresh : staleAgainst db published false = none) {mine newest : Instant}
    (hmine : published = some mine) (hnewest : newestPublishedAt db = some newest) :
    newest ≤ mine := by
  simp only [staleAgainst, hmine, hnewest] at hfresh
  split at hfresh
  · cases hfresh
  · rename_i hle
    exact not_lt.mp (fun hlt ↦ hle ⟨hlt, trivial⟩)

theorem SciRun.Inv.not_before (h : s.Inv) (hfresh : staleAgainst s.db a.published false = none)
    (hb : b ∈ s.accepted) : a.before b = false := by
  rw [Accepted.before]
  split
  · rename_i mine theirs hmine htheirs
    obtain ⟨newest, hnewest, hle⟩ := h.stored b hb theirs htheirs
    exact decide_eq_false (not_lt.mpr (hle.trans (not_before_of_fresh hfresh hmine hnewest)))
  · rfl

theorem Accepted.before_self : a.before a = false := by
  rw [Accepted.before]
  split
  · rename_i published published' h h'
    obtain rfl := Option.some.inj (h.symm.trans h')
    exact decide_eq_false (lt_irrefl _)
  · rfl

section Accept

variable {document : Document} {id : ℕ} {now : Instant}
  {written : List (SeriesCode × List ObservationWrite)}

def Accepted.lastPoint (a : Accepted) (code : SciCode) (start : Date) : Option SciObservation :=
  lastOf (fun p ↦ p.refPeriodStart = start) (a.workbook.points code)

theorem Accepted.lastPoint_mem {p : SciObservation} (h : a.lastPoint code start = some p) :
    p ∈ a.workbook.points code ∧ p.refPeriodStart = start :=
  (mem_of_lastOf h).imp_right of_decide_eq_true

theorem Accepted.printsMonth_of_none (h : a.lastPoint code start = none) :
    a.printsMonth code start = false :=
  any_eq_false.mpr (fun p hp ↦ by
    rw [lastOf_eq_none.mp h p hp]
    exact Bool.false_ne_true)

theorem lastPrinted_append (s : SciRun) (db : Database) (a : Accepted) :
    (SciRun.mk db (s.accepted ++ [a])).lastPrinted code start =
      ((a.lastPoint code start).map SciObservation.value).or (s.lastPrinted code start) := by
  rw [SciRun.lastPrinted, SciRun.lastPrinted, flatMap_append, flatMap_singleton,
    lastOf_append, ← Accepted.lastPoint]
  cases a.lastPoint code start <;> rfl

theorem accept_frame (hdb : db.Sound)
    (hrecord : recordMany (fun _ _ _ ↦ (none : Option Empty)) (sciPosting a.published now id)
      (recordSourceDocument db document).1 a.workbook.entries = .ok (db', written))
    (hnone : a.lastPoint code start = none) :
    db'.rowsOf (.sci code) start = db.rowsOf (.sci code) start := by
  rw [recordMany_frame (recordSourceDocument_sound hdb) hrecord, recordSourceDocument_rowsOf]
  intro points hpoints
  obtain ⟨code', hcode, rfl⟩ := of_mem_entries hpoints
  obtain rfl := SeriesCode.sci.inj hcode
  exact Posting.printed_eq_none hnone

theorem accept_serves {p : SciObservation} (hdb : db.Sound)
    (hrecord : recordMany (fun _ _ _ ↦ (none : Option Empty)) (sciPosting a.published now id)
      (recordSourceDocument db document).1 a.workbook.entries = .ok (db', written))
    (hlast : a.lastPoint code start = some p) : db'.Says (.sci code) start p.value none :=
  recordMany_states (recordSourceDocument_sound hdb) hrecord (entries_nodup _)
    (mem_entries _ code) hlast

theorem accept_grows (hdb : db.Sound)
    (hrecord : recordMany (fun _ _ _ ↦ (none : Option Empty)) (sciPosting a.published now id)
      (recordSourceDocument db document).1 a.workbook.entries = .ok (db', written)) :
    db.series <+: db'.series ∧ db.rows <+: db'.rows := by
  have hdb := @recordSourceDocument_sound db document hdb
  obtain ⟨-, -, hseries⟩ := recordMany_ok hdb hrecord
  obtain ⟨new, hnew, -⟩ := recordMany_rows hdb hrecord
  rw [recordSourceDocument_rows] at hnew
  rw [recordSourceDocument_series] at hseries
  exact ⟨hseries, new, hnew.symm⟩

theorem accept_stamps {published : Instant} {p : SciObservation} (hdb : db.Sound)
    (hrecord : recordMany (fun _ _ _ ↦ (none : Option Empty)) (sciPosting a.published now id)
      (recordSourceDocument db document).1 a.workbook.entries = .ok (db', written))
    (hpublished : a.published = some published) (hp : p ∈ a.workbook.points code)
    (hunsaid : ¬ db.Says (.sci code) p.refPeriodStart p.value none) :
    ∃ newest, newestPublishedAt db' = some newest ∧ published ≤ newest := by
  have harchived := @recordSourceDocument_sound db document hdb
  obtain ⟨hsound, -, -⟩ := recordMany_ok harchived hrecord
  obtain ⟨new, hnew, hwrote⟩ := recordMany_rows harchived hrecord
  rcases new with _ | ⟨r, rest⟩
  · rw [append_nil] at hnew
    have hstated := recordMany_states_of_eq harchived hrecord hnew _ _ (mem_entries _ code) p hp
    exact absurd (hstated.congr recordSourceDocument_rowsOf.symm) hunsaid
  · obtain ⟨key, points, hmem, q, -, hr⟩ := hwrote r mem_cons_self
    obtain ⟨code', rfl, -⟩ := of_mem_entries hmem
    have hrow : r ∈ db'.rows := hnew ▸ mem_append_right _ mem_cons_self
    have hid : r.seriesId = db'.series.idxOf (.sci code') :=
      congrArg Prod.fst (hr.period_eq.trans (Posting.call_period _ _ _ _))
    exact newestPublishedAt_ge hrow (isSeriesOf_wrote hsound hrow hid)
      (hr.publishedAt_eq.trans hpublished)

theorem SciRun.Inv.accept (h : s.Inv) (hcall : call.accepted = some a)
    (hfresh : staleAgainst s.db a.published false = none) (hrecorded : s.Recorded call)
    (hrecord : recordMany (fun _ _ _ ↦ (none : Option Empty)) (sciPosting a.published now id)
      (recordSourceDocument s.db document).1 a.workbook.entries = .ok (db', written)) :
    (SciRun.mk db' (s.accepted ++ [a])).Inv := by
  obtain ⟨hseries, hrows⟩ := accept_grows h.sound hrecord
  refine ⟨(recordMany_ok (recordSourceDocument_sound h.sound) hrecord).1,
    fun code start hlast ↦ ?_, fun code start value hlast ↦ ?_,
    fun code start value hlast ↦ ?_, fun b hb published hpublished ↦ ?_⟩
  · rw [lastPrinted_append, Option.or_eq_none_iff, Option.map_eq_none_iff] at hlast
    rw [accept_frame h.sound hrecord hlast.1, h.blank code start hlast.2]
  · rw [lastPrinted_append] at hlast
    cases hprinted : a.lastPoint code start with
    | none =>
      rw [hprinted] at hlast
      exact (h.served code start value hlast).congr (accept_frame h.sound hrecord hprinted)
    | some p =>
      rw [hprinted] at hlast
      obtain rfl := Option.some.inj hlast
      exact accept_serves h.sound hrecord hprinted
  · rw [lastPrinted_append] at hlast
    cases hprinted : a.lastPoint code start with
    | none =>
      rw [hprinted] at hlast
      obtain ⟨b, hb, hprints, hnewest⟩ := h.newest code start value hlast
      refine ⟨b, mem_append_left _ hb, hprints, forall_mem_append.mpr
        ⟨hnewest, forall_mem_singleton.mpr (fun hmonth ↦ ?_)⟩⟩
      rw [Accepted.printsMonth_of_none hprinted] at hmonth
      cases hmonth
    | some p =>
      rw [hprinted] at hlast
      obtain rfl := Option.some.inj hlast
      obtain ⟨hp, hstart⟩ := Accepted.lastPoint_mem hprinted
      exact ⟨a, mem_append_right _ mem_cons_self, ⟨p, hp, hstart, rfl⟩,
        forall_mem_append.mpr ⟨fun b hb _ ↦ h.not_before hfresh hb,
          forall_mem_singleton.mpr (fun _ ↦ Accepted.before_self)⟩⟩
  · have hkept : ∀ newest, newestPublishedAt s.db = some newest → published ≤ newest →
        ∃ newest', newestPublishedAt db' = some newest' ∧ published ≤ newest' := by
      intro newest hnewest hle
      obtain ⟨newest', hnewest', hle'⟩ := newestPublishedAt_mono hseries hrows hnewest
      exact ⟨newest', hnewest', hle.trans hle'⟩
    rcases mem_append.mp hb with hb | hb
    · obtain ⟨newest, hnewest, hle⟩ := h.stored b hb published hpublished
      exact hkept newest hnewest hle
    · obtain rfl := mem_singleton.mp hb
      by_cases hlater : ∀ newest, newestPublishedAt s.db = some newest → newest < published
      · -- the day is later than every stored one, so a row has to carry it
        obtain ⟨code, p, hp, hunsaid⟩ := hrecorded.stamp b published hcall hpublished hlater
        exact accept_stamps h.sound hrecord hpublished hp hunsaid
      · push Not at hlater
        obtain ⟨newest, hnewest, hle⟩ := hlater
        exact hkept newest hnewest hle

end Accept

theorem post_cases (hcall : call.allowOlder = false) :
    s.post call = s ∨ ∃ a, call.accepted = some a ∧
      staleAgainst s.db a.published false = none ∧
      ∃ (db' : Database) (document : Document) (id : ℕ)
        (written : List (SeriesCode × List ObservationWrite)),
        recordMany (fun _ _ _ ↦ (none : Option Empty)) (sciPosting a.published call.now id)
          (recordSourceDocument s.db document).1 a.workbook.entries = .ok (db', written) ∧
        s.post call = ⟨db', s.accepted ++ [a]⟩ := by
  rw [SciRun.post]
  split
  · exact .inl rfl
  · rename_i db' report hingest
    obtain ⟨a, haccepted, hfresh, document, id, written, hrecord⟩ := ingestSciCpi_ok hingest
    rw [hcall] at hfresh
    refine .inr ⟨a, haccepted, hfresh, db', document, id, written, hrecord, ?_⟩
    rw [haccepted]
    rfl

theorem SciRun.Inv.post (h : s.Inv) (hrecorded : s.Recorded call)
    (hcall : call.allowOlder = false) : (s.post call).Inv := by
  rcases post_cases (s := s) hcall with hsame | ⟨a, haccepted, hfresh, db', _, _, _, hrecord, hpost⟩
  · rwa [hsame]
  · rw [hpost]
    exact h.accept haccepted hfresh hrecorded hrecord

theorem SciRun.Inv.post_again (h : s.Inv) (hrecorded : s.Recorded call)
    (hcall : call.allowOlder = false) (ha : call.accepted = some a)
    (hb : ∃ b ∈ s.accepted, b.contentSha256 = a.contentSha256) :
    (s.post call).db.rows = s.db.rows := by
  rcases post_cases (s := s) hcall with hsame |
    ⟨a', haccepted, hfresh, db', document, _, _, hrecord, hpost⟩
  · rw [hsame]
  · obtain rfl := Option.some.inj (ha.symm.trans haccepted)
    have hrows := recordMany_unchanged (recordSourceDocument_sound h.sound) hrecord
      (fun key points hmem p hp ↦ ?_)
    · rw [hpost]
      exact hrows.trans recordSourceDocument_rows
    obtain ⟨code, rfl, rfl⟩ := of_mem_entries hmem
    have hlast := hrecorded.again a ha hfresh hb code p hp
    exact (h.served code p.refPeriodStart p.value hlast).congr recordSourceDocument_rowsOf

theorem postNext_eq (h : call.allowOlder = false) : postNext s call = some (s.post call) := by
  rw [postNext, h]
  rfl

theorem run_posts {calls : List SciCall} (h : ∀ call ∈ calls, call.allowOlder = false) :
    Run postNext (fun _ _ ↦ True) s calls (calls.foldl SciRun.post s) := by
  induction calls generalizing s with
  | nil => exact .nil s
  | cons call calls ih =>
    obtain ⟨hcall, hcalls⟩ := forall_mem_cons.mp h
    exact .cons trivial (postNext_eq hcall) (ih hcalls)

/-- The figures of a month never move back, as long as every publication day
that is new is stored and nothing is posted again after it was overtaken. -/
theorem cpi_never_back (hdb : db.Sound) (hempty : ∀ code start, db.rowsOf (.sci code) start = [])
    {calls : List SciCall} (hrun : Run postNext SciRun.Recorded ⟨db, []⟩ calls s) :
    (∀ code start, s.ServesNewest code start) ∧
      (∀ call e, ingestSciCpi s.db call = .error e → (s.post call).db = s.db) ∧
      ∀ call a, call.allowOlder = false → s.Recorded call → call.accepted = some a →
        (∃ b ∈ s.accepted, b.contentSha256 = a.contentSha256) →
          (s.post call).db.rows = s.db.rows := by
  have hinv : s.Inv := by
    refine hrun.preserves (fun s call t hs hrecorded hnext ↦ ?_) (.initial hdb hempty)
    rw [postNext] at hnext
    split at hnext
    · cases hnext
    · rename_i holder
      obtain rfl := Option.some.inj hnext
      exact hs.post hrecorded (Bool.eq_false_iff.mpr holder)
  refine ⟨fun code start ↦ hinv.servesNewest, fun call e herror ↦ ?_,
    fun call a hcall hrecorded ha hb ↦ hinv.post_again hrecorded hcall ha hb⟩
  rw [SciRun.post, herror]

end Invariant

section Example

def SciObservation.of (jy jm : ℤ) (figure : ℚ) (h : (jalaliMonthSpan jy jm).isSome = true) :
    SciObservation where
  jalaliYear := jy
  jalaliMonth := jm
  refPeriodStart := ((jalaliMonthSpan jy jm).get h).1
  refPeriodEnd := ((jalaliMonthSpan jy jm).get h).2
  value := .finite figure
  span := by rw [Prod.mk.eta, Option.some_get]
  number := by simp

def baseMonth (m : Fin 12) : ℤ := (m.val : ℤ) + 1

theorem baseMonth_isSome : ∀ m : Fin 12,
    (jalaliMonthSpan sciBaseYear (baseMonth m)).isSome = true := by
  decide +kernel

def baseYearPoints : List SciObservation :=
  (List.finRange 12).map
    (fun m ↦ SciObservation.of sciBaseYear (baseMonth m) 100 (baseMonth_isSome m))

theorem mordad_isSome : (jalaliMonthSpan 1405 5).isSome = true := by decide

def mordadPoints (figure : ℚ) : List SciObservation :=
  baseYearPoints ++ [SciObservation.of 1405 5 figure mordad_isSome]

theorem basePoints_mordad (figure : ℚ) : basePoints (mordadPoints figure) = baseYearPoints := by
  have hbase : basePoints baseYearPoints = baseYearPoints := by
    refine filter_eq_self.mpr (fun p hp ↦ ?_)
    obtain ⟨m, -, rfl⟩ := mem_map.mp hp
    rfl
  rw [basePoints, mordadPoints, filter_append, ← basePoints, hbase]
  exact append_nil _

theorem basePoints_mean : (((baseYearPoints).map SciObservation.value).mapM Value.finite?).map
    (fun base ↦ base.sum / 12) = some 100 := by decide +kernel

def mordadWorkbook (figure : ℚ) : SciWorkbook where
  points _ := mordadPoints figure
  nonempty _ := by simp [mordadPoints]
  base_length _ := by rw [basePoints_mordad, baseYearPoints, length_map, length_finRange]
  base_mean _ := ⟨100, by rw [baseMean, basePoints_mordad, basePoints_mean], by decide +kernel⟩

def mordadCall (stamp contentSha256 : String) (figure : ℚ) (now : Instant) : SciCall where
  file := some
    { basename := "ts_urban_140505-" ++ stamp ++ ".xlsx"
      contentSha256 := contentSha256
      byteSize := 4096
      workbook := .ok (mordadWorkbook figure) }
  now := now

def firstCall : SciCall := mordadCall "14050610120000" "first" 700 (utcMidnight 739861)

def secondCall (now : Instant) : SciCall := mordadCall "14050618165804" "second" 690 now

def thirdCall : SciCall := mordadCall "14050720120000" "third" 700 (utcMidnight 739902)

def SciRun.empty : SciRun := ⟨.empty, []⟩

theorem recorded_first : SciRun.empty.Recorded firstCall where
  stamp a published _ _ _ := by
    refine ⟨.rent, (a.workbook.points .rent).head (a.workbook.nonempty .rent), head_mem _, ?_⟩
    rintro ⟨row, hrow, -⟩
    cases hrow
  again _ _ _ h := absurd h (by simp [SciRun.empty])

theorem recorded_second :
    (SciRun.empty.post firstCall).Recorded (secondCall (utcMidnight 739869)) where
  stamp a published ha _ _ := by
    obtain rfl := Option.some.inj ha
    refine ⟨.rent, SciObservation.of 1405 5 690 mordad_isSome, mem_append_right _ mem_cons_self, ?_⟩
    decide +kernel
  again a ha _ h := by
    obtain rfl := Option.some.inj ha
    have hsha : ¬ ∃ b ∈ (SciRun.empty.post firstCall).accepted, b.contentSha256 = "second" := by
      decide +kernel
    exact absurd h hsha

theorem cpi_never_back_revised :
    ((SciRun.empty.post firstCall).post (secondCall (utcMidnight 739869))).ServesNewest
      .rent 739820 := by
  have hrun : Run postNext SciRun.Recorded SciRun.empty
      [firstCall, secondCall (utcMidnight 739869)]
      ((SciRun.empty.post firstCall).post (secondCall (utcMidnight 739869))) :=
    .cons recorded_first (postNext_eq rfl) (.cons recorded_second (postNext_eq rfl) (.nil _))
  exact (cpi_never_back .empty (fun _ _ ↦ rfl) hrun).1 .rent 739820

/-- The third workbook states nothing new, so the second is accepted after it. -/
theorem older_figure_served :
    Run postNext (fun _ _ ↦ True) SciRun.empty
        [firstCall, thirdCall, secondCall (utcMidnight 739903)]
        ([firstCall, thirdCall, secondCall (utcMidnight 739903)].foldl SciRun.post .empty) ∧
      (([firstCall, thirdCall, secondCall (utcMidnight 739903)].foldl
        SciRun.post .empty).db.current (.sci .rent) 739820).map Observation.value =
          some (.finite 690) ∧
      ¬ ([firstCall, thirdCall, secondCall (utcMidnight 739903)].foldl
        SciRun.post .empty).ServesNewest .rent 739820 := by
  refine ⟨run_posts ?_, ?_⟩
  · simp [firstCall, secondCall, thirdCall, mordadCall]
  · decide +kernel

end Example

end TalaPala.Economic
