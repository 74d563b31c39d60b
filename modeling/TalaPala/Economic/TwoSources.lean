import TalaPala.Economic.CbiHistory
import Std.Data.String.ToInt

namespace TalaPala.Economic

open Library Library.Transition List

section Labels

theorem twoDigits_length {m : ℤ} (hm : 1 ≤ m ∧ m ≤ 12) : (twoDigits m).toList.length = 2 := by
  have hall : ∀ k : Fin 12, (twoDigits ((k.val : ℤ) + 1)).toList.length = 2 := by decide
  have h := hall ⟨(m - 1).toNat, by omega⟩
  rwa [show (((m - 1).toNat : ℤ)) + 1 = m by omega] at h

theorem twoDigits_inj {m m' : ℤ} (hm : 1 ≤ m ∧ m ≤ 12) (hm' : 1 ≤ m' ∧ m' ≤ 12)
    (h : twoDigits m = twoDigits m') : m = m' := by
  have hall : ∀ k k' : Fin 12, twoDigits ((k.val : ℤ) + 1) = twoDigits ((k'.val : ℤ) + 1) →
      k = k' := by decide
  have heq := hall ⟨(m - 1).toNat, by omega⟩ ⟨(m' - 1).toNat, by omega⟩
  rw [show (((m - 1).toNat : ℤ)) + 1 = m by omega,
    show (((m' - 1).toNat : ℤ)) + 1 = m' by omega] at heq
  have hval := congrArg Fin.val (heq h)
  dsimp only at hval
  omega

theorem periodLabel_inj {jy jm jy' jm' : ℤ} (hm : 1 ≤ jm ∧ jm ≤ 12) (hm' : 1 ≤ jm' ∧ jm' ≤ 12)
    (h : periodLabel jy jm = periodLabel jy' jm') : jy = jy' ∧ jm = jm' := by
  have hlist := congrArg String.toList h
  rw [periodLabel, periodLabel, String.toList_append, String.toList_append, String.toList_append,
    String.toList_append] at hlist
  obtain ⟨hyear, hmonth⟩ := append_inj' hlist
    (by rw [twoDigits_length hm, twoDigits_length hm'])
  obtain ⟨hyear, -⟩ := append_inj' hyear rfl
  exact ⟨Int.repr_injective (String.toList_injective hyear),
    twoDigits_inj hm hm' (String.toList_injective hmonth)⟩

end Labels

section Served

structure Database.ServedAsOf (db : Database) (code : SeriesCode) (start : Date) (asOf : Instant)
    (row : Observation) : Prop where
  mem : row ∈ db.rowsOf code start
  known : knowable asOf false row = true
  newest : ∀ other ∈ db.rowsOf code start, knowable asOf false other = true →
    servedBefore row other

variable {db : Database} {code : SeriesCode} {start : Date} {asOf : Instant}
  {row other : Observation}

theorem mem_rowsOf : row ∈ db.rowsOf code start ↔
    row ∈ db.rows ∧ row.seriesId = db.series.idxOf code ∧ row.refPeriodStart = start := by
  rw [Database.rowsOf, periodRows, mem_filter, decide_eq_true_eq, Observation.period, Prod.mk.injEq]

theorem Database.Sound.untied (h : db.Sound) (hrow : row ∈ db.rowsOf code start)
    (hother : other ∈ db.rowsOf code start) (hro : servedBefore row other)
    (hor : servedBefore other row) : row = other := by
  have hvintage : row.vintage = other.vintage := by
    unfold servedBefore Instant at *
    omega
  have hnodup : ((db.rowsOf code start).map Observation.vintage).Nodup := by
    rw [Database.rowsOf, (h.kept _).vintages]
    exact nodup_range'
  exact inj_on_of_nodup_map hnodup hrow hother hvintage

theorem mem_pointInTime : row ∈ db.rows.filter (fun row ↦
    inPeriodRange (db.series.idxOf code) none none row && knowable asOf false row) ↔
      row ∈ db.rowsOf code row.refPeriodStart ∧ knowable asOf false row = true := by
  rw [mem_filter, mem_rowsOf, Bool.and_eq_true, inPeriodRange]
  simp [and_assoc]

theorem Database.Sound.mem_pointInTime_iff (h : db.Sound) :
    row ∈ db.pointInTime code asOf ↔ db.ServedAsOf code row.refPeriodStart asOf row := by
  rw [Database.pointInTime]
  split
  · have hsel := pointInTimeStatement_isSelection .postgresql (db.series.idxOf code) asOf none none
      false db.rows
    constructor
    · intro hrow
      obtain ⟨hin, hbest⟩ := hsel.best row hrow
      obtain ⟨hin, hknown⟩ := mem_pointInTime.mp hin
      refine ⟨hin, hknown, fun other hother hknown' ↦ hbest other ?_ (mem_rowsOf.mp hother).2.2⟩
      refine mem_pointInTime.mpr ⟨?_, hknown'⟩
      rwa [(mem_rowsOf.mp hother).2.2]
    · intro hserved
      obtain ⟨best, hbest, hstart⟩ :=
        hsel.covers row (mem_pointInTime.mpr ⟨hserved.mem, hserved.known⟩)
      obtain ⟨hin, hfirst⟩ := hsel.best best hbest
      obtain ⟨hin', hknown⟩ := mem_pointInTime.mp hin
      rw [hstart] at hin'
      have heq := h.untied hserved.mem hin' (hserved.newest best hin' hknown)
        (hfirst row (mem_pointInTime.mpr ⟨hserved.mem, hserved.known⟩) hstart.symm)
      exact heq ▸ hbest
  · rename_i hnot
    refine ⟨fun hrow ↦ absurd hrow not_mem_nil, fun hserved ↦ ?_⟩
    obtain ⟨hin, hid, -⟩ := mem_rowsOf.mp hserved.mem
    have hlt := h.registered row hin
    rw [hid, idxOf_eq_length hnot] at hlt
    exact absurd hlt (lt_irrefl _)

theorem pointInTime_starts : ((db.pointInTime code asOf).map Observation.refPeriodStart).Nodup := by
  rw [Database.pointInTime]
  split
  · exact (pointInTimeStatement_isSelection _ _ _ _ _ _ _).nodup
  · exact nodup_nil

end Served

section Enters

structure Faithful (posting : Posting CbiObservation) (documentId : ℕ) : Prop where
  start : posting.start = CbiObservation.start
  value : posting.value = fun p ↦ .finite p.value
  method : posting.method = fun _ p ↦ p.method
  label : ∀ code id p, (posting.call code id p).refPeriodLabel = p.refPeriodLabel
  source : ∀ code id p, (posting.call code id p).sourceDocumentId = some documentId

def Enters (db db' : Database) (document : Document) (states : CbiCode → List CbiObservation) :
    Prop :=
  ∃ (ε : Type) (guard : List Observation → Call → ObservationWrite → Option ε)
    (posting : Posting CbiObservation) (reports : List (SeriesCode × List ObservationWrite)),
    Faithful posting (recordSourceDocument db document).2.1 ∧
      recordMany guard posting (recordSourceDocument db document).1
        (cbiCodes.map (fun code ↦ (.cbi code, states code))) = .ok (db', reports)

variable {db db' : Database} {document : Document} {states : CbiCode → List CbiObservation}
  {code : CbiCode} {start : Date} {p : CbiObservation} {r : Observation}

theorem mem_cbiEntries {key : SeriesCode} {points : List CbiObservation} :
    (key, points) ∈ cbiCodes.map (fun code ↦ (SeriesCode.cbi code, states code)) ↔
      ∃ code, key = .cbi code ∧ points = states code := by
  rw [mem_map]
  constructor
  · rintro ⟨code, -, heq⟩
    obtain ⟨rfl, rfl⟩ := Prod.mk.inj heq
    exact ⟨code, rfl, rfl⟩
  · rintro ⟨code, rfl, rfl⟩
    exact ⟨code, mem_cbiCodes code, rfl⟩

theorem Enters.sound (h : Enters db db' document states) (hdb : db.Sound) :
    db'.Sound ∧ db'.documents = (recordSourceDocument db document).1.documents ∧
      db.series <+: db'.series := by
  obtain ⟨ε, guard, posting, reports, -, hrecord⟩ := h
  obtain ⟨hsound, hdocuments, hseries⟩ := recordMany_ok (recordSourceDocument_sound hdb) hrecord
  rw [recordSourceDocument_series] at hseries
  exact ⟨hsound, hdocuments, hseries⟩

theorem Enters.frame (h : Enters db db' document states) (hdb : db.Sound)
    (hnone : lastOf (fun p ↦ p.start = start) (states code) = none) :
    db'.rowsOf (.cbi code) start = db.rowsOf (.cbi code) start := by
  obtain ⟨ε, guard, posting, reports, hfaithful, hrecord⟩ := h
  rw [recordMany_frame (recordSourceDocument_sound hdb) hrecord, recordSourceDocument_rowsOf]
  intro points hpoints p hp
  obtain ⟨code', hcode, rfl⟩ := mem_cbiEntries.mp hpoints
  obtain rfl := SeriesCode.cbi.inj hcode
  rw [hfaithful.start]
  exact of_decide_eq_false (lastOf_eq_none.mp hnone p hp)

theorem Enters.serves (h : Enters db db' document states) (hdb : db.Sound)
    (hlast : lastOf (fun p ↦ p.start = start) (states code) = some p) :
    db'.Says (.cbi code) start (.finite p.value) p.method := by
  obtain ⟨ε, guard, posting, reports, hfaithful, hrecord⟩ := h
  have hnodup : ((cbiCodes.map (fun code ↦ (SeriesCode.cbi code, states code))).map
      Prod.fst).Nodup := by
    rw [map_map, show Prod.fst ∘ (fun code ↦ (SeriesCode.cbi code, states code)) =
      SeriesCode.cbi from rfl]
    decide
  have hprinted : posting.printed (states code) start = some p := by
    rw [Posting.printed, hfaithful.start]
    exact hlast
  have hsaid := recordMany_states (recordSourceDocument_sound hdb) hrecord hnodup
    (mem_cbiEntries.mpr ⟨code, rfl, rfl⟩) hprinted
  rwa [hfaithful.value, hfaithful.method] at hsaid

theorem Enters.unchanged (h : Enters db db' document states) (hdb : db.Sound)
    (hstates : ∀ code, ∀ p ∈ states code,
      db.Says (.cbi code) p.start (.finite p.value) p.method) : db'.rows = db.rows := by
  obtain ⟨ε, guard, posting, reports, hfaithful, hrecord⟩ := h
  have hrows := recordMany_unchanged (recordSourceDocument_sound hdb) hrecord
  rw [recordSourceDocument_rows] at hrows
  refine hrows (fun key points hmem p hp ↦ ?_)
  obtain ⟨code, rfl, rfl⟩ := mem_cbiEntries.mp hmem
  rw [hfaithful.start, hfaithful.value, hfaithful.method]
  exact (hstates code p hp).congr recordSourceDocument_rowsOf

theorem Enters.rowsOf (h : Enters db db' document states) (hdb : db.Sound)
    (hr : r ∈ db'.rowsOf (.cbi code) start) : r ∈ db.rowsOf (.cbi code) start ∨
      ∃ p ∈ states code, p.start = start ∧ r.refPeriodLabel = p.refPeriodLabel ∧
        r.value = .finite p.value ∧
          r.sourceDocumentId = some (recordSourceDocument db document).2.1 := by
  obtain ⟨hsound, -, hseries⟩ := h.sound hdb
  obtain ⟨ε, guard, posting, reports, hfaithful, hrecord⟩ := h
  obtain ⟨new, hnew, hwrote⟩ := recordMany_rows (recordSourceDocument_sound hdb) hrecord
  rw [recordSourceDocument_rows] at hnew
  obtain ⟨hin, hid, hstart⟩ := mem_rowsOf.mp hr
  rw [hnew] at hin
  rcases mem_append.mp hin with hin | hin
  · left
    have hsame : ({ db' with rows := db.rows } : Database).rowsOf (.cbi code) start =
        db.rowsOf (.cbi code) start := hdb.rowsOf_of_prefix rfl hseries
    rw [← hsame]
    exact mem_rowsOf.mpr ⟨hin, hid, hstart⟩
  · right
    obtain ⟨key, points, hmem, p, hp, hpoint⟩ := hwrote r hin
    obtain ⟨code', rfl, rfl⟩ := mem_cbiEntries.mp hmem
    have hperiod := hpoint.period_eq.trans (posting.call_period _ _ _)
    have hseries_id : r.seriesId = db'.series.idxOf (.cbi code') := congrArg Prod.fst hperiod
    have hp_start : r.refPeriodStart = posting.start p := congrArg Prod.snd hperiod
    have hregistered : SeriesCode.cbi code' ∈ db'.series := by
      refine idxOf_lt_length_iff.mp ?_
      rw [← hseries_id]
      exact hsound.registered r (hnew ▸ mem_append_right _ hin)
    have hcode := (idxOf_inj hregistered).mp (hseries_id.symm.trans hid)
    obtain rfl := SeriesCode.cbi.inj hcode
    refine ⟨p, hp, ?_, hpoint.refPeriodLabel_eq.trans (hfaithful.label _ _ _), ?_,
      hpoint.sourceDocumentId_eq.trans (hfaithful.source _ _ _)⟩
    · rw [← hstart, hp_start, hfaithful.start]
    · rw [Posting.wrote_value hpoint, hfaithful.value]

end Enters

section Sources

inductive SourceFile
  | workbook (file : EditionFile)
  | payload (file : PayloadFile)
  | unreadable (reason : String)

def SourceFile.edition : SourceFile → Except String EditionFile
  | .workbook file => .ok file
  | .payload _ => .error "not an OLE2 compound file"
  | .unreadable reason => .error reason

def SourceFile.history : SourceFile → Except String PayloadFile
  | .payload file => .ok file
  | .workbook _ => .error "not the viewer's JSON answer"
  | .unreadable reason => .error reason

theorem SourceFile.edition_ok {content : SourceFile} {file : EditionFile}
    (h : content.edition = .ok file) : content = .workbook file := by
  cases content with
  | workbook file' => rw [Except.ok.inj h]
  | payload file' => cases h
  | unreadable reason => cases h

theorem SourceFile.history_ok {content : SourceFile} {file : PayloadFile}
    (h : content.history = .ok file) : content = .payload file := by
  cases content with
  | workbook file' => cases h
  | payload file' => rw [Except.ok.inj h]
  | unreadable reason => cases h

def SourceFile.isWorkbook : SourceFile → Bool
  | .workbook _ => true
  | _ => false

def mediaTypeOf (isWorkbook : Bool) : String :=
  if isWorkbook then mediaTypeXls else mediaTypeJson

def SourceFile.states : SourceFile → CbiCode → List CbiObservation
  | .workbook file => file.parsed.observations
  | .payload file =>
    match parseHistory file.payload with
    | .ok (points, _) => writtenMonths points
    | .error _ => fun _ ↦ []
  | .unreadable _ => fun _ ↦ []

inductive SourceCall
  | edition (post : EditionPost) (dryRun : Bool)
  | history (post : HistoryPost)

def SourceCall.contentSha256 : SourceCall → String
  | .edition post _ => post.contentSha256
  | .history post => post.contentSha256

def SourceCall.dryRun : SourceCall → Bool
  | .edition _ dryRun => dryRun
  | .history post => post.dryRun

inductive SourceError
  | edition (e : CbiError)
  | history (e : HistoryError)

variable (files : String → SourceFile)

def ingestSource (db : Database) : SourceCall → Except SourceError Database
  | .edition post dryRun =>
    match ingestEditionFile (fun sha ↦ (files sha).edition) db post with
    | .error e => .error (.edition e)
    | .ok (stored, _) => .ok (if dryRun then db else stored)
  | .history post =>
    match ingestCbiHistory (fun sha ↦ (files sha).history) db post with
    | .error e => .error (.history e)
    | .ok (stored, _) => .ok stored

structure SourcesRun where
  db : Database
  accepted : List String

def SourcesRun.post (s : SourcesRun) (call : SourceCall) : SourcesRun :=
  match ingestSource files s.db call with
  | .error _ => s
  | .ok db =>
    if call.dryRun then s else { db := db, accepted := s.accepted ++ [call.contentSha256] }

/-- The editions of the claim: none is older than the first Excel edition. -/
def FromFirstEdition (call : SourceCall) : Prop :=
  ∀ post dryRun, call = .edition post dryRun → ∀ file, files post.contentSha256 = .workbook file →
    firstExcelEdition ≤ file.parsed.edition

variable {files} {db db' : Database} {post : EditionPost} {code : CbiCode} {p : CbiObservation}

structure Printed (isWorkbook : Bool) (p : CbiObservation) : Prop where
  month_mem : 1 ≤ p.month ∧ p.month ≤ 12
  start_eq : p.start = monthStart p.year p.month
  carried : excelCanCarry p.year p.month = isWorkbook

theorem storeEdition_enters {file : EditionFile} {report : EditionReport}
    (h : writeEdition.storeEdition db post file = .ok (db', report)) :
    Enters db db' (post.document file) file.parsed.observations := by
  obtain ⟨-, stamp, written, hid, -, hrecord⟩ := storeEdition_ok h
  exact ⟨_, _, stamp.posting, written, ⟨rfl, rfl, rfl, fun _ _ _ ↦ rfl, fun _ _ _ ↦
    congrArg some hid⟩, hrecord⟩

theorem printed_of_edition {file : EditionFile} (hfirst : firstExcelEdition ≤ file.parsed.edition)
    (hp : p ∈ file.parsed.observations code) : Printed true p := by
  have hcolumn := file.parsed.mem_observations hp
  obtain ⟨-, hmonth⟩ := file.parsed.columns_mem hcolumn
  exact ⟨hmonth, file.parsed.start_eq hp, (excelCanCarry_iff hmonth).mpr
    ⟨file.parsed.edition, file.parsed.month_mem, hfirst, hcolumn⟩⟩

theorem writeHistory_ok {hpost : HistoryPost} {file : PayloadFile}
    {points : CbiCode → List HistoryPoint} {id : ℕ} {inserted : Bool}
    {written : List (SeriesCode × List ObservationWrite)}
    (h : writeHistory db hpost file points = .ok (db', id, inserted, written)) :
    Enters db db' (hpost.document file) (writtenMonths points) ∧
      ∀ code, ∀ p ∈ writtenMonths points code, hasSpan p = true := by
  rw [writeHistory] at h
  dsimp only at h
  split at h
  · rename_i hspans
    split at h
    · cases h
    · rename_i stored written' hrecord
      obtain ⟨rfl, -⟩ := Prod.mk.inj (Except.ok.inj h)
      refine ⟨⟨_, _, _, written', ⟨rfl, rfl, rfl, fun _ _ _ ↦ rfl, fun _ _ _ ↦ rfl⟩, hrecord⟩,
        fun code p hp ↦ ?_⟩
      exact all_eq_true.mp (all_eq_true.mp hspans code (mem_cbiCodes code)) p hp
  · cases h

theorem printed_of_history {payload : Payload} {points : CbiCode → List HistoryPoint}
    {shape : HistoryShape} (hparse : parseHistory payload = .ok (points, shape))
    (hp : p ∈ writtenMonths points code) (hspan : hasSpan p = true) : Printed false p := by
  obtain ⟨rows, -, -, hmem⟩ := parseHistory_ok hparse
  obtain ⟨point, hpoint, rfl⟩ := mem_map.mp hp
  obtain ⟨hpoint, hcarry⟩ := mem_filter.mp hpoint
  obtain ⟨-, r, -, -, husable⟩ := (hmem code point).mp hpoint
  have hmonth : 1 ≤ point.month ∧ point.month ≤ 12 := husable.month_mem
  have hcarry : excelCanCarry point.year point.month = false := by simpa using hcarry
  refine ⟨hmonth, ?_, hcarry⟩
  obtain ⟨span, hspan⟩ := Option.isSome_iff_exists.mp hspan
  have hfirst := (jalaliMonthSpan_eq_some.mp hspan).1
  rw [CbiObservation.start, monthSpan, hspan, Option.getD_some]
  exact congrArg Prod.fst hfirst

theorem ingestCbiHistory_ok {hpost : HistoryPost} {report : HistoryReport}
    (h : ingestCbiHistory (fun sha ↦ (files sha).history) db hpost = .ok (db', report))
    (hreal : hpost.dryRun = false) :
    ∃ file points shape, files hpost.contentSha256 = .payload file ∧
      parseHistory file.payload = .ok (points, shape) ∧ ∃ id inserted written,
        writeHistory db hpost file points = .ok (db', id, inserted, written) := by
  rw [ingestCbiHistory] at h
  split at h
  · cases h
  · rename_i file hfile
    split at h
    · cases h
    · rename_i points shape hparse
      split at h
      · cases h
      · split at h
        · cases h
        · rename_i stored id inserted written hwrite
          rw [hreal, if_neg Bool.false_ne_true] at h
          obtain ⟨rfl, -⟩ := Prod.mk.inj (Except.ok.inj h)
          exact ⟨file, points, shape, SourceFile.history_ok hfile, hparse, id, inserted, written,
            hwrite⟩

theorem ingestSource_ok {call : SourceCall} (h : ingestSource files db call = .ok db')
    (hreal : call.dryRun = false) (hfirst : FromFirstEdition files call) :
    ∃ document : Document, document.providerCode = .cbi ∧
      document.contentSha256 = call.contentSha256 ∧
      document.mediaType = mediaTypeOf (files call.contentSha256).isWorkbook ∧
      Enters db db' document (files call.contentSha256).states ∧
      ∀ code, ∀ p ∈ (files call.contentSha256).states code,
        Printed (files call.contentSha256).isWorkbook p := by
  cases call with
  | edition post dryRun =>
    rw [ingestSource] at h
    split at h
    · cases h
    · rename_i stored report hingest
      obtain rfl := Except.ok.inj h
      obtain ⟨file, hfile, -, -, hstore⟩ := ingestEditionFile_ok hingest
      have hworkbook := SourceFile.edition_ok hfile
      have hdry : dryRun = false := hreal
      rw [hdry, if_neg Bool.false_ne_true]
      refine ⟨post.document file, rfl, rfl, ?_, ?_, fun code p hp ↦ ?_⟩
      · rw [SourceCall.contentSha256, hworkbook]
        rfl
      · rw [SourceCall.contentSha256, hworkbook]
        exact storeEdition_enters hstore
      · rw [SourceCall.contentSha256, hworkbook] at hp ⊢
        exact printed_of_edition (hfirst post dryRun rfl file hworkbook) hp
  | history post =>
    rw [ingestSource] at h
    split at h
    · cases h
    · rename_i stored report hingest
      obtain rfl := Except.ok.inj h
      obtain ⟨file, points, shape, hpayload, hparse, hstore⟩ := ingestCbiHistory_ok hingest hreal
      obtain ⟨id, inserted, written, hwrite⟩ := hstore
      obtain ⟨henters, hspans⟩ := writeHistory_ok hwrite
      have hstates : (files post.contentSha256).states = writtenMonths points := by
        rw [hpayload, SourceFile.states, hparse]
      refine ⟨post.document file, rfl, rfl, ?_, ?_, fun code p hp ↦ ?_⟩
      · rw [SourceCall.contentSha256, hpayload]
        rfl
      · rw [SourceCall.contentSha256, hstates]
        exact henters
      · rw [SourceCall.contentSha256, hstates] at hp
        rw [SourceCall.contentSha256, hpayload]
        exact printed_of_history hparse hp (hspans code p hp)

end Sources

end TalaPala.Economic
