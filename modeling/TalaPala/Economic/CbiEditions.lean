import TalaPala.Economic.Database
import TalaPala.Economic.Jalali
import Mathlib.Data.Prod.Lex

namespace TalaPala.Economic

open Library List

section Columns

abbrev Month := ℤ × ℤ

/-- Editions in the order of the months that they report. -/
instance : LinearOrder Edition :=
  LinearOrder.lift' (fun e ↦ toLex (e.year, e.month)) (fun e f h ↦ by
    obtain ⟨hyear, hmonth⟩ := Prod.mk.inj (toLex.injective h)
    exact Edition.ext hyear hmonth)

theorem Edition.le_iff {e f : Edition} :
    e ≤ f ↔ e.year < f.year ∨ e.year = f.year ∧ e.month ≤ f.month := Prod.Lex.le_iff

def Edition.isEsfand (e : Edition) : Bool := e.month = 12

def Edition.columns (e : Edition) : List Month :=
  if e.isEsfand then [(e.year - 2, 12), (e.year - 1, 12), (e.year, 12)]
  else [(e.year - 1, e.month), (e.year - 1, 12), (e.year, e.month)]

def firstExcelEdition : Edition := ⟨1399, 4⟩

def excelCanCarry (year month : ℤ) : Bool :=
  let candidates : List Edition :=
    ⟨year, month⟩ :: if month = 12 then [⟨year + 1, 12⟩, ⟨year + 2, 12⟩] else [⟨year + 1, month⟩]
  candidates.any (fun candidate ↦
    decide (firstExcelEdition ≤ candidate) && decide ((year, month) ∈ candidate.columns))

theorem mem_columns {e : Edition} {year month : ℤ} : (year, month) ∈ e.columns ↔
    (year = e.year ∧ month = e.month) ∨ (year = e.year - 1 ∧ month = 12) ∨
      (e.month = 12 ∧ year = e.year - 2 ∧ month = 12) ∨
        (e.month ≠ 12 ∧ year = e.year - 1 ∧ month = e.month) := by
  rw [Edition.columns, Edition.isEsfand]
  by_cases h : e.month = 12
  · rw [if_pos (decide_eq_true h)]
    simp only [mem_cons, Prod.mk.injEq, not_mem_nil, or_false]
    omega
  · rw [if_neg (by simpa using h)]
    simp only [mem_cons, Prod.mk.injEq, not_mem_nil, or_false]
    omega

theorem excelCanCarry_iff {year month : ℤ} (hmonth : 1 ≤ month ∧ month ≤ 12) :
    excelCanCarry year month = true ↔ ∃ e : Edition, (1 ≤ e.month ∧ e.month ≤ 12) ∧
      firstExcelEdition ≤ e ∧ (year, month) ∈ e.columns := by
  simp only [excelCanCarry, any_eq_true, Bool.and_eq_true, decide_eq_true_eq]
  constructor
  · rintro ⟨e, he, hfirst, hprints⟩
    refine ⟨e, ?_, hfirst, hprints⟩
    by_cases h : month = 12
    · simp only [h, if_true, mem_cons, not_mem_nil, or_false] at he
      rcases he with rfl | rfl | rfl <;> simp
    · simp only [h, if_false, mem_cons, not_mem_nil, or_false] at he
      rcases he with rfl | rfl <;> exact hmonth
  · rintro ⟨e, he, hfirst, hprints⟩
    have hcolumns := mem_columns.mp hprints
    by_cases h : month = 12
    · by_cases hnext : e.year = year + 1
      · -- every edition of the year after carries Esfand, its own Esfand too
        refine ⟨⟨year + 1, 12⟩, by simp [h], ?_, ?_⟩
        · rw [Edition.le_iff] at hfirst ⊢
          dsimp only at hfirst ⊢
          omega
        · rw [mem_columns]
          dsimp only
          omega
      · refine ⟨e, ?_, hfirst, hprints⟩
        simp only [h, if_true, mem_cons, not_mem_nil, or_false, Edition.ext_iff]
        omega
    · refine ⟨e, ?_, hfirst, hprints⟩
      simp only [h, if_false, mem_cons, not_mem_nil, or_false, Edition.ext_iff]
      omega

end Columns

section Workbook

def accountingTolerance : ℚ := 15 / 100

/-- What `parse_sheet` makes of a sheet that passes its checks: the edition of
its title, and the level of each series in each of the three columns. -/
structure ParsedEdition where
  edition : Edition
  level : CbiCode → Fin 3 → ℚ
  revisionStart : Option Month
  year_mem : 1300 ≤ edition.year ∧ edition.year ≤ 1500
  month_mem : 1 ≤ edition.month ∧ edition.month ≤ 12
  positive : ∀ code i, 0 < level code i
  liquidity_sum : ∀ i, |level .liquidity i - (level .moneyM1 i + level .quasiMoney i)| ≤
    accountingTolerance

def ParsedEdition.methodOf (parsed : ParsedEdition) (month : Month) : Method :=
  match parsed.revisionStart with
  | some start => if toLex start ≤ toLex month then .revised else .old
  | none => .old

structure CbiObservation where
  year : ℤ
  month : ℤ
  value : ℚ
  method : Option Method

def ParsedEdition.observations (parsed : ParsedEdition) (code : CbiCode) : List CbiObservation :=
  (parsed.edition.columns.zip ((List.finRange 3).map (parsed.level code))).map (fun column ↦
    { year := column.1.1
      month := column.1.2
      value := column.2
      method := if code = .baseMoney then some (parsed.methodOf column.1) else none })

/-- What `read_workbook` reads in a file. -/
structure EditionFile where
  parsed : ParsedEdition
  byteSize : ℕ
  savedAt : Option Instant

def monthSpan (year month : ℤ) : Date × Date := (jalaliMonthSpan year month).getD (0, 0)

def CbiObservation.start (point : CbiObservation) : Date := (monthSpan point.year point.month).1

def CbiObservation.refPeriodLabel (point : CbiObservation) : String :=
  periodLabel point.year point.month

end Workbook

section Stored

def mediaTypeXls : String := "application/vnd.ms-excel"

def Document.isEdition (document : Document) : Bool :=
  decide (document.providerCode = .cbi) && decide (document.mediaType = mediaTypeXls)

def EditionLabel.edition? : EditionLabel → Option Edition
  | .monthly e => some e
  | _ => none

def newestStoredEdition (db : Database) : Option Edition :=
  ((db.documents.filter Document.isEdition).filterMap (fun d ↦ d.editionLabel.edition?)).max?

def Database.documentOf (db : Database) (row : Observation) : Option Document :=
  row.sourceDocumentId.bind (fun id ↦ db.documents[id]?)

theorem documentOf_extended {db db' : Database} {row : Observation} {d : Document}
    (hdocuments : db.documents <+: db'.documents) (h : db.documentOf row = some d) :
    db'.documentOf row = some d := by
  obtain ⟨id, hid, hget⟩ := Option.bind_eq_some_iff.mp h
  obtain ⟨rest, hrest⟩ := hdocuments
  refine Option.bind_eq_some_iff.mpr ⟨id, hid, ?_⟩
  rw [← hrest, getElem?_append_left (List.getElem?_eq_some_iff.mp hget).1]
  exact hget

def newestEditionAvailableAt (db : Database) : Option Instant :=
  ((db.rows.filter (fun row ↦ (db.documentOf row).any Document.isEdition)).map
    Observation.availableAt).max?

def backfillAvailabilityLag : ℤ := microsPerDay

def backfillAvailableAt (savedAt floor : Option Instant) (now : Instant) : Instant × Bool :=
  match savedAt with
  | none => (now, false)
  | some saved =>
    let candidate := saved + backfillAvailabilityLag
    let candidate := match floor with
      | some floor => if candidate < floor then floor else candidate
      | none => candidate
    if now ≤ candidate then (now, false) else (candidate, true)

def printSavedAt (db : Database) (rows : List Observation) (period : Period)
    (vintage : Option ℕ) : Option Instant :=
  match vintage with
  | none => none
  | some vintage =>
    ((rows.find? (fun row ↦ row.period = period ∧ row.vintage = vintage)).bind
      db.documentOf).bind Document.documentSavedAt

def savedBefore (incoming stored : Option Instant) : Bool :=
  match incoming, stored with
  | some incoming, some stored => decide (incoming < stored)
  | _, _ => false

end Stored

section Ingest

inductive CbiError
  | unreadable (reason : String)
  | mislabelled (listed found : Edition)
  | stale (edition newest : Edition)
  | unrevised (edition : Edition) (period : Period)
  | record (e : RecordError)

/-- The arguments of one `ingest_edition_file` call on the file with a digest. -/
structure EditionPost where
  contentSha256 : String
  filename : String := ""
  url : String := ""
  backfill : Bool := false
  allowOlder : Bool := false
  expected : Option Edition := none
  started : Instant

structure SeriesReport where
  code : SeriesCode
  counts : Counts
  projections : ℕ

structure EditionReport where
  edition : Edition
  availableAt : Instant
  availableAtApprox : Bool
  documentId : ℕ
  documentInserted : Bool
  series : List SeriesReport
  totals : Counts

def cbiSectionUrl : String := "https://www.cbi.ir/category/2692.aspx"

def EditionPost.document (post : EditionPost) (file : EditionFile) : Document where
  providerCode := .cbi
  url := if post.url = "" then cbiSectionUrl else post.url
  title := "Central Bank of Iran, Selected Economic Indicators (monetary), " ++
    periodLabel file.parsed.edition.year file.parsed.edition.month ++ " edition (" ++
      post.filename ++ ")"
  mediaType := mediaTypeXls
  byteSize := file.byteSize
  contentSha256 := post.contentSha256
  fetchedAt := post.started
  editionLabel := .monthly file.parsed.edition
  documentSavedAt := file.savedAt

structure EditionStamp where
  availableAt : Instant
  approx : Bool
  publishedAt : Option Instant
  documentId : ℕ
  collectedAt : Instant

def EditionStamp.isProjection (stamp : EditionStamp) (point : CbiObservation) : Bool :=
  decide (utcDate stamp.availableAt ≤ (monthSpan point.year point.month).2)

def EditionStamp.call (stamp : EditionStamp) (seriesId : ℕ) (point : CbiObservation) : Call where
  seriesId := seriesId
  refPeriodStart := (monthSpan point.year point.month).1
  refPeriodEnd := (monthSpan point.year point.month).2
  refPeriodLabel := point.refPeriodLabel
  value := some (.decimal (.finite point.value))
  availableAt := some stamp.availableAt
  publishedAt := stamp.publishedAt
  isProjection := stamp.isProjection point
  sourceDocumentId := some stamp.documentId
  collectedAt := some stamp.collectedAt
  method := point.method
  availableAtApprox := stamp.approx
  utcnow := stamp.collectedAt

theorem CbiObservation.number (point : CbiObservation) : Value.finite point.value ≠ .nan := by
  simp

def EditionStamp.posting (stamp : EditionStamp) : Posting CbiObservation where
  start := CbiObservation.start
  value point := .finite point.value
  method _ point := point.method
  call _ := stamp.call
  call_period _ _ _ := rfl
  call_stored _ _ point := ⟨.decimal (.finite point.value), rfl, rfl⟩
  call_method _ _ _ := rfl
  value_ne_nan := CbiObservation.number

def cbiCodes : List CbiCode := [.baseMoney, .liquidity, .moneyM1, .quasiMoney]

def ParsedEdition.entries (parsed : ParsedEdition) : List (SeriesCode × List CbiObservation) :=
  cbiCodes.map (fun code ↦ (.cbi code, parsed.observations code))

def unrevisedGuard (db : Database) (file : EditionFile) (allowOlder : Bool)
    (rows : List Observation) (call : Call) (write : ObservationWrite) : Option CbiError :=
  if write.status = .revised ∧ write.previousMethod = some .revised ∧
      call.method = some .old ∧ allowOlder = false ∧
      savedBefore file.savedAt (printSavedAt db rows call.period write.previousVintage) = false
    then some (.unrevised file.parsed.edition call.period)
  else none

def seriesReport (stamp : EditionStamp) (parsed : ParsedEdition)
    (written : CbiCode × SeriesCode × List ObservationWrite) : SeriesReport where
  code := written.2.1
  counts := tally written.2.2
  projections := (parsed.observations written.1).countP stamp.isProjection

def EditionPost.available (post : EditionPost) (db : Database) (file : EditionFile) :
    Instant × Bool :=
  if post.backfill then
    backfillAvailableAt file.savedAt (newestEditionAvailableAt db) post.started
  else (post.started, false)

def writeEdition (db : Database) (post : EditionPost) (file : EditionFile) :
    Except CbiError (Database × EditionReport) :=
  let edition := file.parsed.edition
  match newestStoredEdition db with
  | some newest =>
    if edition < newest ∧ post.allowOlder = false then .error (.stale edition newest)
    else storeEdition db post file
  | none => storeEdition db post file
where
  storeEdition (db : Database) (post : EditionPost) (file : EditionFile) :
      Except CbiError (Database × EditionReport) :=
    let available := post.available db file
    let (archived, documentId, documentInserted) :=
      recordSourceDocument db (post.document file)
    let stamp : EditionStamp :=
      { availableAt := available.1
        approx := available.2
        publishedAt := file.savedAt
        documentId := documentId
        collectedAt := post.started }
    match recordMany (unrevisedGuard archived file post.allowOlder) stamp.posting archived
        file.parsed.entries with
    | .error (.inl e) => .error e
    | .error (.inr e) => .error (.record e)
    | .ok (stored, written) =>
      let series := (cbiCodes.zip written).map (seriesReport stamp file.parsed)
      .ok (stored,
        { edition := file.parsed.edition
          availableAt := available.1
          availableAtApprox := available.2
          documentId := documentId
          documentInserted := documentInserted
          series := series
          totals := (series.map SeriesReport.counts).foldl Counts.add .zero })

/-- `files` is what can be read in the file with a digest. -/
def ingestEditionFile (files : String → Except String EditionFile) (db : Database)
    (post : EditionPost) : Except CbiError (Database × EditionReport) :=
  match files post.contentSha256 with
  | .error reason => .error (.unreadable reason)
  | .ok file =>
    match post.expected with
    | some listed =>
      if listed ≠ file.parsed.edition then .error (.mislabelled listed file.parsed.edition)
      else writeEdition db post file
    | none => writeEdition db post file

variable {files : String → Except String EditionFile} {db db' : Database} {post : EditionPost}
  {file : EditionFile} {report : EditionReport}

theorem storeEdition_ok (h : writeEdition.storeEdition db post file = .ok (db', report)) :
    report.edition = file.parsed.edition ∧ ∃ (stamp : EditionStamp)
      (written : List (SeriesCode × List ObservationWrite)),
      stamp.documentId = (recordSourceDocument db (post.document file)).2.1 ∧
        stamp.availableAt = (post.available db file).1 ∧
        recordMany (unrevisedGuard (recordSourceDocument db (post.document file)).1 file
          post.allowOlder) stamp.posting (recordSourceDocument db (post.document file)).1
          file.parsed.entries = .ok (db', written) := by
  rw [writeEdition.storeEdition] at h
  dsimp only at h
  split at h
  · cases h
  · cases h
  · rename_i stored written hrecord
    obtain ⟨rfl, rfl⟩ := Prod.mk.inj (Except.ok.inj h)
    exact ⟨rfl, _, written, rfl, rfl, hrecord⟩

theorem writeEdition_ok (h : writeEdition db post file = .ok (db', report)) :
    writeEdition.storeEdition db post file = .ok (db', report) ∧
      (post.allowOlder = false →
        ∀ newest ∈ newestStoredEdition db, newest ≤ file.parsed.edition) := by
  rw [writeEdition] at h
  cases hnewest : newestStoredEdition db with
  | none =>
    rw [hnewest] at h
    exact ⟨h, fun _ newest hmem ↦ by cases hmem⟩
  | some newest =>
    rw [hnewest] at h
    dsimp only at h
    split at h
    · cases h
    · rename_i hstale
      refine ⟨h, fun holder newest' hmem ↦ ?_⟩
      obtain rfl := Option.mem_some_iff.mp hmem
      exact not_lt.mp (fun hlt ↦ hstale ⟨hlt, holder⟩)

theorem ingestEditionFile_ok (h : ingestEditionFile files db post = .ok (db', report)) :
    ∃ file, files post.contentSha256 = .ok file ∧
      (∀ listed ∈ post.expected, listed = file.parsed.edition) ∧
      (post.allowOlder = false →
        ∀ newest ∈ newestStoredEdition db, newest ≤ file.parsed.edition) ∧
      writeEdition.storeEdition db post file = .ok (db', report) := by
  rw [ingestEditionFile] at h
  split at h
  · cases h
  · rename_i file hfile
    split at h
    · rename_i listed hlisted
      split at h
      · cases h
      · rename_i hsame
        obtain ⟨hstore, hnewest⟩ := writeEdition_ok h
        refine ⟨file, hfile, fun listed' hmem ↦ ?_, hnewest, hstore⟩
        rw [hlisted, Option.mem_some_iff] at hmem
        exact hmem ▸ not_not.mp hsame
    · rename_i hlisted
      obtain ⟨hstore, hnewest⟩ := writeEdition_ok h
      refine ⟨file, hfile, fun listed hmem ↦ ?_, hnewest, hstore⟩
      rw [hlisted] at hmem
      cases hmem

end Ingest

section Prints

variable {parsed : ParsedEdition} {code : CbiCode} {key : SeriesCode}
  {points : List CbiObservation} {p : CbiObservation}

theorem mem_cbiCodes (code : CbiCode) : code ∈ cbiCodes := by
  cases code <;> decide

theorem ParsedEdition.mem_entries (parsed : ParsedEdition) (code : CbiCode) :
    (SeriesCode.cbi code, parsed.observations code) ∈ parsed.entries :=
  mem_map.mpr ⟨code, mem_cbiCodes code, rfl⟩

theorem ParsedEdition.of_mem_entries (h : (key, points) ∈ parsed.entries) :
    ∃ code, key = .cbi code ∧ points = parsed.observations code := by
  obtain ⟨code, -, heq⟩ := mem_map.mp h
  obtain ⟨rfl, rfl⟩ := Prod.mk.inj heq
  exact ⟨code, rfl, rfl⟩

theorem ParsedEdition.entries_nodup (parsed : ParsedEdition) :
    (parsed.entries.map Prod.fst).Nodup := by
  have hkeys : parsed.entries.map Prod.fst = cbiCodes.map .cbi := by
    rw [ParsedEdition.entries, map_map]
    rfl
  rw [hkeys]
  decide

theorem ParsedEdition.mem_observations (h : p ∈ parsed.observations code) :
    (p.year, p.month) ∈ parsed.edition.columns := by
  obtain ⟨column, hcolumn, rfl⟩ := mem_map.mp h
  exact (of_mem_zip hcolumn).1

theorem ParsedEdition.columns_mem {month : Month} (h : month ∈ parsed.edition.columns) :
    (1298 ≤ month.1 ∧ month.1 ≤ 1500) ∧ 1 ≤ month.2 ∧ month.2 ≤ 12 := by
  have hcolumns := mem_columns.mp h
  have hyear := parsed.year_mem
  have hmonth := parsed.month_mem
  omega

theorem monthSpan_of_years {jy jm : ℤ} (hy : 1 ≤ jy ∧ jy ≤ 9000) (hm : 1 ≤ jm ∧ jm ≤ 12) :
    monthSpan jy jm =
      (monthStart jy jm, monthStart (nextMonth jy jm).1 (nextMonth jy jm).2 - 1) := by
  rw [monthSpan, jalaliMonthSpan_of_years hy hm]
  rfl

theorem ParsedEdition.start_eq (h : p ∈ parsed.observations code) :
    p.start = monthStart p.year p.month := by
  obtain ⟨hyear, hmonth⟩ := parsed.columns_mem (parsed.mem_observations h)
  rw [CbiObservation.start, monthSpan_of_years (by dsimp only at hyear; omega) hmonth]

end Prints

section Example

def springEdition (month : ℤ) (h : 1 ≤ month ∧ month ≤ 12) (m2 : ℚ) (hm2 : 1 < m2) :
    ParsedEdition where
  edition := ⟨1399, month⟩
  level code _ := match code with
    | .liquidity => m2
    | .quasiMoney => m2 - 1
    | _ => 1
  revisionStart := none
  year_mem := by norm_num
  month_mem := h
  positive code i := by
    cases code
    · exact one_pos
    · exact one_pos.trans hm2
    · exact one_pos
    · exact sub_pos.mpr hm2
  liquidity_sum i := by
    have h : m2 - (1 + (m2 - 1)) = 0 := by rw [add_sub_cancel, sub_self]
    show |m2 - (1 + (m2 - 1))| ≤ accountingTolerance
    rw [h, abs_zero]
    norm_num [accountingTolerance]

def firstSpringEdition : ParsedEdition := springEdition 4 (by norm_num) 10 (by norm_num)

end Example

end TalaPala.Economic
