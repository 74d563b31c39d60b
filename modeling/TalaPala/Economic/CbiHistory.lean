import TalaPala.Economic.CbiEditions

namespace TalaPala.Economic

open Library List

section Payload

def mediaTypeJson : String := "application/json"

def tsdviewUrl : String := "https://tsdview.cis.cbi.ir/backend/api/value/graph"

def categoryCodes : List CbiCode := [.liquidity, .baseMoney, .moneyM1, .quasiMoney]

def categoryId : CbiCode → String
  | .liquidity => "3505fc25-6097-8f09-e063-4ceaa8c0b336"
  | .baseMoney => "3505fc25-6014-8f09-e063-4ceaa8c0b336"
  | .moneyM1 => "3505fc25-6098-8f09-e063-4ceaa8c0b336"
  | .quasiMoney => "3505fc25-6031-8f09-e063-4ceaa8c0b336"

def codeOf (category : String) : Option CbiCode :=
  categoryCodes.find? (fun code ↦ categoryId code = category)

def quarterlySubfrequencyId : String :=
  "9848C04378D9D268F987140AB9D87A3BF71A53B447D059BB26A52B9DD0F58732"

def thousandBillionRialUnitId : String :=
  "2C129749BA41EA3F249D5DBA05769091B78C58AB01E3DBFFEC82B05EDD0B9B54"

def quarterEndMonths : List ℤ := [3, 6, 9, 12]

/-- The amount of a row: absent or empty, a text that is no decimal number, or
the number that it is. -/
inductive Amount
  | missing
  | unreadable (text : String)
  | number (value : Value)

inductive DatePerYear
  | absent
  | number (year : ℚ)
  | other

structure ViewerRow where
  category : String
  amount : Amount
  subFrequencyId : Option String
  unitId : Option String
  khDate : Option Month
  datePerYear : DatePerYear

inductive PayloadRow
  | object (row : ViewerRow)
  | other

/-- What `json.loads` makes of a payload. -/
inductive Payload
  | list (rows : List PayloadRow)
  | other

inductive HistoryError
  | unreadable (reason : String)
  | notAList
  | notAnObject (index : ℕ)
  | notQuarterly (index : ℕ) (code : CbiCode)
  | unit (index : ℕ) (code : CbiCode)
  | undated (index : ℕ) (code : CbiCode)
  | notQuarterEnd (index : ℕ) (code : CbiCode) (month : Month)
  | otherYear (index : ℕ) (code : CbiCode) (month : Month)
  | notANumber (index : ℕ) (code : CbiCode)
  | notPositive (index : ℕ) (code : CbiCode)
  | twice (code : CbiCode) (month : Month) (previous value : ℚ)
  | missingSeries (codes : List CbiCode)
  | disagrees (code : CbiCode) (month : Month) (viewer : ℚ) (stored : Value)
  | noSpan
  | record (e : RecordError)

structure HistoryPoint where
  code : CbiCode
  year : ℤ
  month : ℤ
  value : ℚ

def HistoryPoint.refPeriodLabel (point : HistoryPoint) : String :=
  periodLabel point.year point.month

structure HistoryParse where
  points : CbiCode → List (Month × ℚ)
  gaps : ℕ
  otherCategories : List (String × ℕ)

def HistoryParse.empty : HistoryParse := ⟨fun _ ↦ [], 0, []⟩

def countCategory (category : String) : List (String × ℕ) → List (String × ℕ)
  | [] => [(category, 1)]
  | (name, n) :: rest =>
    if name = category then (name, n + 1) :: rest else (name, n) :: countCategory category rest

def DatePerYear.contradicts (cell : DatePerYear) (year : ℤ) : Bool :=
  match cell with
  | .absent => false
  | .number stated => decide (stated ≠ year)
  | .other => true

def parseRow (index : ℕ) (code : CbiCode) (row : ViewerRow) : Except HistoryError (Month × ℚ) :=
  if row.subFrequencyId ≠ some quarterlySubfrequencyId then .error (.notQuarterly index code)
  else if row.unitId ≠ some thousandBillionRialUnitId then .error (.unit index code)
  else
    match row.khDate with
    | none => .error (.undated index code)
    | some month =>
      if month.2 ∉ quarterEndMonths then .error (.notQuarterEnd index code month)
      else if row.datePerYear.contradicts month.1 then .error (.otherYear index code month)
      else
        match row.amount with
        | .number (.finite value) =>
          if value ≤ 0 then .error (.notPositive index code) else .ok (month, value)
        | .number _ => .error (.notPositive index code)
        | _ => .error (.notANumber index code)

def HistoryParse.add (parse : HistoryParse) (code : CbiCode) (month : Month) (value : ℚ) :
    Except HistoryError HistoryParse :=
  match (parse.points code).lookup month with
  | some previous =>
    if previous ≠ value then .error (.twice code month previous value) else .ok parse
  | none =>
    let values := parse.points code ++ [(month, value)]
    .ok { parse with points := Function.update parse.points code values }

def parseRows : ℕ → HistoryParse → List PayloadRow → Except HistoryError HistoryParse
  | _, parse, [] => .ok parse
  | index, _, .other :: _ => .error (.notAnObject index)
  | index, parse, .object row :: rows =>
    match codeOf row.category with
    | none =>
      parseRows (index + 1)
        { parse with otherCategories := countCategory row.category parse.otherCategories } rows
    | some code =>
      match row.amount with
      | .missing => parseRows (index + 1) { parse with gaps := parse.gaps + 1 } rows
      | _ =>
        match parseRow index code row with
        | .error e => .error e
        | .ok (month, value) =>
          match parse.add code month value with
          | .error e => .error e
          | .ok parse => parseRows (index + 1) parse rows

structure HistoryShape where
  rows : ℕ
  gaps : ℕ
  otherCategories : List (String × ℕ)

def HistoryParse.history (parse : HistoryParse) (code : CbiCode) : List HistoryPoint :=
  ((parse.points code).insertionSort (fun a b ↦ toLex a.1 ≤ toLex b.1)).map
    (fun entry ↦ ⟨code, entry.1.1, entry.1.2, entry.2⟩)

def parseHistory (payload : Payload) :
    Except HistoryError ((CbiCode → List HistoryPoint) × HistoryShape) :=
  match payload with
  | .other => .error .notAList
  | .list rows =>
    match parseRows 0 .empty rows with
    | .error e => .error e
    | .ok parse =>
      let blank := cbiCodes.filter (fun code ↦ (parse.points code).isEmpty)
      if blank ≠ [] then .error (.missingSeries blank)
      else .ok (parse.history, ⟨rows.length, parse.gaps, parse.otherCategories⟩)

end Payload

section Overlap

def overlapTolerance : ℚ := 1 / 10

def strictOverlapCodes : List CbiCode := [.liquidity, .moneyM1, .quasiMoney]

structure Compared where
  point : HistoryPoint
  stored : Value
  method : Option Method

def Compared.agrees (compared : Compared) : Bool :=
  match compared.stored with
  | .finite excel => decide (|compared.point.value - excel| ≤ overlapTolerance)
  | _ => false

structure Overlap where
  compared : ℕ
  agreed : ℕ
  disagreements : List Compared

def Database.pointInTime (db : Database) (code : SeriesCode) (asOf : Instant) :
    List Observation :=
  if code ∈ db.series then
    pointInTimeStatement .postgresql (db.series.idxOf code) asOf none none false db.rows
  else []

def overlapOf (db : Database) (code : CbiCode) (history : List HistoryPoint) (asOf : Instant) :
    Overlap :=
  let stored := db.pointInTime (.cbi code) asOf
  let compared := history.filterMap (fun point ↦
    (lastOf (fun item ↦ item.refPeriodLabel = point.refPeriodLabel) stored).map
      (fun item ↦ Compared.mk point item.value item.method))
  { compared := compared.length
    agreed := compared.countP Compared.agrees
    disagreements := compared.filter (fun compared ↦ !compared.agrees) }

def checkOverlap (db : Database) (overlap : CbiCode → List HistoryPoint) (asOf : Instant) :
    List CbiCode → Except HistoryError (List (CbiCode × Overlap))
  | [] => .ok []
  | code :: codes =>
    let result := overlapOf db code (overlap code) asOf
    match result.disagreements with
    | first :: _ =>
      if code ∈ strictOverlapCodes then
        .error (.disagrees code (first.point.year, first.point.month) first.point.value
          first.stored)
      else (checkOverlap db overlap asOf codes).map (fun rest ↦ (code, result) :: rest)
    | [] => (checkOverlap db overlap asOf codes).map (fun rest ↦ (code, result) :: rest)

end Overlap

section Ingest

structure PayloadFile where
  payload : Payload
  byteSize : ℕ

/-- The arguments of one `ingest_cbi_history` call on the file with a digest. -/
structure HistoryPost where
  contentSha256 : String
  url : String := ""
  dryRun : Bool := false
  started : Instant

def HistoryPost.document (post : HistoryPost) (file : PayloadFile) : Document where
  providerCode := .cbi
  url := if post.url = "" then tsdviewUrl else post.url
  title := "Central Bank of Iran time-series viewer (tsdview), quarter-end monetary aggregates"
  mediaType := mediaTypeJson
  byteSize := file.byteSize
  contentSha256 := post.contentSha256
  fetchedAt := post.started
  editionLabel := .tsdview

def HistoryPoint.observation (point : HistoryPoint) : CbiObservation where
  year := point.year
  month := point.month
  value := point.value
  method := if point.code = .baseMoney then some .old else none

def HistoryPost.call (post : HistoryPost) (documentId seriesId : ℕ) (point : CbiObservation) :
    Call where
  seriesId := seriesId
  refPeriodStart := (monthSpan point.year point.month).1
  refPeriodEnd := (monthSpan point.year point.month).2
  refPeriodLabel := point.refPeriodLabel
  value := some (.decimal (.finite point.value))
  availableAt := some post.started
  sourceDocumentId := some documentId
  collectedAt := some post.started
  method := point.method
  utcnow := post.started

def HistoryPost.posting (post : HistoryPost) (documentId : ℕ) : Posting CbiObservation where
  start := CbiObservation.start
  value point := .finite point.value
  method _ point := point.method
  call _ := post.call documentId
  call_period _ _ _ := rfl
  call_stored _ _ point := ⟨.decimal (.finite point.value), rfl, rfl⟩
  call_method _ _ _ := rfl
  value_ne_nan := CbiObservation.number

def writtenMonths (points : CbiCode → List HistoryPoint) (code : CbiCode) : List CbiObservation :=
  ((points code).filter (fun p ↦ !excelCanCarry p.year p.month)).map HistoryPoint.observation

def overlappingMonths (points : CbiCode → List HistoryPoint) (code : CbiCode) :
    List HistoryPoint :=
  (points code).filter (fun p ↦ excelCanCarry p.year p.month)

structure HistorySeriesReport where
  code : SeriesCode
  counts : Counts
  writtenMonths : ℕ
  overlappingMonthsNotWritten : ℕ
  firstPeriod : Option String
  lastPeriod : Option String

structure HistoryReport where
  documentId : ℕ
  documentInserted : Bool
  shape : HistoryShape
  overlapWithEditions : List (CbiCode × Overlap)
  overlapUnverified : List CbiCode
  series : List HistorySeriesReport
  totals : Counts

def historySeriesReport (points : CbiCode → List HistoryPoint)
    (written : CbiCode × SeriesCode × List ObservationWrite) : HistorySeriesReport where
  code := written.2.1
  counts := tally written.2.2
  writtenMonths := (writtenMonths points written.1).length
  overlappingMonthsNotWritten := (overlappingMonths points written.1).length
  firstPeriod := (writtenMonths points written.1).head?.map CbiObservation.refPeriodLabel
  lastPeriod := (writtenMonths points written.1).getLast?.map CbiObservation.refPeriodLabel

def historyEntries (points : CbiCode → List HistoryPoint) :
    List (SeriesCode × List CbiObservation) :=
  cbiCodes.map (fun code ↦ (.cbi code, writtenMonths points code))

def hasSpan (point : CbiObservation) : Bool := (jalaliMonthSpan point.year point.month).isSome

def writeHistory (db : Database) (post : HistoryPost) (file : PayloadFile)
    (points : CbiCode → List HistoryPoint) :
    Except HistoryError (Database × ℕ × Bool × List (SeriesCode × List ObservationWrite)) :=
  let (archived, documentId, documentInserted) :=
    recordSourceDocument db (post.document file)
  let guard : List Observation → Call → ObservationWrite → Option Empty := fun _ _ _ ↦ none
  if cbiCodes.all (fun code ↦ (writtenMonths points code).all hasSpan) then
    match recordMany guard (post.posting documentId) archived (historyEntries points) with
    | .error (.inr e) => .error (.record e)
    | .ok (stored, written) => .ok (stored, documentId, documentInserted, written)
  else .error .noSpan

/-- `payloads` is what can be read in the file with a digest. A dry run rolls
its transaction back. -/
def ingestCbiHistory (payloads : String → Except String PayloadFile) (db : Database)
    (post : HistoryPost) : Except HistoryError (Database × HistoryReport) :=
  match payloads post.contentSha256 with
  | .error reason => .error (.unreadable reason)
  | .ok file =>
    match parseHistory file.payload with
    | .error e => .error e
    | .ok (points, shape) =>
      match checkOverlap db (overlappingMonths points) post.started categoryCodes with
      | .error e => .error e
      | .ok overlaps =>
        match writeHistory db post file points with
        | .error e => .error e
        | .ok (stored, documentId, documentInserted, written) =>
          let series := (cbiCodes.zip written).map (historySeriesReport points)
          .ok (if post.dryRun then db else stored,
            { documentId := documentId
              documentInserted := documentInserted
              shape := shape
              overlapWithEditions := overlaps
              overlapUnverified := strictOverlapCodes.filter (fun code ↦
                overlaps.any (fun result ↦ result.1 = code ∧ result.2.compared = 0))
              series := series
              totals := (series.map HistorySeriesReport.counts).foldl Counts.add .zero })

end Ingest

section Guards

variable {index : ℕ} {code : CbiCode} {row : ViewerRow} {month : Month} {value : ℚ}
  {parse parse' : HistoryParse} {done rows : List PayloadRow}

structure ViewerRow.Usable (row : ViewerRow) (month : Month) (value : ℚ) : Prop where
  quarterly : row.subFrequencyId = some quarterlySubfrequencyId
  unit : row.unitId = some thousandBillionRialUnitId
  dated : row.khDate = some month
  quarterEnd : month.2 ∈ quarterEndMonths
  year : row.datePerYear.contradicts month.1 = false
  number : row.amount = .number (.finite value)
  positive : 0 < value

theorem ViewerRow.Usable.unique {month' : Month} {value' : ℚ} (h : row.Usable month value)
    (h' : row.Usable month' value') : month = month' ∧ value = value' := by
  have hmonth := Option.some.inj (h.dated.symm.trans h'.dated)
  have hvalue := Value.finite.inj (Amount.number.inj (h.number.symm.trans h'.number))
  exact ⟨hmonth, hvalue⟩

theorem ViewerRow.Usable.month_mem (h : row.Usable month value) :
    1 ≤ month.2 ∧ month.2 ≤ 12 := by
  have hend := h.quarterEnd
  simp only [quarterEndMonths, mem_cons, not_mem_nil, or_false] at hend
  omega

theorem parseRow_ok (h : parseRow index code row = .ok (month, value)) :
    row.Usable month value := by
  rw [parseRow] at h
  split at h
  · cases h
  · rename_i hquarterly
    split at h
    · cases h
    · rename_i hunit
      split at h
      · cases h
      · rename_i month' hdated
        split at h
        · cases h
        · rename_i hend
          split at h
          · cases h
          · rename_i hyear
            split at h
            · rename_i value' hnumber
              split at h
              · cases h
              · rename_i hpositive
                obtain ⟨rfl, rfl⟩ := Prod.mk.inj (Except.ok.inj h)
                exact ⟨not_not.mp hquarterly, not_not.mp hunit, hdated, not_not.mp hend,
                  Bool.eq_false_iff.mpr hyear, hnumber, not_le.mp hpositive⟩
            · cases h
            · cases h

theorem HistoryParse.add_ok (h : parse.add code month value = .ok parse')
    (hnodup : ∀ code, ((parse.points code).map Prod.fst).Nodup) :
    (∀ code, ((parse'.points code).map Prod.fst).Nodup) ∧ ∀ code' entry,
      entry ∈ parse'.points code' ↔
        entry ∈ parse.points code' ∨ (code' = code ∧ entry = (month, value)) := by
  rw [HistoryParse.add] at h
  split at h
  · rename_i previous hprevious
    split at h
    · cases h
    · rename_i hsame
      obtain rfl := Except.ok.inj h
      obtain rfl := not_not.mp hsame
      obtain ⟨l, l', hsplit, -⟩ := lookup_eq_some_iff.mp hprevious
      refine ⟨hnodup, fun code' entry ↦ ⟨.inl, ?_⟩⟩
      rintro (hmem | ⟨rfl, rfl⟩)
      · exact hmem
      · rw [hsplit]
        exact mem_append_right _ mem_cons_self
  · rename_i hnone
    obtain rfl := Except.ok.inj h
    have hfresh : month ∉ (parse.points code).map Prod.fst := by
      intro hmem
      obtain ⟨entry, hentry, rfl⟩ := mem_map.mp hmem
      exact absurd rfl (bne_iff_ne.mp (lookup_eq_none_iff.mp hnone entry hentry))
    dsimp only
    constructor
    · intro code'
      by_cases hcode : code' = code
      · subst hcode
        rw [Function.update_self, map_append, nodup_append_comm]
        exact nodup_cons.mpr ⟨hfresh, hnodup code'⟩
      · rw [Function.update_of_ne hcode]
        exact hnodup code'
    · intro code' entry
      by_cases hcode : code' = code
      · subst hcode
        rw [Function.update_self, mem_append, mem_singleton]
        simp
      · rw [Function.update_of_ne hcode]
        simp [hcode]

structure Collected (done : List PayloadRow) (parse : HistoryParse) : Prop where
  objects : ∀ row ∈ done, ∃ r, row = .object r
  usable : ∀ r code, .object r ∈ done → codeOf r.category = some code → r.amount ≠ .missing →
    ∃ month value, r.Usable month value ∧ (month, value) ∈ parse.points code
  nodup : ∀ code, ((parse.points code).map Prod.fst).Nodup
  sources : ∀ code month value, (month, value) ∈ parse.points code →
    ∃ r, .object r ∈ done ∧ codeOf r.category = some code ∧ r.Usable month value

theorem Collected.empty : Collected [] .empty where
  objects _ h := absurd h not_mem_nil
  usable _ _ h := absurd h not_mem_nil
  nodup _ := nodup_nil
  sources _ _ _ h := absurd h not_mem_nil

theorem Collected.skip (h : Collected done parse) (hpoints : parse'.points = parse.points)
    (hskip : ∀ code, codeOf row.category = some code → row.amount = .missing) :
    Collected (done ++ [.object row]) parse' where
  objects := forall_mem_append.mpr ⟨h.objects, forall_mem_singleton.mpr ⟨row, rfl⟩⟩
  usable r code hr hcode hamount := by
    rw [hpoints]
    rcases mem_append.mp hr with hr | hr
    · exact h.usable r code hr hcode hamount
    · obtain rfl := PayloadRow.object.inj (mem_singleton.mp hr)
      exact absurd (hskip code hcode) hamount
  nodup code := hpoints ▸ h.nodup code
  sources code month value hmem := by
    rw [hpoints] at hmem
    obtain ⟨r, hr, hcode, husable⟩ := h.sources code month value hmem
    exact ⟨r, mem_append_left _ hr, hcode, husable⟩

theorem Collected.add (h : Collected done parse) (hcode : codeOf row.category = some code)
    (husable : row.Usable month value) (hadd : parse.add code month value = .ok parse') :
    Collected (done ++ [.object row]) parse' := by
  obtain ⟨hnodup, hmem⟩ := HistoryParse.add_ok hadd h.nodup
  refine ⟨forall_mem_append.mpr ⟨h.objects, forall_mem_singleton.mpr ⟨row, rfl⟩⟩,
    fun r code' hr hcode' hamount ↦ ?_, hnodup, fun code' month' value' hin ↦ ?_⟩
  · rcases mem_append.mp hr with hr | hr
    · obtain ⟨month', value', husable', hin⟩ := h.usable r code' hr hcode' hamount
      exact ⟨month', value', husable', (hmem _ _).mpr (.inl hin)⟩
    · obtain rfl := PayloadRow.object.inj (mem_singleton.mp hr)
      obtain rfl := Option.some.inj (hcode'.symm.trans hcode)
      exact ⟨month, value, husable, (hmem _ _).mpr (.inr ⟨rfl, rfl⟩)⟩
  · rcases (hmem code' _).mp hin with hin | ⟨rfl, heq⟩
    · obtain ⟨r, hr, hrest⟩ := h.sources code' month' value' hin
      exact ⟨r, mem_append_left _ hr, hrest⟩
    · obtain ⟨rfl, rfl⟩ := Prod.mk.inj heq
      exact ⟨row, mem_append_right _ mem_cons_self, hcode, husable⟩

theorem parseRows_ok (h : parseRows index parse rows = .ok parse') (hdone : Collected done parse) :
    Collected (done ++ rows) parse' := by
  induction rows generalizing index parse done with
  | nil =>
    obtain rfl := Except.ok.inj h
    rwa [append_nil]
  | cons row rows ih =>
    rw [append_cons]
    cases row with
    | other => cases h
    | object row =>
      rw [parseRows] at h
      split at h
      · rename_i hcode
        refine ih h (hdone.skip rfl (fun code hsome ↦ ?_))
        rw [hcode] at hsome
        cases hsome
      · rename_i code hcode
        split at h
        · rename_i hmissing
          exact ih h (hdone.skip rfl (fun _ _ ↦ hmissing))
        · split at h
          · cases h
          · rename_i month value hrow
            split at h
            · cases h
            · rename_i hadd
              exact ih h (hdone.add hcode (parseRow_ok hrow) hadd)

structure Passes (rows : List PayloadRow) : Prop where
  objects : ∀ row ∈ rows, ∃ r, row = .object r
  usable : ∀ r code, .object r ∈ rows → codeOf r.category = some code → r.amount ≠ .missing →
    ∃ month value, r.Usable month value
  agree : ∀ r r' code month value value', .object r ∈ rows → .object r' ∈ rows →
    codeOf r.category = some code → codeOf r'.category = some code → r.Usable month value →
      r'.Usable month value' → value = value'
  complete : ∀ code, ∃ r month value, .object r ∈ rows ∧ codeOf r.category = some code ∧
    r.Usable month value

theorem ViewerRow.Usable.amount_ne (h : row.Usable month value) : row.amount ≠ .missing := by
  rw [h.number]
  exact fun heq ↦ by cases heq

theorem Collected.mem_points (h : Collected done parse) (hr : .object row ∈ done)
    (hcode : codeOf row.category = some code) (husable : row.Usable month value) :
    (month, value) ∈ parse.points code := by
  obtain ⟨month', value', husable', hmem⟩ := h.usable row code hr hcode husable.amount_ne
  obtain ⟨rfl, rfl⟩ := husable.unique husable'
  exact hmem

theorem parseHistory_ok {payload : Payload} {points : CbiCode → List HistoryPoint}
    {shape : HistoryShape} (h : parseHistory payload = .ok (points, shape)) :
    ∃ rows, payload = .list rows ∧ Passes rows ∧ ∀ code p, p ∈ points code ↔
      p.code = code ∧ ∃ r, .object r ∈ rows ∧ codeOf r.category = some code ∧
        r.Usable (p.year, p.month) p.value := by
  cases payload with
  | other => cases h
  | list rows =>
    rw [parseHistory] at h
    dsimp only at h
    split at h
    · cases h
    · rename_i parse hparse
      split at h
      · cases h
      · rename_i hblank
        obtain ⟨rfl, -⟩ := Prod.mk.inj (Except.ok.inj h)
        have hcollected : Collected rows parse := parseRows_ok hparse .empty
        refine ⟨rows, rfl, ⟨hcollected.objects, fun r code hr hcode hamount ↦ ?_,
          fun r r' code month value value' hr hr' hcode hcode' husable husable' ↦ ?_,
          fun code ↦ ?_⟩, fun code p ↦ ?_⟩
        · obtain ⟨month, value, husable, -⟩ := hcollected.usable r code hr hcode hamount
          exact ⟨month, value, husable⟩
        · have heq := inj_on_of_nodup_map (hcollected.nodup code)
            (hcollected.mem_points hr hcode husable) (hcollected.mem_points hr' hcode' husable') rfl
          exact congrArg Prod.snd heq
        · have hne := filter_eq_nil_iff.mp (not_not.mp hblank) code (mem_cbiCodes code)
          obtain ⟨⟨month, value⟩, hentry⟩ := exists_mem_of_ne_nil (parse.points code)
            (fun hnil ↦ by simp [hnil] at hne)
          obtain ⟨r, hr, hrest⟩ := hcollected.sources code month value hentry
          exact ⟨r, month, value, hr, hrest⟩
        · rw [HistoryParse.history, mem_map]
          simp only [mem_insertionSort]
          constructor
          · rintro ⟨⟨month, value⟩, hentry, rfl⟩
            exact ⟨rfl, hcollected.sources code month value hentry⟩
          · rintro ⟨rfl, r, hr, hcode, husable⟩
            exact ⟨_, hcollected.mem_points hr hcode husable, rfl⟩

end Guards

end TalaPala.Economic
