import TalaPala.Economic.Database
import TalaPala.Economic.Jalali

namespace TalaPala.Economic

open Library

section Filename

def decimalZeros : List ℕ :=
  [0x30, 0x660, 0x6f0, 0x7c0, 0x966, 0x9e6, 0xa66, 0xae6, 0xb66, 0xbe6, 0xc66, 0xce6, 0xd66,
    0xde6, 0xe50, 0xed0, 0xf20, 0x1040, 0x1090, 0x17e0, 0x1810, 0x1946, 0x19d0, 0x1a80, 0x1a90,
    0x1b50, 0x1bb0, 0x1c40, 0x1c50, 0xa620, 0xa8d0, 0xa900, 0xa9d0, 0xa9f0, 0xaa50, 0xabf0,
    0xff10, 0x104a0, 0x10d30, 0x11066, 0x110f0, 0x11136, 0x111d0, 0x112f0, 0x11450, 0x114d0,
    0x11650, 0x116c0, 0x11730, 0x118e0, 0x11950, 0x11c50, 0x11d50, 0x11da0, 0x11f50, 0x16a60,
    0x16ac0, 0x16b50, 0x1d7ce, 0x1d7d8, 0x1d7e2, 0x1d7ec, 0x1d7f6, 0x1e140, 0x1e2f0, 0x1e4f0,
    0x1e950, 0x1fbf0]

/-- What `\d` matches, and the digit that `int` reads there. -/
def decimalDigit (c : Char) : Option ℕ :=
  (decimalZeros.find? (fun first ↦ first ≤ c.toNat ∧ c.toNat < first + 10)).map
    (fun first ↦ c.toNat - first)

def decimalNumber (digits : List ℕ) : ℤ := digits.foldl (fun n digit ↦ 10 * n + digit) 0

/-- `$` matches at the end and before a last line feed. -/
def beforeLineFeed : List Char → List Char
  | '\n' :: rest => rest
  | chars => chars

/-- The last fourteen characters of a reversed name that are digits after a
hyphen, before `.xls` or `.xlsx`. -/
def stampDigits (reversed : List Char) : Option (List ℕ) :=
  let digits (rest : List Char) : Option (List ℕ) :=
    if rest[14]? = some '-' then ((rest.take 14).reverse).mapM decimalDigit else none
  match reversed with
  | 'x' :: 's' :: 'l' :: 'x' :: '.' :: rest => digits rest
  | 's' :: 'l' :: 'x' :: '.' :: rest => digits rest
  | _ => none

def publishedAtFromFilename (name : String) : Option Civil :=
  match stampDigits (beforeLineFeed name.toList.reverse) with
  | none => none
  | some digits =>
    let jy := decimalNumber (digits.take 4)
    let jm := decimalNumber ((digits.drop 4).take 2)
    let jd := decimalNumber ((digits.drop 6).take 2)
    if (1300 ≤ jy ∧ jy ≤ 1500) ∧ (1 ≤ jm ∧ jm ≤ 12) ∧ 1 ≤ jd ∧ jd ≤ 31 then
      jalaliToGregorian jy jm jd
    else none

example : (publishedAtFromFilename "ts_urban_140505-14050618165804.xlsx").map
    (fun day ↦ (day.year, day.month, day.day)) = some (2026, 9, 9) := by decide +kernel

end Filename

section Workbook

def sciBaseYear : ℤ := 1400

def sciBaseTolerance : ℚ := 1 / 100

structure SciObservation where
  jalaliYear : ℤ
  jalaliMonth : ℤ
  refPeriodStart : Date
  refPeriodEnd : Date
  value : Value
  span : jalaliMonthSpan jalaliYear jalaliMonth = some (refPeriodStart, refPeriodEnd)
  number : value ≠ .nan

def SciObservation.refPeriodLabel (point : SciObservation) : String :=
  periodLabel point.jalaliYear point.jalaliMonth

def Value.finite? : Value → Option ℚ
  | .finite q => some q
  | _ => none

def basePoints (points : List SciObservation) : List SciObservation :=
  points.filter (fun point ↦ point.jalaliYear = sciBaseYear)

def baseMean (points : List SciObservation) : Option ℚ :=
  (((basePoints points).map SciObservation.value).mapM Value.finite?).map
    (fun base ↦ base.sum / 12)

/-- What `parse_workbook` makes of a sheet that passes its checks. -/
structure SciWorkbook where
  points : SciCode → List SciObservation
  nonempty : ∀ code, points code ≠ []
  base_length : ∀ code, (basePoints (points code)).length = 12
  base_mean : ∀ code, ∃ mean, baseMean (points code) = some mean ∧
    |mean - 100| ≤ sciBaseTolerance

/-- A file on disk, with what `read_workbook` reads in it. -/
structure SciFile where
  basename : String
  contentSha256 : String
  byteSize : ℕ
  workbook : Except String SciWorkbook

end Workbook

section Ingest

def sciCodes : List SciCode := [.housing, .rent, .urban, .vehicles]

def Database.isSeriesOf (db : Database) (codes : List SeriesCode) (row : Observation) : Bool :=
  codes.any (fun code ↦ db.series[row.seriesId]? = some code)

def newestPublishedAt (db : Database) : Option Instant :=
  ((db.rows.filter (db.isSeriesOf (sciCodes.map .sci))).filterMap Observation.publishedAt).max?

def isIncompleteMonth (periodEnd : Date) (now : Instant) : Bool := decide (utcDate now ≤ periodEnd)

inductive SciError
  | noWorkbook
  | noFilename
  | parse (reason : String)
  | stale (name : String) (published newest : Date)
  | record (e : RecordError)

/-- The arguments of one `ingest_sci_cpi` call; no file at the path is `none`. -/
structure SciCall where
  file : Option SciFile
  filename : String := ""
  url : String := ""
  now : Instant
  allowOlder : Bool := false

structure SciSeriesReport where
  code : SciCode
  counts : Counts
  observations : ℕ
  projections : ℕ
  firstPeriod : String
  lastPeriod : String
  lastValue : Value

structure SciReport where
  workbook : String
  sha256 : String
  byteSize : ℕ
  publishedAt : Option Instant
  availableAt : Instant
  documentId : ℕ
  documentInserted : Bool
  url : String
  urlReconstructed : Bool
  series : List SciSeriesReport
  totals : Counts

def mediaTypeXlsx : String := "application/vnd.openxmlformats-officedocument.spreadsheetml.sheet"

def sciStatisticsUrl : String := "https://amar.org.ir/Portals/0/Statistics/"

def sciCallOf (publishedAt : Option Instant) (availableAt : Instant) (documentId seriesId : ℕ)
    (point : SciObservation) : Call where
  seriesId := seriesId
  refPeriodStart := point.refPeriodStart
  refPeriodEnd := point.refPeriodEnd
  refPeriodLabel := point.refPeriodLabel
  value := some (.float point.value)
  availableAt := some availableAt
  publishedAt := publishedAt
  isProjection := isIncompleteMonth point.refPeriodEnd availableAt
  sourceDocumentId := some documentId
  collectedAt := some availableAt
  utcnow := availableAt

def sciPosting (publishedAt : Option Instant) (availableAt : Instant) (documentId : ℕ) :
    Posting SciObservation where
  start := SciObservation.refPeriodStart
  value := SciObservation.value
  method _ _ := none
  call _ := sciCallOf publishedAt availableAt documentId
  call_period _ _ _ := rfl
  call_stored _ _ point := ⟨.float point.value, rfl, rfl⟩
  call_method _ _ _ := rfl
  value_ne_nan := SciObservation.number

def sciSeriesReport (workbook : SciWorkbook) (availableAt : Instant)
    (written : SciCode × List ObservationWrite) : SciSeriesReport :=
  let points := workbook.points written.1
  { code := written.1
    counts := tally written.2
    observations := points.length
    projections := points.countP (fun point ↦ isIncompleteMonth point.refPeriodEnd availableAt)
    firstPeriod := (points.head (workbook.nonempty written.1)).refPeriodLabel
    lastPeriod := (points.getLast (workbook.nonempty written.1)).refPeriodLabel
    lastValue := (points.getLast (workbook.nonempty written.1)).value }

def SciWorkbook.entries (workbook : SciWorkbook) : List (SeriesCode × List SciObservation) :=
  sciCodes.map (fun code ↦ (.sci code, workbook.points code))

def SciCall.name (call : SciCall) (file : SciFile) : String :=
  if call.filename = "" then file.basename else call.filename

def SciCall.document (call : SciCall) (file : SciFile) : Document where
  providerCode := .sci
  url := if call.url = "" then sciStatisticsUrl ++ call.name file else call.url
  title := "Statistical Centre of Iran, urban CPI time series (" ++ call.name file ++ ")"
  mediaType := mediaTypeXlsx
  byteSize := file.byteSize
  contentSha256 := file.contentSha256
  fetchedAt := call.now

def publishedInstant (name : String) : Option Instant :=
  (publishedAtFromFilename name).map (fun day ↦ utcMidnight day.ordinal)

def staleAgainst (db : Database) (published : Option Instant) (allowOlder : Bool) :
    Option (Instant × Instant) :=
  match published, newestPublishedAt db with
  | some publishedAt, some newest =>
    if publishedAt < newest ∧ allowOlder = false then some (publishedAt, newest) else none
  | _, _ => none

def writeWorkbook (db : Database) (call : SciCall) (file : SciFile) (workbook : SciWorkbook)
    (published : Option Instant) : Except SciError (Database × SciReport) :=
  let (archived, documentId, documentInserted) :=
    recordSourceDocument db (call.document file)
  let guard : List Observation → Call → ObservationWrite → Option Empty := fun _ _ _ ↦ none
  match recordMany guard (sciPosting published call.now documentId) archived workbook.entries with
  | .error (.inr e) => .error (.record e)
  | .ok (stored, written) =>
    let series := (sciCodes.zip (written.map Prod.snd)).map (sciSeriesReport workbook call.now)
    .ok (stored,
      { workbook := call.name file
        sha256 := file.contentSha256
        byteSize := file.byteSize
        publishedAt := published
        availableAt := call.now
        documentId := documentId
        documentInserted := documentInserted
        url := (call.document file).url
        urlReconstructed := call.url = ""
        series := series
        totals := (series.map SciSeriesReport.counts).foldl Counts.add .zero })

def ingestSciCpi (db : Database) (call : SciCall) : Except SciError (Database × SciReport) :=
  match call.file with
  | none => .error .noWorkbook
  | some file =>
    if call.name file = "" then .error .noFilename
    else
      match file.workbook with
      | .error reason => .error (.parse reason)
      | .ok workbook =>
        let published := publishedInstant (call.name file)
        match staleAgainst db published call.allowOlder with
        | some (publishedAt, newest) =>
          .error (.stale (call.name file) (utcDate publishedAt) (utcDate newest))
        | none => writeWorkbook db call file workbook published

end Ingest

end TalaPala.Economic
