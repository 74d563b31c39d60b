import TalaPala.Prices.DailyRegister
import TalaPala.Prices.SpliceRegister
import Mathlib.Data.Int.Log

namespace TalaPala.Prices

open Library (median halfEven)
open News (Text strip after)

section Tables

def seriesSlugs : List (String × String) :=
  [("IR_SILVER_999", "silver_999"), ("IR_COIN_BAHAR", "sekeb"), ("IR_COIN_HALF", "nim"),
    ("IR_COIN_QUARTER", "rob"), ("IR_COIN_GERAMI", "gerami"), ("IR_GOLD_24K", "geram24"),
    ("IR_GOLD_MESGHAL", "mesghal")]

def gapFillSlugs : List (String × String) := [("IR_COIN_EMAMI", "sekee")]

def gapFillFrom : List (String × Date) := [("IR_COIN_EMAMI", 20570)]

def dailySymbolMeta : List (String × String × String) :=
  [("IR_COIN_EMAMI", "IRT", "coin"), ("IR_SILVER_999", "IRT", "gram"),
    ("IR_COIN_BAHAR", "IRT", "coin"), ("IR_COIN_HALF", "IRT", "coin"),
    ("IR_COIN_QUARTER", "IRT", "coin"), ("IR_COIN_GERAMI", "IRT", "coin"),
    ("IR_GOLD_24K", "IRT", "gram"), ("IR_GOLD_MESGHAL", "IRT", "mesghal")]

def slugMeta : List (String × String × String) :=
  [("sekee", "IRR/coin", "IRR"), ("silver_999", "IRR/gram", "IRR"), ("sekeb", "IRR/coin", "IRR"),
    ("nim", "IRR/coin", "IRR"), ("rob", "IRR/coin", "IRR"), ("gerami", "IRR/coin", "IRR"),
    ("geram24", "IRR/gram", "IRR"), ("mesghal", "IRR/mesghal", "IRR")]

def neighboursEachSide : ℕ := 7

def suspectRatio : ℚ := 8 / 5

def minJudgedNeighbours : ℕ := 4

def restatementAbsTolerance : ℚ := 5 / 1000

def maxReported : ℕ := 10

def gapFillNoteMarker : Text := "[tgju daily gap-fill]".toList

end Tables

section Judgement

structure HistoryRow where
  day : Date
  close : ℚ
  closeText : Text
  jalali : Text
  positive : 0 < close

inductive Verdict
  | ok
  | suspect
  | unjudged
  deriving DecidableEq

structure Judged where
  bar : HistoryRow
  verdict : Verdict
  median : Option ℚ
  neighbours : ℕ

def closesAround (closes : List ℚ) (i : ℕ) : List ℚ :=
  (closes.take i).drop (i - neighboursEachSide) ++ (closes.drop (i + 1)).take neighboursEachSide

def closeRatio (close median : ℚ) : ℚ := max (close / median) (median / close)

def judgeBar (closes : List ℚ) (i : ℕ) (bar : HistoryRow) : Judged :=
  let around := closesAround closes i
  if around.length < minJudgedNeighbours then ⟨bar, .unjudged, none, around.length⟩
  else if median around ≤ 0 then ⟨bar, .unjudged, none, around.length⟩
  else
    let verdict := if suspectRatio < closeRatio bar.close (median around) then .suspect else .ok
    ⟨bar, verdict, some (median around), around.length⟩

def judgeBars (bars : List HistoryRow) : List Judged :=
  let ordered := bars.insertionSort (fun a b ↦ a.day ≤ b.day)
  let closes := ordered.map HistoryRow.close
  ordered.mapIdx (judgeBar closes)

/-- `math.isclose` with the tolerances of a restatement. -/
def sameValue (a b : ℚ) : Bool :=
  decide (|a - b| ≤ max (max |a| |b| / 1000000000) restatementAbsTolerance)

end Judgement

section Rows

/-- `tgju|symbol|history|day`, for a suspect with its close to ten digits. -/
inductive DedupeKey
  | close (symbol : String) (day : Date)
  | suspect (symbol : String) (day : Date) (close : ℚ)
  deriving DecidableEq

/-- `format(x, '.10g')` of a positive number. -/
def tenDigits (x : ℚ) : ℚ :=
  let scale : ℚ := 10 ^ (9 - Int.log 10 x)
  halfEven (x * scale) / scale

structure AuditPayload where
  slug : String
  barDate : Date
  jalaliDate : Text
  closeText : Text
  availabilityUtc : Instant
  normalizedValue : ℚ
  normalizedCurrency : String
  /-- The ratio, the median and the number of neighbours of a suspect. -/
  suspicion : Option (ℚ × Option ℚ × ℕ)

structure AuditRow where
  symbol : String
  rawValue : ℚ
  unit : String
  currency : String
  payload : AuditPayload
  observedAt : Instant
  collectedAt : Instant
  quality : Quality
  dedupeKey : DedupeKey

/-- `insert_ignore` into `raw_observations`. -/
def insertAudit (audits : List AuditRow) (row : AuditRow) : List AuditRow :=
  if audits.any (fun a ↦ a.dedupeKey = row.dedupeKey) then audits else audits ++ [row]

structure DailySeries where
  symbol : String
  slug : String
  currency : String
  unit : String
  rawUnit : String
  rawCurrency : String
  /-- From when on an existing series is filled; none for a series of its own. -/
  gapFillFrom : Option Date

def dailySeries (symbol : String) : Option DailySeries := do
  let slug ← (gapFillSlugs.lookup symbol).or (seriesSlugs.lookup symbol)
  let (currency, unit) ← dailySymbolMeta.lookup symbol
  let (rawUnit, rawCurrency) ← slugMeta.lookup slug
  return ⟨symbol, slug, currency, unit, rawUnit, rawCurrency, gapFillFrom.lookup symbol⟩

def DailySeries.unitsAgree (series : DailySeries) : Bool :=
  after '/' series.rawUnit.toList == series.unit.toList

def DailySeries.normalize (series : DailySeries) (rawClose : ℚ) : ℚ :=
  if series.rawCurrency = "IRR" then rialToToman rawClose else rawClose

def DailySeries.priceRow (series : DailySeries) (bar : HistoryRow) : PriceRow where
  symbol := series.symbol
  value := series.normalize bar.close
  currency := series.currency
  unit := series.unit
  source := historySource
  observedAt := closeStamp bar.day
  quality := .ok

def DailySeries.auditRow (series : DailySeries) (now : Instant) (bar : HistoryRow)
    (quality : Quality) (suspicion : Option (ℚ × Option ℚ × ℕ)) (key : DedupeKey) : AuditRow where
  symbol := series.symbol
  rawValue := bar.close
  unit := series.rawUnit
  currency := series.rawCurrency
  payload := ⟨series.slug, bar.day, bar.jalali, bar.closeText, closeStamp bar.day,
    series.normalize bar.close, series.currency, suspicion⟩
  observedAt := closeStamp bar.day
  collectedAt := now
  quality := quality
  dedupeKey := key

end Rows

section Bars

def tehranToday (now : Instant) : Date := utcDate (now + MarketHours.Python.tehran)

def utcDayEnd (day : Date) : Instant := (day + 1) * dayMicros

def DailySeries.settled (series : DailySeries) (now : Instant) (day : Date) : Bool :=
  day < tehranToday now && closeStamp day ≤ now &&
    (series.gapFillFrom.isNone || utcDayEnd day ≤ now)

def rowsOnDay (prices : List PriceRow) (symbol : String) (day : Date) : List PriceRow :=
  prices.filter (fun r ↦ r.symbol = symbol && utcDate r.observedAt = day)

def ownClose (rows : List PriceRow) : Option ℚ :=
  (@List.argmax PriceRow ℤ Int.instLinearOrder.toPreorder Int.decLt PriceRow.observedAt
    (rows.filter (fun r ↦ r.source = historySource))).map PriceRow.value

inductive BarOutcome
  | notSettled
  | unchanged
  | beforeWindow
  | suspect (judged : Judged) (audit : AuditRow)
  | heldUnjudged
  | restated (day : Date) (stored tgjuNow : ℚ)
  | otherSource
  | written (price : PriceRow) (audit : AuditRow)

def barOutcome (series : DailySeries) (now : Instant) (prices : List PriceRow)
    (judged : Judged) : BarOutcome :=
  let bar := judged.bar
  let value := series.normalize bar.close
  let onDay := rowsOnDay prices series.symbol bar.day
  if !series.settled now bar.day then .notSettled
  else if (ownClose onDay).any (fun stored ↦ sameValue stored value) then .unchanged
  else if onDay.isEmpty && series.gapFillFrom.any (fun first ↦ decide (bar.day < first)) then
    .beforeWindow
  else if judged.verdict = .suspect then
    .suspect judged (series.auditRow now bar .suspect
      (some (closeRatio bar.close (judged.median.getD 0), judged.median, judged.neighbours))
      (.suspect series.symbol bar.day (tenDigits bar.close)))
  else if judged.verdict = .unjudged then .heldUnjudged
  else
    match ownClose onDay with
    | some stored => .restated bar.day stored value
    | none =>
      if onDay.isEmpty then
        .written (series.priceRow bar)
          (series.auditRow now bar .ok none (.close series.symbol bar.day))
      else .otherSource

def BarOutcome.price : BarOutcome → Option PriceRow
  | .written price _ => some price
  | _ => none

def BarOutcome.audit : BarOutcome → Option AuditRow
  | .written _ audit => some audit
  | .suspect _ audit => some audit
  | _ => none

end Bars

section Ingest

structure TgjuPage where
  bars : List HistoryRow
  returnedRows : ℕ
  recordsTotal : Option ℕ
  /-- One bar a day. -/
  distinct : (bars.map HistoryRow.day).Nodup

def TgjuPage.history (page : TgjuPage) : HistoryPage :=
  ⟨page.bars.map (fun b ↦ (b.day, b.close)), page.returnedRows, page.recordsTotal⟩

structure DailyData where
  prices : List PriceRow
  audits : List AuditRow
  register : Option Register
  notes : String → Option Text

/-- What the provider answers to either request (none where the fetch raises). -/
structure DailyRun where
  answer : FetchMode → Option TgjuPage
  now : Instant
  dryRun : Bool

inductive FullReason
  | noRows
  | noFullPass
  | unseenRows (oldest seen : Date)

structure DailyReport where
  symbol : String
  slug : String
  fullReason : Option FullReason
  fetched : ℕ
  recordsTotal : Option ℕ
  inserted : ℕ
  rawInserted : ℕ
  wouldInsert : ℕ
  unchanged : ℕ
  restated : ℕ
  restatements : List (Date × ℚ × ℚ)
  suspect : ℕ
  suspects : List Judged
  heldUnjudged : ℕ
  skippedNotSettled : ℕ
  skippedOtherSource : ℕ
  skippedBeforeWindow : ℕ
  firstWritten : Option Date
  lastWritten : Option Date
  noteUpdated : Bool

inductive DailyRefusal
  | unitMismatch
  | backfill (refusal : BackfillRefusal)
  | noBar

inductive DailyOutcome
  | unsupported
  | error
  | refused (refusal : DailyRefusal)
  | dryRun (report : DailyReport)
  | ok (report : DailyReport)

def fetchTable (run : DailyRun) (state : Option RegisterEntry) (hasRows : Bool) :
    Option (TgjuPage × Option FullReason) :=
  if !hasRows then (run.answer .full).map (·, some .noRows)
  else
    match state.bind RegisterEntry.fullPassAt, state with
    | some _, some entry =>
      (run.answer .recent).bind fun page ↦
        match (page.bars.map HistoryRow.day).min? with
        | some oldest =>
          if entry.newestBarSeen < oldest then
            (run.answer .full).map (·, some (.unseenRows oldest entry.newestBarSeen))
          else some (page, none)
        | none => some (page, none)
    | _, _ => (run.answer .full).map (·, some .noFullPass)

def reportOf (series : DailySeries) (page : TgjuPage) (fullReason : Option FullReason)
    (outcomes : List BarOutcome) (days : List Date) : DailyReport where
  symbol := series.symbol
  slug := series.slug
  fullReason := fullReason
  fetched := page.bars.length
  recordsTotal := page.recordsTotal
  inserted := 0
  rawInserted := 0
  wouldInsert := (outcomes.filterMap BarOutcome.price).length
  unchanged := outcomes.countP (· matches .unchanged)
  restated := outcomes.countP (· matches .restated _ _ _)
  restatements := (outcomes.filterMap (fun o ↦
    match o with
    | .restated day stored tgjuNow => some (day, stored, tgjuNow)
    | _ => none)).take maxReported
  suspect := outcomes.countP (· matches .suspect _ _)
  suspects := (outcomes.filterMap (fun o ↦
    match o with
    | .suspect judged _ => some judged
    | _ => none)).take maxReported
  heldUnjudged := outcomes.countP (· matches .heldUnjudged)
  skippedNotSettled := outcomes.countP (· matches .notSettled)
  skippedOtherSource := outcomes.countP (· matches .otherSource)
  skippedBeforeWindow := outcomes.countP (· matches .beforeWindow)
  firstWritten := days.head?
  lastWritten := days.getLast?
  noteUpdated := false

def pageRefusal (now : Instant) (page : TgjuPage) (full : Bool) : Option DailyRefusal :=
  ((if full then truncationError page.history else none).map .backfill).or
    (if page.bars = [] then some .noBar
      else (barDateError now page.history.rows).map .backfill)

def hasHistoryRows (prices : List PriceRow) (symbol : String) : Bool :=
  prices.any (fun r ↦ r.symbol = symbol && r.source = historySource)

def gapFillNote (iso : Isoformat) (slug : String) (stats : GapFillStats) : Text :=
  let day (d : Option Date) : Text := d.elim [] iso.date
  gapFillNoteMarker ++ " On ".toList ++ (toString stats.days).toList ++
    " UTC day(s) that held no observation from any source (".toList ++ day stats.first ++
    " to ".toList ++ day stats.last ++ "), the value is TGJU's published ".toList ++ slug.toList ++
    " daily close (source '".toList ++ historySource.toList ++
    "', stamped 23:00 UTC), not a live quote. ".toList ++
    "Days that already held an observation were left as they were.".toList

def notesWithGapFill (notes sentence : Text) : Text :=
  let head := beforeMarker spliceNoteMarker notes
  let splice := notes.drop head.length
  let kept := strip (beforeMarker gapFillNoteMarker head)
  let head := if kept = [] then sentence else strip (kept ++ ' ' :: sentence)
  if splice = [] then head else head ++ ' ' :: splice

def ingestSymbol (iso : Isoformat) (db : DailyData) (symbol : String) (run : DailyRun) :
    DailyData × DailyOutcome :=
  match dailySeries symbol with
  | none => (db, .unsupported)
  | some series =>
    let entry := (db.register.getD (fun _ ↦ none)) symbol
    if !series.unitsAgree then (db, .refused .unitMismatch)
    else match fetchTable run entry (hasHistoryRows db.prices symbol) with
    | none => (db, .error)
    | some (page, fullReason) =>
      match pageRefusal run.now page fullReason.isSome with
      | some refusal => (db, .refused refusal)
      | none =>
        let outcomes := (judgeBars page.bars).map (barOutcome series run.now db.prices)
        let written := outcomes.filterMap BarOutcome.price
        let days := written.map (fun row ↦ utcDate row.observedAt)
        let report := reportOf series page fullReason outcomes days
        if run.dryRun then (db, .dryRun report)
        else
          let prices := written.foldl insertIgnore db.prices
          let audits := (outcomes.filterMap BarOutcome.audit).foldl insertAudit db.audits
          let pass : DailyPass := {
            symbol := symbol
            slug := series.slug
            gapFill := series.gapFillFrom.isSome
            now := run.now
            mode := if fullReason.isSome then .full else .recent
            lastDay := ((page.bars.map HistoryRow.day).max?).getD 0
            recordsTotal := page.recordsTotal
            inserted := prices.length - db.prices.length
            firstWritten := days.head?
            lastWritten := days.getLast? }
          let entry' := pass.entry entry
          let filled := pass.gapFill && decide (0 < pass.inserted)
          ({ prices := prices
             audits := audits
             register := some (Function.update (db.register.getD (fun _ ↦ none)) symbol
               (some entry'))
             notes := fun code ↦
               if filled ∧ code = symbol then
                 (db.notes code).map (notesWithGapFill ·
                   (entry'.gapFill.elim [] (gapFillNote iso series.slug)))
               else db.notes code },
            .ok { report with
              inserted := pass.inserted
              rawInserted := audits.length - db.audits.length
              noteUpdated := filled && (db.notes symbol).isSome })

end Ingest

end TalaPala.Prices
