import TalaPala.News.Urls
import TalaPala.Prices.Collect
import Mathlib.Data.List.MinMax

namespace TalaPala.Prices

open News (Text strip)

def dayMicros : ℤ := 86400 * 1000000

def utcDate (t : Instant) : Date := t / dayMicros

def closeStamp (day : Date) : Instant := day * dayMicros + 23 * 3600 * 1000000

def historySource : String := "tgju_history"

def backfillSlugs : List (String × String) :=
  [("IR_GOLD_18K", "geram18"), ("USD_IRT", "price_dollar_rl"), ("IR_COIN_EMAMI", "sekee")]

def symbolMeta : List (String × String × String) :=
  [("IR_GOLD_18K", "IRT", "gram"), ("IR_COIN_EMAMI", "IRT", "coin"), ("USD_IRT", "IRT", "usd")]

def maxHistoryRows : ℕ := 20000

def minBarDate : Date := 7305

def maxBarDateSlack : ℤ := 1

def maxReportedBreaks : ℕ := 5

def joinBaseTolerancePct : ℚ := 15

def joinPerDayTolerancePct : ℚ := 5

def joinMaxTolerancePct : ℚ := 50

def spanSessionRatio : ℚ := 1.5

def spanDailyDrift : ℚ := 1.006

/-- `int(log(4.6083 / 1.5) / log(1.006))`. -/
def spanGuaranteeDays : ℤ := 187

def untrustedAnchorSources : List String := ["seed_sample", "csv_import", historySource]

def spliceNoteMarker : Text := "[series splice]".toList

def spliceDefinitions : List (String × String × String) :=
  [("IR_GOLD_18K", "one daily close of TGJU's geram18 aggregate of Tehran bazaar 18k " ++
      "gold-per-gram quotes, published in rials and stored as toman",
    "a single live dealer feed quoting continuously, 24/7, many observations a day"),
  ("USD_IRT", "one daily close of TGJU's price_dollar_rl — the free-market CASH dollar in " ++
      "Tehran, published in rials and stored as toman",
    "the 24/7 USDT/toman market used as the free-market proxy, which carries its own " ++
      "stablecoin premium over cash dollars"),
  ("IR_COIN_EMAMI", "one daily close of TGJU's sekee — the Emami coin as the bazaar " ++
      "aggregator published it, in rials and stored as toman",
    "the live dealer quotes for the coin, collected through the day")]

/-- `ORDER BY observed_at LIMIT 1`: of rows of one instant it may give any. -/
structure OldestFirst where
  pick : List PriceRow → Option PriceRow
  mem : ∀ l r, pick l = some r → r ∈ l
  least : ∀ l r, pick l = some r → ∀ r' ∈ l, r.observedAt ≤ r'.observedAt
  found : ∀ l, l ≠ [] → (pick l).isSome

structure HistoryPage where
  rows : List (Date × ℚ)
  returnedRows : ℕ
  recordsTotal : Option ℕ

structure LiveAnchor where
  cutoff : Instant
  cutoffSource : String
  cutoffQuality : Quality
  rows : ℕ
  /-- The instant, the value and the source of the reference row. -/
  reference : Option (Instant × ℚ × String)

structure Bar where
  day : Date
  rawClose : ℚ
  value : ℚ

structure Skips where
  atOrAfterCutoff : ℕ
  nonPositive : ℕ
  duplicateDay : ℕ

structure SpanReport where
  bars : ℕ
  comparedPairs : ℕ
  maxRatio : ℚ
  maxGapDays : ℤ
  breakCount : ℕ
  breaks : List (Bar × Bar)
  unverifiableGapCount : ℕ
  unverifiableGaps : List (Bar × Bar)
  ok : Bool

structure JoinReport where
  lastBackfill : Bar
  firstLiveAt : Instant
  firstLiveValue : ℚ
  gapDays : ℤ
  jumpPct : ℚ
  thresholdPct : ℚ
  ok : Bool

structure SpliceRecord where
  symbol : String
  spliceAt : Instant
  backfillFirstBar : Date
  backfillLastBar : Date
  backfillRows : ℕ
  backfillSource : String
  backfillDefinition : String
  liveSource : String
  liveDefinition : String
  joinReferenceSource : Option String
  joinReferenceAt : Option Instant
  recordedAt : Instant
  note : Text

/-- `isoformat`. -/
structure Isoformat where
  date : Date → Text
  time : Instant → Text

structure MarketData where
  prices : List PriceRow
  register : List (String × SpliceRecord)
  notes : String → Option Text

inductive BackfillRefusal
  | notABackfillSymbol
  | noLiveHistory
  | noTrustedReference (rows : ℕ)
  | implausibleCutoff (cutoff : Instant) (source : String) (quality : Quality)
  | truncated (total returned : ℕ)
  | maybeTruncated (returned : ℕ)
  | implausibleDates (bad : List Date)
  | nothingEligible (skips : Skips)
  | nonPositiveClose (last : Bar)
  | incoherent (coherence : SpanReport)
  | joinFailed (join : JoinReport)

inductive BackfillOutcome
  | refused (reason : BackfillRefusal)
  | error
  | upToDate
  | dryRun (splice : SpliceRecord)
  | ok (inserted : ℕ) (splice : SpliceRecord) (noteUpdated : Bool)

/-- What one call meets: the page (none where the fetch raises), the clocks, the sources
to ignore without blanks, and whether its transaction commits. -/
structure BackfillRun where
  oldestFirst : OldestFirst
  page : Option HistoryPage
  today : Instant
  now : Instant
  ignoreSources : List String
  dryRun : Bool
  commits : Bool

section Guards

def joinThresholdPct (gapDays : ℤ) : ℚ :=
  min (joinBaseTolerancePct + joinPerDayTolerancePct * (max gapDays 0 : ℤ)) joinMaxTolerancePct

def spanToleranceRatio (gapDays : ℤ) : ℚ := spanSessionRatio * spanDailyDrift ^ (max gapDays 1).toNat

def symbolRows (prices : List PriceRow) (symbol : String) : List PriceRow :=
  prices.filter (·.symbol = symbol)

def liveAnchor (oldestFirst : OldestFirst) (prices : List PriceRow) (symbol : String)
    (ignoreSources : List String) : Option LiveAnchor :=
  let rows := symbolRows prices symbol
  let excluded := untrustedAnchorSources ++ ignoreSources
  (oldestFirst.pick rows).map (fun oldest ↦
    { cutoff := oldest.observedAt
      cutoffSource := oldest.source
      cutoffQuality := oldest.quality
      rows := rows.length
      reference := (oldestFirst.pick (rows.filter (fun r ↦
        r.quality = .ok && decide (0 < r.value) && r.source ∉ excluded))).map
          (fun r ↦ (r.observedAt, r.value, r.source)) })

def plausibleDate (today : Instant) (day : Date) : Bool :=
  minBarDate ≤ day && day ≤ utcDate today + maxBarDateSlack

def truncationError (page : HistoryPage) : Option BackfillRefusal :=
  match page.recordsTotal with
  | some total => if page.returnedRows < total then some (.truncated total page.returnedRows) else none
  | none => if maxHistoryRows ≤ page.returnedRows then some (.maybeTruncated page.returnedRows) else none

def barDateError (today : Instant) (pairs : List (Date × ℚ)) : Option BackfillRefusal :=
  let bad := (pairs.map Prod.fst).filter (fun day ↦ !plausibleDate today day)
  if bad = [] then none else some (.implausibleDates bad)

def barRatio (previous bar : ℚ) : ℚ := max (bar / previous) (previous / bar)

def broken (previous bar : Bar) : Bool :=
  spanToleranceRatio (bar.day - previous.day) < barRatio previous.value bar.value

def spanBreaks (kept : List Bar) : SpanReport :=
  let pairs := (kept.zip kept.tail).filter (fun p ↦ decide (0 < p.1.value) && decide (0 < p.2.value))
  let breaks := pairs.filter (fun p ↦ broken p.1 p.2)
  let unverifiable := pairs.filter (fun p ↦
    !broken p.1 p.2 && decide (spanGuaranteeDays < p.2.day - p.1.day))
  { bars := kept.length
    comparedPairs := kept.length - 1
    maxRatio := pairs.foldl (fun ratio p ↦ max ratio (barRatio p.1.value p.2.value)) 1
    maxGapDays := pairs.foldl (fun gap p ↦ max gap (p.2.day - p.1.day)) 0
    breakCount := breaks.length
    breaks := breaks.take maxReportedBreaks
    unverifiableGapCount := unverifiable.length
    unverifiableGaps := unverifiable.take maxReportedBreaks
    ok := breaks.isEmpty }

def checkJoin (last : Bar) (referenceAt : Instant) (referenceValue : ℚ) : JoinReport :=
  let gapDays := utcDate referenceAt - last.day
  let jump := |referenceValue - last.value| / last.value * 100
  ⟨last, referenceAt, referenceValue, gapDays, jump, joinThresholdPct gapDays,
    jump ≤ joinThresholdPct gapDays⟩

def rialToToman (value : ℚ) : ℚ := value / 10

def eligible (cutoff : Date) : List (Date × ℚ) → List Date → Skips → List Bar × Skips
  | [], _, skips => ([], skips)
  | (day, rawClose) :: rest, seen, skips =>
    if rawClose ≤ 0 then eligible cutoff rest seen { skips with nonPositive := skips.nonPositive + 1 }
    else if cutoff ≤ day then
      eligible cutoff rest seen { skips with atOrAfterCutoff := skips.atOrAfterCutoff + 1 }
    else if day ∈ seen then
      eligible cutoff rest seen { skips with duplicateDay := skips.duplicateDay + 1 }
    else
      let (kept, skips) := eligible cutoff rest (day :: seen) skips
      (⟨day, rawClose, rialToToman rawClose⟩ :: kept, skips)

def rowsToWrite (pairs : List (Date × ℚ)) (cutoff : Instant) : List Bar × Skips :=
  let (kept, skips) := eligible (utcDate cutoff) pairs [] ⟨0, 0, 0⟩
  (kept.insertionSort (fun a b ↦ a.day ≤ b.day), skips)

end Guards

section Splice

variable (iso : Isoformat)

def definitionsOf (symbol : String) : String × String :=
  (spliceDefinitions.lookup symbol).getD ("", "")

def spliceCaution : String :=
  ". Both measure the same underlying thing, but they are not the same measurement, so any " ++
    "return, volatility or real-value statistic computed ACROSS that date mixes two " ++
    "conventions and should say so"

def spliceNote (symbol : String) (lastBackfilled : Date) (cutoff : Instant)
    (cutoffSource : String) : Text :=
  let (before, after) := definitionsOf symbol
  let liveSource := if cutoffSource = "" then "the live collector" else cutoffSource
  spliceNoteMarker ++ " The definition of this series CHANGES on ".toList ++
    iso.date (utcDate cutoff) ++ ". Up to ".toList ++ iso.date lastBackfilled ++
    " it is deep history backfilled from TGJU (source '".toList ++ historySource.toList ++
    "'): ".toList ++ before.toList ++ ". From ".toList ++ iso.time cutoff ++
    " it is the live era (source '".toList ++ liveSource.toList ++ "'): ".toList ++ after.toList ++
    spliceCaution.toList ++ ['.']

def spliceRecord (symbol : String) (first last : Date) (anchor : LiveAnchor) (rows : ℕ)
    (now : Instant) : SpliceRecord where
  symbol := symbol
  spliceAt := anchor.cutoff
  backfillFirstBar := first
  backfillLastBar := last
  backfillRows := rows
  backfillSource := historySource
  backfillDefinition := (definitionsOf symbol).1
  liveSource := anchor.cutoffSource
  liveDefinition := (definitionsOf symbol).2
  joinReferenceSource := anchor.reference.map (fun r ↦ r.2.2)
  joinReferenceAt := anchor.reference.map Prod.fst
  recordedAt := now
  note := spliceNote iso symbol last anchor.cutoff anchor.cutoffSource

/-- `notes.split(marker, 1)[0]`. -/
def beforeMarker (marker : Text) : Text → Text
  | [] => []
  | c :: rest => if marker.isPrefixOf (c :: rest) then [] else c :: beforeMarker marker rest

def notesWith (notes note : Text) : Text :=
  let kept := strip (beforeMarker spliceNoteMarker notes)
  if kept = [] then note else strip (kept ++ ' ' :: note)

def writeSpliceRecord (db : MarketData) (record : SpliceRecord) : MarketData × Bool :=
  ({ db with
      register := (record.symbol, record) :: db.register.filter (fun e ↦ e.1 ≠ record.symbol)
      notes := fun code ↦ if code = record.symbol then (db.notes code).map (notesWith · record.note)
        else db.notes code }, (db.notes record.symbol).isSome)

end Splice

section Backfill

variable (iso : Isoformat)

structure BackfillPlan where
  bars : List Bar
  splice : SpliceRecord

def planBackfill (prices : List PriceRow) (symbol : String) (run : BackfillRun) :
    Except BackfillOutcome BackfillPlan :=
  if (backfillSlugs.lookup symbol).isNone || (symbolMeta.lookup symbol).isNone then
    .error (.refused .notABackfillSymbol)
  else match liveAnchor run.oldestFirst prices symbol run.ignoreSources with
  | none => .error (.refused .noLiveHistory)
  | some anchor =>
    match anchor.reference with
    | none => .error (.refused (.noTrustedReference anchor.rows))
    | some (referenceAt, referenceValue, _) =>
      if !plausibleDate run.today (utcDate anchor.cutoff) then
        .error (.refused (.implausibleCutoff anchor.cutoff anchor.cutoffSource anchor.cutoffQuality))
      else match run.page with
      | none => .error .error
      | some page =>
        match (truncationError page).or (barDateError run.today page.rows) with
        | some refusal => .error (.refused refusal)
        | none =>
          let (kept, skips) := rowsToWrite page.rows anchor.cutoff
          match kept.head?, kept.getLast? with
          | some first, some last =>
            if last.value ≤ 0 then .error (.refused (.nonPositiveClose last))
            else if !(spanBreaks kept).ok then .error (.refused (.incoherent (spanBreaks kept)))
            else if !(checkJoin last referenceAt referenceValue).ok then
              .error (.refused (.joinFailed (checkJoin last referenceAt referenceValue)))
            else .ok ⟨kept, spliceRecord iso symbol first.day last.day anchor kept.length run.now⟩
          | _, _ =>
            if page.rows ≠ [] ∧ skips.atOrAfterCutoff = page.rows.length then .error .upToDate
            else .error (.refused (.nothingEligible skips))

def Bar.priceRow (symbol : String) (bar : Bar) : PriceRow :=
  let (currency, unit) := (symbolMeta.lookup symbol).getD ("", "")
  ⟨symbol, bar.value, currency, unit, historySource, closeStamp bar.day, .ok⟩

/-- `insert_ignore` into `prices`. -/
def insertIgnore (prices : List PriceRow) (row : PriceRow) : List PriceRow :=
  if prices.any (fun p ↦ p.symbol = row.symbol && p.observedAt = row.observedAt &&
    p.source = row.source) then prices else prices ++ [row]

def backfillSymbol (db : MarketData) (symbol : String) (run : BackfillRun) :
    MarketData × BackfillOutcome :=
  match planBackfill iso db.prices symbol run with
  | .error outcome => (db, outcome)
  | .ok plan =>
    if run.dryRun then (db, .dryRun plan.splice)
    else if run.commits then
      let prices := (plan.bars.map (Bar.priceRow symbol)).foldl insertIgnore db.prices
      let (written, noteUpdated) := writeSpliceRecord { db with prices := prices } plan.splice
      (written, .ok (prices.length - db.prices.length) plan.splice noteUpdated)
    else (db, .error)

end Backfill

end TalaPala.Prices
