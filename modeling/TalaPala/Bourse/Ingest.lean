import TalaPala.Bourse.Scale
import TalaPala.Library.Selection

namespace TalaPala.Bourse

open Library

section Restatements

def systematicMinCompared : ℕ := 4

def recentOverlap : ℕ := 10

/-- More than half of the compared rows, with `SYSTEMATIC_FRACTION` at one half. -/
def restatementIsSystematic (restated compared : ℕ) : Bool :=
  decide (systematicMinCompared ≤ compared) && decide (compared < 2 * restated)

def newestOverlapIsSystematic (compared restated : List Date) : Bool :=
  let newest := newest recentOverlap (ascending id compared)
  restatementIsSystematic (newest.countP (fun d ↦ d ∈ restated)) newest.length

def joinsOntoRestated (stored new restated : List Date) : List (Date × Date) :=
  let merged := keys id (stored ++ new)
  ((merged.zip merged.tail).filter (fun p ↦ p.2 ∈ new ∧ p.1 ∈ restated)).map Prod.swap

end Restatements

structure IndexValue where
  tradeDate : Date
  close : ℚ
  low : Option ℚ
  high : Option ℚ

structure RawValue where
  insCode : String
  value : IndexValue

inductive MarketParseError
  | empty
  | insCodes (found : List String)
  | allNonpositive (insCode : String)
  | twice (insCode : String) (tradeDate : Date)

structure IndexHistory where
  insCode : String
  values : List IndexValue
  droppedNonpositive : ℕ
  droppedDates : List Date
  ascending : AscendingBy IndexValue.tradeDate values
  positive : ∀ v ∈ values, 0 < v.close

def firstRepeat : List Date → List Date → Option Date
  | _, [] => none
  | seen, d :: rest => if d ∈ seen then some d else firstRepeat (d :: seen) rest

theorem nodup_of_firstRepeat {seen dates : List Date} (h : firstRepeat seen dates = none) :
    dates.Nodup ∧ ∀ d ∈ dates, d ∉ seen := by
  induction dates generalizing seen with
  | nil => simp
  | cons d rest ih =>
    rw [firstRepeat] at h
    split at h
    · cases h
    · rename_i hd
      obtain ⟨hnodup, hseen⟩ := ih h
      refine ⟨List.nodup_cons.mpr ⟨fun hmem ↦ ?_, hnodup⟩, fun d' hd' ↦ ?_⟩
      · exact hseen d hmem List.mem_cons_self
      · cases List.mem_cons.mp hd' with
        | inl heq => exact heq ▸ hd
        | inr hrest => exact fun hmem ↦ hseen d' hrest (List.mem_cons_of_mem _ hmem)

theorem ascending_of_firstRepeat {values : List IndexValue}
    (h : firstRepeat [] ((ascending IndexValue.tradeDate values).map IndexValue.tradeDate) =
      none) : AscendingBy IndexValue.tradeDate (ascending IndexValue.tradeDate values) := by
  have hperm : (ascending IndexValue.tradeDate values).Perm values := ascending_perm values
  exact ascending_of_nodup
    ((hperm.map IndexValue.tradeDate).nodup_iff.mp (nodup_of_firstRepeat h).1)

theorem positive_of_kept {rows : List RawValue} {v : IndexValue}
    (h : v ∈ ascending IndexValue.tradeDate
      ((rows.map RawValue.value).filter (fun v ↦ 0 < v.close))) : 0 < v.close := by
  have hmem := (ascending_perm _).mem_iff.mp h
  exact of_decide_eq_true (List.mem_filter.mp hmem).2

def parseIndexHistory (rows : List RawValue) : Except MarketParseError IndexHistory :=
  match rows, (rows.map RawValue.insCode).dedup with
  | [], _ => .error .empty
  | _, [code] =>
    let values := (rows.map RawValue.value).filter (fun v ↦ 0 < v.close)
    let dropped := (rows.map RawValue.value).filter (fun v ↦ !decide (0 < v.close))
    if values = [] then .error (.allNonpositive code)
    else
      match h : firstRepeat []
          ((ascending IndexValue.tradeDate values).map IndexValue.tradeDate) with
      | some d => .error (.twice code d)
      | none => .ok
        { insCode := code
          values := Library.ascending IndexValue.tradeDate values
          droppedNonpositive := dropped.length
          droppedDates := (dropped.map IndexValue.tradeDate).insertionSort (· ≤ ·)
          ascending := ascending_of_firstRepeat h
          positive := fun _ hv ↦ positive_of_kept hv }
  | _, codes => .error (.insCodes codes)

inductive RefusalReason
  | correctionBeyond (worstExp : ℕ)
  | liveRatio (newest : ℚ) (tradeDate : Date) (ratio liveValue : ℚ)

inductive Status
  | validated
  | refused
  deriving DecidableEq

structure IndexVerdict where
  status : Status
  valuesTotal : ℕ
  droppedNonpositive : ℕ
  scaleBreaks : ℕ
  rowsRescaled : ℕ
  firstBreak : Option Date
  lastBreak : Option Date
  largestMove : Option ℚ
  largestMoveDate : Option Date
  liveValue : Option ℚ
  liveRatio : Option ℚ
  refusalReasons : List RefusalReason

def largestMove (corrected : List ℚ) (dates : List Date) : Option (ℚ × Date) :=
  let moves := (corrected.zip corrected.tail).map (fun p ↦ p.2 / p.1 - 1)
  (moves.zip dates.tail).foldl (fun largest move ↦
    if largest.all (fun l ↦ |l.1| < |move.1|) then some move else largest) none

def worstExp (exps : List ℤ) : ℕ := (exps.map Int.natAbs).foldr max 0

def liveRatioOf (corrected : List ℚ) (liveValue : Option ℚ) : Option ℚ := do
  let live ← liveValue
  if 0 < live then
    let newest ← corrected.getLast?
    return newest / live
  else none

def refusalReasons (dates : List Date) (corrected : List ℚ) (exps : List ℤ)
    (liveValue : Option ℚ) : List RefusalReason :=
  let beyond := if maxAbsExp < worstExp exps then [.correctionBeyond (worstExp exps)] else []
  let live := (liveRatioOf corrected liveValue).elim [] (fun ratio ↦
    if 3 / 4 ≤ ratio ∧ ratio ≤ 4 / 3 then []
    else [.liveRatio (corrected.getLast?.getD 0) (dates.getLast?.getD 0) ratio
      (liveValue.getD 0)])
  beyond ++ live

def verdict (dates : List Date) (closes : List ℚ) (exps : List ℤ) (breaks : List ℕ)
    (droppedNonpositive : ℕ) (liveValue : Option ℚ) : IndexVerdict :=
  let corrected := closes.zipWith (fun c e ↦ c * (10 : ℚ) ^ e) exps
  let largest := largestMove corrected dates
  let reasons := refusalReasons dates corrected exps liveValue
  { status := if reasons = [] then .validated else .refused
    valuesTotal := closes.length
    droppedNonpositive := droppedNonpositive
    scaleBreaks := breaks.length
    rowsRescaled := exps.countP (fun e ↦ e ≠ 0)
    firstBreak := breaks.head?.bind (fun i ↦ dates[i]?)
    lastBreak := breaks.getLast?.bind (fun i ↦ dates[i]?)
    largestMove := largest.map Prod.fst
    largestMoveDate := largest.map Prod.snd
    liveValue := liveValue
    liveRatio := liveRatioOf corrected liveValue
    refusalReasons := reasons }

/-- A row of `market_index_values`, with the table's two CHECKs. -/
structure IndexRow where
  tradeDate : Date
  close : ℚ
  low : Option ℚ
  high : Option ℚ
  scaleExp : ℤ
  collectedAt : Instant
  close_pos : 0 < close
  scaleExp_between : -3 ≤ scaleExp ∧ scaleExp ≤ 3

structure IndexCheck where
  verdict : IndexVerdict
  liveCheckedAt : Option Instant
  computedAt : Instant

structure Registration where
  nameFa : String
  enabled : Bool
  firstDate : Option Date
  lastDate : Option Date
  valueCount : ℕ
  updatedAt : Instant

/-- The three tables by insCode; `checks` holds the row of `CHECK_VERSION`. -/
structure Store where
  registry : String → Option Registration
  values : String → List IndexRow
  checks : String → Option IndexCheck

structure Restated where
  tradeDate : Date
  stored : ℚ
  served : ℚ

/-- A contradiction shows the last restated values, and `newest` counts the
overlap that was judged when it is not all of it. -/
inductive IngestError
  | parse (error : MarketParseError)
  | noSettledSession (insCode : String)
  | notRegistered (insCode : String)
  | contradiction (insCode : String) (restated compared : ℕ) (newest : Option ℕ)
      (shown : List Restated)
  | joinsRestated (insCode : String) (day before : Date)
  | badClose (close : ℚ)
  | checkViolation (tradeDate : Date)

def settledAfterHour : ℤ := 15

def microsPerHour : ℤ := 3600 * 1000000

def epochOrdinal : Date := 719163

/-- The first trade date not settled at `now`; `utcOffset` is the time zone of Tehran. -/
def settledCutoff (utcOffset : Instant → ℤ) (now : Instant) : Date :=
  let at_ := now + utcOffset now
  let today := at_ / (24 * microsPerHour) + epochOrdinal
  if settledAfterHour ≤ at_ % (24 * microsPerHour) / microsPerHour then today + 1 else today

def sameIndexPrint (left right : ℚ) : Bool :=
  let limit := max (1 / 10) (1 / 100000 * max |left| |right|)
  decide (|left - right| ≤ limit * (1 + 1 / 1000000000))

/-- Whether `k` is `log10 ratio` rounded; a half is not the logarithm of a rational. -/
def roundedLog10 (ratio : ℚ) (k : ℤ) : Bool :=
  decide ((10 : ℚ) ^ (2 * k - 1) < ratio ^ 2) && decide (ratio ^ 2 < (10 : ℚ) ^ (2 * k + 1))

def powerOfTenApart (stored served : ℚ) : Bool :=
  decide (0 < stored) && decide (0 < served) &&
    ([-3, -2, -1, 1, 2, 3] : List ℤ).any (fun k ↦
      roundedLog10 (served / stored) k && sameIndexPrint served (stored * (10 : ℚ) ^ k))

def IndexRow.agrees (row : IndexRow) (v : IndexValue) : Bool :=
  sameIndexPrint row.close v.close

def IndexRow.rescaledBy (row : IndexRow) (v : IndexValue) : Bool :=
  !row.agrees v && powerOfTenApart row.close v.close

def restatedRow (stored : List IndexRow) (v : IndexValue) : Option Restated := do
  let row ← stored.find? (fun r ↦ r.tradeDate = v.tradeDate)
  if row.agrees v || row.rescaledBy v then none
  else some { tradeDate := v.tradeDate, stored := row.close, served := v.close }

structure IngestCall where
  payload : List RawValue
  live : String → Option ℚ
  now : Instant

structure Merged where
  history : IndexHistory
  registration : Registration
  settled : List IndexValue
  pending : List IndexValue
  restated : List Restated
  restatedScale : ℕ
  dates : List Date
  closes : List ℚ
  exps : List ℤ
  breaks : List ℕ

def mergedSeries (stored : List IndexRow) (pending : List IndexValue) : List (Date × ℚ) :=
  ascending Prod.fst (stored.map (fun r ↦ (r.tradeDate, r.close)) ++
    pending.map (fun v ↦ (v.tradeDate, v.close)))

def isStored (stored : List IndexRow) (v : IndexValue) : Bool :=
  stored.any (fun r ↦ r.tradeDate = v.tradeDate)

def settledValues (cutoff : Date) (history : IndexHistory) : List IndexValue :=
  history.values.filter (fun v ↦ v.tradeDate < cutoff)

def pendingValues (stored : List IndexRow) (settled : List IndexValue) : List IndexValue :=
  settled.filter (fun v ↦ !isStored stored v)

def refusal (code : String) (stored : List IndexRow) (settled : List IndexValue) :
    Option IngestError :=
  let overlap := settled.filter (isStored stored)
  let pending := pendingValues stored settled
  let restated := settled.filterMap (restatedRow stored)
  let restatedDays := restated.map Restated.tradeDate
  let newest := newestOverlapIsSystematic (overlap.map IndexValue.tradeDate) restatedDays
  if newest || restatementIsSystematic restated.length overlap.length then
    some (.contradiction code restated.length overlap.length
      (if newest then some (min recentOverlap overlap.length) else none)
      (restated.drop (restated.length - 3)))
  else
    (joinsOntoRestated (stored.map IndexRow.tradeDate) (pending.map IndexValue.tradeDate)
      restatedDays).head?.map (fun join ↦ .joinsRestated code join.1 join.2)

def mergeHistory (utcOffset : Instant → ℤ) (store : Store) (call : IngestCall) :
    Except IngestError Merged :=
  match parseIndexHistory call.payload with
  | .error e => .error (.parse e)
  | .ok history =>
    let code := history.insCode
    let settled := settledValues (settledCutoff utcOffset call.now) history
    if settled = [] then .error (.noSettledSession code)
    else
      match store.registry code with
      | none => .error (.notRegistered code)
      | some registration =>
        let stored := store.values code
        match refusal code stored settled with
        | some e => .error e
        | none =>
          let pending := pendingValues stored settled
          let merged := mergedSeries stored pending
          match scaleExponents (merged.map Prod.snd) with
          | .error bad => .error (.badClose bad.close)
          | .ok (exps, breaks) => .ok
            { history := history
              registration := registration
              settled := settled
              pending := pending
              restated := settled.filterMap (restatedRow stored)
              restatedScale := settled.countP (fun v ↦
                stored.any (fun r ↦ r.tradeDate = v.tradeDate && r.rescaledBy v))
              dates := merged.map Prod.fst
              closes := merged.map Prod.snd
              exps := exps
              breaks := breaks }

/-- `dict(zip(dates, exps))`. -/
def expOf (dates : List Date) (exps : List ℤ) (d : Date) : ℤ :=
  ((dates.zip exps).find? (fun p ↦ p.1 = d)).elim 0 Prod.snd

def insertRow (exp : Date → ℤ) (collectedAt : Instant) (v : IndexValue) :
    Except IngestError IndexRow :=
  if h : 0 < v.close ∧ -3 ≤ exp v.tradeDate ∧ exp v.tradeDate ≤ 3 then
    .ok
      { tradeDate := v.tradeDate
        close := v.close
        low := v.low
        high := v.high
        scaleExp := exp v.tradeDate
        collectedAt := collectedAt
        close_pos := h.1
        scaleExp_between := h.2 }
  else .error (.checkViolation v.tradeDate)

def rescaleRow (exp : Date → ℤ) (row : IndexRow) : Except IngestError IndexRow :=
  if row.scaleExp = exp row.tradeDate then .ok row
  else if h : -3 ≤ exp row.tradeDate ∧ exp row.tradeDate ≤ 3 then
    .ok { row with scaleExp := exp row.tradeDate, scaleExp_between := h }
  else .error (.checkViolation row.tradeDate)

structure Report where
  insCode : String
  nameFa : String
  verdict : IndexVerdict
  valuesTotal : ℕ
  valuesInserted : ℕ
  valuesExisting : ℕ
  unsettledSkipped : ℕ
  restatedByPowerOfTen : ℕ
  restated : ℕ
  restatedExamples : List Restated
  rescaledExistingRows : ℕ
  firstDate : Option Date
  lastDate : Option Date

def restatedExamples : ℕ := 5

def writeHistory (store : Store) (call : IngestCall) (m : Merged) :
    Except IngestError (Store × Report) := do
  let code := m.history.insCode
  let stored := store.values code
  let exp := expOf m.dates m.exps
  let inserted ← m.pending.mapM (insertRow exp call.now)
  let updated ← stored.mapM (rescaleRow exp)
  let result := verdict m.dates m.closes m.exps m.breaks m.history.droppedNonpositive
    (call.live code)
  let check : IndexCheck :=
    { verdict := result
      liveCheckedAt := (call.live code).map (fun _ ↦ call.now)
      computedAt := call.now }
  let registration : Registration :=
    { m.registration with
      firstDate := m.dates.head?
      lastDate := m.dates.getLast?
      valueCount := stored.length + inserted.length
      updatedAt := call.now }
  return (
    { registry := Function.update store.registry code (some registration)
      values := Function.update store.values code (updated ++ inserted)
      checks := Function.update store.checks code (some check) },
    { insCode := code
      nameFa := m.registration.nameFa
      verdict := result
      valuesTotal := m.history.values.length
      valuesInserted := inserted.length
      valuesExisting := m.settled.length - m.pending.length
      unsettledSkipped := m.history.values.length - m.settled.length
      restatedByPowerOfTen := m.restatedScale
      restated := m.restated.length
      restatedExamples := m.restated.take restatedExamples
      rescaledExistingRows := stored.countP (fun r ↦ r.scaleExp ≠ exp r.tradeDate)
      firstDate := m.dates.head?
      lastDate := m.dates.getLast? })

def ingestIndexHistory (utcOffset : Instant → ℤ) (store : Store) (call : IngestCall) :
    Except IngestError (Store × Report) := do
  let m ← mergeHistory utcOffset store call
  writeHistory store call m

/-- The tables after a call; one that raises is rolled back. -/
def Store.ingest (utcOffset : Instant → ℤ) (store : Store) (call : IngestCall) : Store :=
  match ingestIndexHistory utcOffset store call with
  | .ok (after, _) => after
  | .error _ => store

def Store.after (utcOffset : Instant → ℤ) (store : Store) (calls : List IngestCall) : Store :=
  calls.foldl (Store.ingest utcOffset) store

def Store.start (registry : String → Option Registration) : Store where
  registry := registry
  values := fun _ ↦ []
  checks := fun _ ↦ none

end TalaPala.Bourse
