import TalaPala.Equities.Ingest
import TalaPala.Prices.SpliceRegister

namespace TalaPala.Bourse

open Library
open Equities (Bar DailyListError insertIgnore parseDailyList)
open Prices (closeStamp utcDate)

section Checks

def roundingRials : ℚ := 1

def roundingRelative : ℚ := 1 / 10000

def roundingApart (left right : ℚ) : Bool :=
  decide (|left - right| ≤ max roundingRials (roundingRelative * max |left| |right|))

def between (sessions : List Date) (after before : Date) : List Date :=
  sessions.filter (fun d ↦ after < d ∧ d < before)

def pairs (bars : List Bar) : List (Bar × Bar) := bars.zip bars.tail

def wantedPair (only : Date → Bool) (pair : Bar × Bar) : Bool :=
  only pair.2.tradeDate || only pair.1.tradeDate

def referenceRestatements (bars : List Bar) (only : Date → Bool) (sessions : List Date) :
    List (Date × ℚ × ℚ) :=
  let stepped := (pairs bars).filter (fun pair ↦ wantedPair only pair &&
    (between sessions pair.1.tradeDate pair.2.tradeDate).isEmpty &&
    !roundingApart pair.2.priceYesterday pair.1.finalClose)
  let moved := bars.filter (fun bar ↦ only bar.tradeDate && !bar.traded &&
    !roundingApart bar.finalClose bar.priceYesterday)
  (stepped.map (fun pair ↦ (pair.2.tradeDate, pair.1.finalClose, pair.2.priceYesterday)) ++
    moved.map (fun bar ↦ (bar.tradeDate, bar.priceYesterday, bar.finalClose))).insertionSort
      (fun a b ↦ toLex (a.1, toLex a.2) ≤ toLex (b.1, toLex b.2))

def servedGaps (bars : List Bar) (sessions : List Date) (only : Date → Bool) : List Date :=
  ((pairs bars).filter (wantedPair only)).flatMap
    (fun pair ↦ between sessions pair.1.tradeDate pair.2.tradeDate)

end Checks

section Store

/-- A settled close in toman, as `prices` holds it. -/
structure FundClose where
  value : ℚ
  observedAt : Instant
  collectedAt : Instant
  deriving DecidableEq

/-- The number that was served, as `raw_observations` holds it. -/
structure RawClose where
  bar : Bar
  collectedAt : Instant
  deriving DecidableEq

structure Fund where
  insCode : String
  instrumentCode : String
  symbolFa : String
  enabled : Bool
  firstClose : Option Date
  lastClose : Option Date
  closeCount : ℕ
  deriving DecidableEq

structure FundStore where
  fund : Fund
  closes : List FundClose
  raw : List RawClose
  deriving DecidableEq

def rialToToman (value : ℚ) : ℚ := value / 10

def storedClose (closes : List FundClose) (day : Date) : Option ℚ :=
  (closes.find? (fun row ↦ row.observedAt = closeStamp day)).map FundClose.value

def sameStamp (row row' : FundClose) : Bool := decide (row.observedAt = row'.observedAt)

def FundClose.checked (row : FundClose) : Bool := decide (0 < row.value)

def sameSession (row row' : RawClose) : Bool := decide (row.bar.tradeDate = row'.bar.tradeDate)

end Store

section Ingest

/-- One call on a served list, with the first observation of another source and
the sessions of the index as they are stored at that time. -/
structure FundCall where
  payload : List Bar
  now : Instant
  otherSince : Option Instant
  calendar : List Date

structure RestatedClose where
  date : Date
  stored : ℚ
  served : ℚ

inductive FundError
  | daily (e : DailyListError)
  | notInRegistry (insCode : String)
  | disabled (insCode : String)
  | contradiction (restated : List RestatedClose) (newest : Bool)
  | restated (restatements : List (Date × ℚ × ℚ))
  | checkViolation

structure FundReport where
  sessionsTotal : ℕ
  closesInserted : ℕ
  closesExisting : ℕ
  restated : List RestatedClose
  carryForwardSkipped : ℕ
  unsettledSkipped : ℕ
  liveEraSkipped : ℕ
  servedGaps : List Date
  firstDate : Option Date
  lastDate : Option Date
  lastClose : Option ℚ

def FundCall.liveDay (call : FundCall) : Option Date := call.otherSince.map utcDate

def FundCall.isSettled (call : FundCall) (bar : Bar) : Bool :=
  bar.traded && decide (closeStamp bar.tradeDate ≤ call.now)

def FundCall.isBeforeLive (call : FundCall) (bar : Bar) : Bool :=
  call.liveDay.all (fun day ↦ bar.tradeDate < day)

def FundCall.settled (call : FundCall) (bars : List Bar) : List Bar :=
  bars.filter (fun bar ↦ call.isSettled bar && call.isBeforeLive bar)

def restatedCloses (closes : List FundClose) (settled : List Bar) : List RestatedClose :=
  settled.filterMap (fun bar ↦ (storedClose closes bar.tradeDate).bind (fun old ↦
    if roundingApart (old * 10) bar.finalClose then none
    else some ⟨bar.tradeDate, old, rialToToman bar.finalClose⟩))

def FundCall.newBars (call : FundCall) (closes : List FundClose) (bars : List Bar) : List Bar :=
  (call.settled bars).filter (fun bar ↦ (storedClose closes bar.tradeDate).isNone)

def FundCall.row (call : FundCall) (bar : Bar) : FundClose where
  value := rialToToman bar.finalClose
  observedAt := closeStamp bar.tradeDate
  collectedAt := call.now

def newestStored (closes : List FundClose) : Option Date :=
  ((closes.map FundClose.observedAt).max?).map utcDate

def judged (closes : List FundClose) (bars new : List Bar) (day : Date) : Bool :=
  new.any (fun bar ↦ bar.tradeDate = day) ||
    bars.any (fun bar ↦ bar.tradeDate = day && !bar.traded &&
      (newestStored closes).all (fun newest ↦ newest < bar.tradeDate))

def asStored (closes : List FundClose) (bar : Bar) : Bar :=
  if bar.traded then
    match storedClose closes bar.tradeDate with
    | some value => { bar with finalClose := value * 10 }
    | none => bar
  else bar

def FundCall.sessions (call : FundCall) (bars : List Bar) : List Date :=
  call.calendar.filter (fun d ↦ (bars.head?.all (fun bar ↦ bar.tradeDate ≤ d)) &&
    bars.getLast?.all (fun bar ↦ d ≤ bar.tradeDate))

def Fund.counted (fund : Fund) (closes : List FundClose) : Fund :=
  { fund with
    firstClose := ((closes.map FundClose.observedAt).min?).map utcDate
    lastClose := ((closes.map FundClose.observedAt).max?).map utcDate
    closeCount := closes.length }

def contradicts (closes : List FundClose) (settled : List Bar) : Option (List RestatedClose × Bool) :=
  let restated := restatedCloses closes settled
  let overlap := (settled.filter (fun bar ↦ (storedClose closes bar.tradeDate).isSome)).map
    Bar.tradeDate
  let newest := newestOverlapIsSystematic overlap (restated.map RestatedClose.date)
  if newest || restatementIsSystematic restated.length overlap.length then some (restated, newest)
  else none

def writeFundCloses (store : FundStore) (call : FundCall) (bars : List Bar) :
    Except FundError (FundStore × FundReport) :=
  let settled := call.settled bars
  let new := call.newBars store.closes bars
  match contradicts store.closes settled with
  | some (restated, newest) => .error (.contradiction restated newest)
  | none =>
    let only := judged store.closes bars new
    let sessions := call.sessions bars
    let restatements :=
      referenceRestatements (bars.map (asStored store.closes)) only sessions
    if restatements ≠ [] then .error (.restated restatements)
    else
      match insertIgnore sameStamp FundClose.checked store.closes (new.map call.row),
          insertIgnore sameSession (fun _ ↦ true) store.raw
            (new.map (fun bar ↦ RawClose.mk bar call.now)) with
      | some closes, some raw =>
        let fund := store.fund.counted closes
        .ok (⟨fund, closes, raw⟩,
          { sessionsTotal := bars.length
            closesInserted := closes.length - store.closes.length
            closesExisting := settled.length - new.length
            restated := restatedCloses store.closes settled
            carryForwardSkipped := bars.countP (fun bar ↦ !bar.traded)
            unsettledSkipped := bars.countP (fun bar ↦ bar.traded && !call.isSettled bar)
            liveEraSkipped := bars.countP (fun bar ↦ call.isSettled bar && !call.isBeforeLive bar)
            servedGaps := servedGaps bars sessions only
            firstDate := fund.firstClose
            lastDate := fund.lastClose
            lastClose := settled.getLast?.map (fun bar ↦ rialToToman bar.finalClose) })
      | _, _ => .error .checkViolation

def ingestFundCloses (store : FundStore) (call : FundCall) :
    Except FundError (FundStore × FundReport) :=
  match parseDailyList call.payload "" with
  | .error e => .error (.daily e)
  | .ok bars =>
    let code := (bars.head?.map Bar.insCode).getD ""
    if code ≠ store.fund.insCode then .error (.notInRegistry code)
    else if store.fund.enabled = false then .error (.disabled code)
    else writeFundCloses store call bars

end Ingest

end TalaPala.Bourse
