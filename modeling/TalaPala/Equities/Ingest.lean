import TalaPala.Equities.Adjustment
import TalaPala.Bourse.Ingest

namespace TalaPala.Equities

open Library

inductive DailyListError
  | empty
  | twoBars (tradeDate : Date) (first index : ℕ)
  | nonPositiveClose (tradeDate : Date) (finalClose : ℚ)
  | mixedInstruments (codes : List String)
  | otherInstrument (payload offered : String)
  deriving DecidableEq

/-- A row of `equity_bar_alternatives`; all of it is the unique key. -/
structure AlternativeRow where
  tradeDate : Date
  finalClose : ℚ
  priceYesterday : ℚ
  volume : ℤ
  deriving DecidableEq

/-- A contradiction shows the last restated bars, as stored and as served; `newest` counts
the judged overlap when it is not all of it. A disagreeing action is shown with both
ratios. -/
inductive IngestError
  | daily (error : DailyListError)
  | bars (error : BarParseError)
  | notInRoster (insCode : String)
  | contradiction (insCode : String) (restated compared : ℕ) (newest : Option ℕ)
      (shown : List (AlternativeRow × AlternativeRow))
  | joinsRestated (insCode : String) (day before : Date) (copyClose kept reference : ℚ)
  | storeDisagrees (insCode : String) (disagreeing : List (Date × ℚ × ℚ))
  | checkViolation

/-- The loop over the rows of a payload, which the source parses into bars. -/
def refusedRow (index : ℕ) (seen : List (Date × ℕ)) : List Bar → Option DailyListError
  | [] => none
  | bar :: rest =>
    match seen.lookup bar.tradeDate with
    | some first => some (.twoBars bar.tradeDate first index)
    | none =>
      if bar.finalClose ≤ 0 then some (.nonPositiveClose bar.tradeDate bar.finalClose)
      else refusedRow (index + 1) ((bar.tradeDate, index) :: seen) rest

def parseDailyList (rows : List Bar) (insCode : String) : Except DailyListError (List Bar) :=
  if rows = [] then .error .empty
  else
    match refusedRow 0 [] rows with
    | some e => .error e
    | none =>
      match (rows.map Bar.insCode).dedup with
      | [code] =>
        if insCode ≠ "" ∧ code ≠ insCode then .error (.otherInstrument code insCode)
        else .ok (byTradeDate rows)
      | codes => .error (.mixedInstruments codes)

theorem refusedRow_eq_none {index : ℕ} {seen : List (Date × ℕ)} {rows : List Bar}
    (h : refusedRow index seen rows = none) :
    (rows.map Bar.tradeDate).Nodup ∧ (∀ bar ∈ rows, seen.lookup bar.tradeDate = none) ∧
      ∀ bar ∈ rows, 0 < bar.finalClose := by
  induction rows generalizing index seen with
  | nil => simp
  | cons bar rows ih =>
    rw [refusedRow] at h
    split at h
    · cases h
    · rename_i hfirst
      split at h
      · cases h
      · rename_i hclose
        obtain ⟨hnodup, hseen, hpositive⟩ := ih h
        have hother : ∀ bar' ∈ rows, bar'.tradeDate ≠ bar.tradeDate ∧
            seen.lookup bar'.tradeDate = none := by
          intro bar' hbar'
          have hlookup := hseen bar' hbar'
          rw [List.lookup_cons] at hlookup
          split at hlookup
          · cases hlookup
          · rename_i hne
            exact ⟨beq_eq_false_iff_ne.mp hne, hlookup⟩
        refine ⟨List.nodup_cons.mpr ⟨fun hmem ↦ ?_, hnodup⟩,
          List.forall_mem_cons.mpr ⟨hfirst, fun bar' hbar' ↦ (hother bar' hbar').2⟩,
          List.forall_mem_cons.mpr ⟨not_le.mp hclose, hpositive⟩⟩
        obtain ⟨bar', hbar', heq⟩ := List.mem_map.mp hmem
        exact (hother bar' hbar').1 heq

theorem parseDailyList_ok {rows bars : List Bar} {insCode : String}
    (h : parseDailyList rows insCode = .ok bars) :
    Ascending bars ∧ ∀ bar ∈ bars, 0 < bar.finalClose := by
  rw [parseDailyList] at h
  split at h
  · cases h
  · split at h
    · cases h
    · rename_i hrows
      obtain ⟨hnodup, -, hpositive⟩ := refusedRow_eq_none hrows
      split at h
      · split at h
        · cases h
        · obtain rfl := Except.ok.inj h
          exact ⟨byTradeDate_ascending hnodup, fun bar hbar ↦
            hpositive bar ((byTradeDate_perm rows).subset hbar)⟩
      · cases h

/-- The CHECKs of `equity_bars`. -/
def Bar.checked (bar : Bar) : Bool :=
  decide (0 < bar.finalClose) && decide (0 ≤ bar.priceYesterday) && decide (0 ≤ bar.volume) &&
    decide (0 ≤ bar.tradeCount) && decide (0 ≤ bar.value) && decide (bar.low ≤ bar.high) &&
    decide (0 ≤ bar.opening) && decide (0 ≤ bar.high) && decide (0 ≤ bar.low) &&
    decide (0 ≤ bar.close)

def AlternativeRow.checked (row : AlternativeRow) : Bool :=
  decide (0 < row.finalClose) && decide (0 ≤ row.priceYesterday) && decide (0 ≤ row.volume)

/-- The CHECKs of `corporate_actions`. -/
def CorporateAction.checked (action : CorporateAction) : Bool :=
  decide (0 < action.prevClose) && decide (0 < action.priceYesterday) &&
    decide (0 < action.ratio) && decide (0 < action.cumulativeFactor) &&
    action.restatedClose.all (fun close ↦ 0 < close) &&
    decide (action.prevTradeDate < action.effectiveDate) &&
    (decide (action.kind = .closeRestated) == action.restatedClose.isSome)

/-- `insert_ignore`: one INSERT .. ON CONFLICT DO NOTHING for each row. A row
that breaks a CHECK raises. -/
def insertIgnore {α : Type*} (sameKey : α → α → Bool) (checked : α → Bool) :
    List α → List α → Option (List α)
  | table, [] => some table
  | table, row :: rows =>
    if checked row then
      insertIgnore sameKey checked
        (if table.any (fun stored ↦ sameKey stored row) then table else table ++ [row]) rows
    else none

def Bar.sameDay (bar bar' : Bar) : Bool := decide (bar.tradeDate = bar'.tradeDate)

def CorporateAction.sameDay (action action' : CorporateAction) : Bool :=
  decide (action.effectiveDate = action'.effectiveDate)

def storedBar (stored : List Bar) (tradeDate : Date) : Option Bar :=
  stored.find? (fun bar ↦ bar.tradeDate = tradeDate)

def Bar.disagrees (existing bar : Bar) : Bool :=
  decide (existing.finalClose ≠ bar.finalClose) ||
    decide (existing.priceYesterday ≠ bar.priceYesterday) ||
    decide (existing.volume ≠ bar.volume)

def pendingBars (stored bars : List Bar) : List Bar :=
  bars.filter (fun bar ↦ (storedBar stored bar.tradeDate).isNone)

def overlapBars (stored bars : List Bar) : List Bar :=
  bars.filter (fun bar ↦ (storedBar stored bar.tradeDate).isSome)

def restatedBars (stored bars : List Bar) : List Bar :=
  bars.filter (fun bar ↦ (storedBar stored bar.tradeDate).any (fun e ↦ e.disagrees bar))

def alternativeOf (bar : Bar) : AlternativeRow where
  tradeDate := bar.tradeDate
  finalClose := bar.finalClose
  priceYesterday := bar.priceYesterday
  volume := bar.volume

def joinRefusal (insCode : String) (stored bars : List Bar) (join : Date × Date) :
    Option IngestError :=
  match storedBar stored join.2, storedBar bars join.1 with
  | some existing, some bar =>
    let kept := existing.finalClose
    let copyClose := ((storedBar bars join.2).map Bar.finalClose).getD kept
    if copyClose ≠ kept ∧ bar.priceYesterday = copyClose then
      some (.joinsRestated insCode join.1 join.2 copyClose kept bar.priceYesterday)
    else none
  | _, _ => none

def refusedBars (insCode : String) (stored bars : List Bar) : Option IngestError :=
  let restated := restatedBars stored bars
  let restatedDays := restated.map Bar.tradeDate
  let overlap := (overlapBars stored bars).map Bar.tradeDate
  let newest := Bourse.newestOverlapIsSystematic overlap restatedDays
  if newest || Bourse.restatementIsSystematic restatedDays.length overlap.length then
    some (.contradiction insCode restated.length overlap.length
      (if newest then some (min Bourse.recentOverlap overlap.length) else none)
      ((restated.drop (restated.length - 3)).filterMap (fun bar ↦
        (storedBar stored bar.tradeDate).map (fun existing ↦
          (alternativeOf existing, alternativeOf bar)))))
  else
    (Bourse.joinsOntoRestated (stored.map Bar.tradeDate)
      ((pendingBars stored bars).map Bar.tradeDate) restatedDays).findSome?
        (joinRefusal insCode stored bars)

structure BarsReport where
  barsTotal : ℕ
  barsInserted : ℕ
  barsExisting : ℕ
  barsRestated : ℕ
  alternativesRecorded : ℕ
  barsRaced : ℕ

structure Holding where
  symbolFa : String
  enabled : Bool
  bars : List Bar
  alternatives : List AlternativeRow
  actions : List CorporateAction
  verdict : Option AdjustedSeries
  firstBar : Option Date
  lastBar : Option Date
  barCount : ℕ

def writeBars (insCode : String) (holding : Holding) (bars : List Bar) :
    Except IngestError (Holding × BarsReport) :=
  match refusedBars insCode holding.bars bars with
  | some e => .error e
  | none =>
    let pending := pendingBars holding.bars bars
    let restated := restatedBars holding.bars bars
    match insertIgnore Bar.sameDay Bar.checked holding.bars pending,
      insertIgnore (fun row row' ↦ decide (row = row')) AlternativeRow.checked
        holding.alternatives (restated.map alternativeOf) with
    | some stored, some alternatives =>
      let inserted := stored.length - holding.bars.length
      .ok ({ holding with bars := stored, alternatives := alternatives },
        { barsTotal := bars.length
          barsInserted := inserted
          barsExisting := bars.length - pending.length
          barsRestated := restated.length
          alternativesRecorded := alternatives.length - holding.alternatives.length
          barsRaced := pending.length - inserted })
    | _, _ => .error .checkViolation

/-- `_stored_alternatives`: the statements by trade date. -/
def storedAlternatives (rows : List AlternativeRow) : Alternatives :=
  (rows.map AlternativeRow.tradeDate).dedup.map (fun d ↦
    (d, (rows.filter (fun row ↦ row.tradeDate = d)).map
      (fun row ↦ (row.finalClose, row.priceYesterday))))

def closeEnough (left right : ℚ) : Bool :=
  decide (|left - right| ≤ 1 / 1000000000000 * max (max |left| |right|) 1)

def storedAction (stored : List CorporateAction) (day : Date) : Option CorporateAction :=
  stored.find? (fun action ↦ action.effectiveDate = day)

inductive Decision
  | pending
  | superseded
  | disagreeing
  | kept
  deriving DecidableEq

def decideAction (stored : List CorporateAction) (action : CorporateAction) : Decision :=
  match storedAction stored action.effectiveDate with
  | none => .pending
  | some existing =>
    if existing.prevTradeDate ≠ action.prevTradeDate then .superseded
    else if closeEnough existing.ratio action.ratio then .kept
    else .disagreeing

structure ActionPlan where
  retired : List Date
  superseded : List CorporateAction
  refactored : List CorporateAction
  pending : List CorporateAction

def refactors (stored : List CorporateAction) (action : CorporateAction) : Bool :=
  decide (decideAction stored action = .kept) &&
    (storedAction stored action.effectiveDate).any (fun existing ↦
      !closeEnough existing.cumulativeFactor action.cumulativeFactor)

/-- What `_write_actions` does to the stored actions, in the order it does it. -/
def planActions (insCode : String) (stored detected : List CorporateAction) :
    Except IngestError ActionPlan :=
  let decided (decision : Decision) := detected.filter (fun a ↦ decideAction stored a = decision)
  if decided .disagreeing ≠ [] then
    .error (.storeDisagrees insCode ((decided .disagreeing).map (fun a ↦
      (a.effectiveDate, ((storedAction stored a.effectiveDate).map CorporateAction.ratio).getD 0,
        a.ratio))))
  else .ok
    { retired := ((stored.map CorporateAction.effectiveDate).filter (fun d ↦
        d ∉ detected.map CorporateAction.effectiveDate)).insertionSort (· ≤ ·)
      superseded := decided .superseded
      refactored := detected.filter (refactors stored)
      pending := decided .pending ++ decided .superseded }

def deleteAction (day : Date) (table : List CorporateAction) : List CorporateAction :=
  table.filter (fun action ↦ action.effectiveDate ≠ day)

/-- The one update of this table: the factor, never the ratio. -/
def updateFactor (action : CorporateAction) (table : List CorporateAction) :
    List CorporateAction :=
  table.map (fun stored ↦ if stored.sameDay action then
    { stored with cumulativeFactor := action.cumulativeFactor } else stored)

inductive ActionStatement
  | delete (day : Date)
  | update (action : CorporateAction)
  | insert (action : CorporateAction)

def insertAction (action : CorporateAction) (table : List CorporateAction) :
    List CorporateAction :=
  if table.any (fun stored ↦ stored.sameDay action) then table else table ++ [action]

def ActionStatement.apply : ActionStatement → List CorporateAction → List CorporateAction
  | .delete day, table => deleteAction day table
  | .update action, table => updateFactor action table
  | .insert action, table => insertAction action table

def ActionStatement.checked : ActionStatement → Bool
  | .delete _ => true
  | .update action => decide (0 < action.cumulativeFactor)
  | .insert action => action.checked

def ActionPlan.deletes (plan : ActionPlan) : List ActionStatement :=
  (plan.retired ++ plan.superseded.map CorporateAction.effectiveDate).map .delete

def ActionPlan.statements (plan : ActionPlan) : List ActionStatement :=
  plan.deletes ++ plan.refactored.map .update ++ plan.pending.map .insert

def applyStatements (statements : List ActionStatement) (table : List CorporateAction) :
    List CorporateAction :=
  statements.foldl (fun table statement ↦ statement.apply table) table

structure ActionsReport where
  actionsTotal : ℕ
  actionsReferenceRestated : ℕ
  actionsCloseRestated : ℕ
  actionsInserted : ℕ
  actionsExisting : ℕ
  actionsRefactored : ℕ
  actionsRetired : ℕ
  actionsSuperseded : ℕ

def writeActions (insCode : String) (stored : List CorporateAction) (series : AdjustedSeries) :
    Except IngestError (List CorporateAction × ActionsReport) :=
  match planActions insCode stored series.actions with
  | .error e => .error e
  | .ok plan =>
    if plan.statements.all ActionStatement.checked then
      .ok (applyStatements plan.statements stored,
          { actionsTotal := series.actions.length
            actionsReferenceRestated :=
              series.actions.countP (fun a ↦ a.kind = .referenceRestated)
            actionsCloseRestated := series.actions.countP (fun a ↦ a.kind = .closeRestated)
            actionsInserted := (applyStatements plan.statements stored).length -
              (applyStatements plan.deletes stored).length
            actionsExisting := series.actions.length - plan.pending.length
            actionsRefactored := plan.refactored.length
            actionsRetired := plan.retired.length
            actionsSuperseded := plan.superseded.length })
    else .error .checkViolation

structure IngestReport where
  insCode : String
  symbol : String
  enabled : Bool
  bars : BarsReport
  actions : ActionsReport
  contestedBreaks : ℕ
  series : AdjustedSeries

def ingestHolding (insCode : String) (holding : Holding) (bars : List Bar) :
    Except IngestError (Holding × IngestReport) :=
  match writeBars insCode holding bars with
  | .error e => .error e
  | .ok (written, barsReport) =>
    match adjust written.bars {} (storedAlternatives written.alternatives) with
    | .error e => .error (.bars e)
    | .ok series =>
      match writeActions insCode written.actions series with
      | .error e => .error e
      | .ok (actions, actionsReport) => .ok (
          { written with
            actions := actions
            verdict := some series
            firstBar := (written.bars.map Bar.tradeDate).min?
            lastBar := (written.bars.map Bar.tradeDate).max?
            barCount := written.bars.length },
          { insCode := insCode
            symbol := holding.symbolFa
            enabled := holding.enabled
            bars := barsReport
            actions := actionsReport
            contestedBreaks := series.contested.length
            series := series })

abbrev Store := String → Option Holding

structure IngestCall where
  payload : List Bar
  insCode : String

def ingestPayload (store : Store) (call : IngestCall) :
    Except IngestError (Store × IngestReport) :=
  match parseDailyList call.payload call.insCode with
  | .error e => .error (.daily e)
  | .ok parsed =>
    match adjust parsed {} [] with
    | .error e => .error (.bars e)
    | .ok series =>
      match store series.insCode with
      | none => .error (.notInRoster series.insCode)
      | some holding =>
        match ingestHolding series.insCode holding series.bars with
        | .error e => .error e
        | .ok (after, report) =>
          .ok (Function.update store series.insCode (some after), report)

/-- The tables after a call; one that raises is rolled back. -/
def Store.ingest (store : Store) (call : IngestCall) : Store :=
  match ingestPayload store call with
  | .ok (after, _) => after
  | .error _ => store

def Store.after (store : Store) (calls : List IngestCall) : Store := calls.foldl Store.ingest store

end TalaPala.Equities
