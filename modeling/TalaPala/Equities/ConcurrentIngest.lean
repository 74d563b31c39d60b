import TalaPala.Equities.ActionPlans
import TalaPala.Equities.Serving
import TalaPala.Library.Transition

namespace TalaPala.Equities

open Library Pending Transition

structure Derivation where
  bars : List Bar
  alternatives : List AlternativeRow
  series : AdjustedSeries
  derived : adjust bars {} (storedAlternatives alternatives) = .ok series

/-- The last statement an ingest has run, with what it still has to write. A delete or an
update `aims` at the row it found at its start, and may wait for it. -/
inductive Phase
  | idle
  | opened (payload : List Bar)
  | inserting (bars : List Bar) (alternatives : List AlternativeRow)
  | reread (bars : List Bar)
  | derived (derivation : Derivation)
  | writing (derivation : Derivation) (rest : List ActionStatement)
  | aiming (derivation : Derivation) (statement : ActionStatement) (aim : Option ℕ)
      (rest : List ActionStatement)
  | judging (derivation : Derivation) (existing : Bool)
  | finished (derivation : Derivation)

def Phase.isIdle : Phase → Bool
  | .idle => true
  | _ => false

/-- One instrument under READ COMMITTED: committed rows, the writes of open transactions
and where each stands. `deleted` logs the days of committed deletes: a day and a count
name a row. -/
structure Shared where
  insCode : String
  bars : List Bar
  alternatives : List AlternativeRow
  actions : List CorporateAction
  deleted : List Date
  verdict : Option AdjustedSeries
  pendingBars : List (ℕ × Bar)
  pendingAlternatives : List (ℕ × AlternativeRow)
  pendingStatements : List (ℕ × ActionStatement)
  pendingVerdicts : List (ℕ × AdjustedSeries)
  phase : ℕ → Phase

def Shared.start (insCode : String) : Shared where
  insCode := insCode
  bars := []
  alternatives := []
  actions := []
  deleted := []
  verdict := none
  pendingBars := []
  pendingAlternatives := []
  pendingStatements := []
  pendingVerdicts := []
  phase := fun _ ↦ .idle

structure View where
  bars : List Bar
  alternatives : List AlternativeRow
  actions : List CorporateAction
  deleted : List Date
  ownBars : List Bar
  ownAlternatives : List AlternativeRow
  ownStatements : List ActionStatement

def Shared.view (s : Shared) (w : ℕ) : View where
  bars := s.bars
  alternatives := s.alternatives
  actions := s.actions
  deleted := s.deleted
  ownBars := own s.pendingBars w
  ownAlternatives := own s.pendingAlternatives w
  ownStatements := own s.pendingStatements w

def View.visibleBars (v : View) : List Bar := v.bars ++ v.ownBars

def View.visibleAlternatives (v : View) : List AlternativeRow :=
  v.alternatives ++ v.ownAlternatives

def View.visibleActions (v : View) : List CorporateAction :=
  applyStatements v.ownStatements v.actions

def ActionStatement.day : ActionStatement → Date
  | .delete day => day
  | .update action => action.effectiveDate
  | .insert action => action.effectiveDate

def ActionStatement.deletedDay : ActionStatement → Option Date
  | .delete day => some day
  | _ => none

def dayStored (actions : List CorporateAction) (day : Date) : Bool :=
  actions.any (fun action ↦ action.effectiveDate = day)

def View.aim (v : View) (day : Date) : Option ℕ :=
  if dayStored v.visibleActions day then some (v.deleted.count day) else none

def Shared.setPhase (s : Shared) (w : ℕ) (phase : Phase) : Shared :=
  { s with phase := Function.update s.phase w phase }

def Shared.addBar (s : Shared) (w : ℕ) (bar : Bar) : Shared :=
  { s with pendingBars := s.pendingBars ++ [(w, bar)] }

def Shared.addAlternative (s : Shared) (w : ℕ) (row : AlternativeRow) : Shared :=
  { s with pendingAlternatives := s.pendingAlternatives ++ [(w, row)] }

def Shared.addStatement (s : Shared) (w : ℕ) (statement : ActionStatement) : Shared :=
  { s with pendingStatements := s.pendingStatements ++ [(w, statement)] }

def Shared.addVerdict (s : Shared) (w : ℕ) (series : AdjustedSeries) : Shared :=
  { s with pendingVerdicts := s.pendingVerdicts ++ [(w, series)] }

def Shared.discard (s : Shared) (w : ℕ) : Shared :=
  { s with
    pendingBars := release s.pendingBars w
    pendingAlternatives := release s.pendingAlternatives w
    pendingStatements := release s.pendingStatements w
    pendingVerdicts := release s.pendingVerdicts w
    phase := Function.update s.phase w .idle }

def Shared.publish (s : Shared) (w : ℕ) : Shared :=
  { s with
    bars := (s.view w).visibleBars
    alternatives := (s.view w).visibleAlternatives
    actions := (s.view w).visibleActions
    deleted := s.deleted ++ (s.view w).ownStatements.filterMap ActionStatement.deletedDay
    verdict := (own s.pendingVerdicts w).getLast?.or s.verdict
    pendingBars := release s.pendingBars w
    pendingAlternatives := release s.pendingAlternatives w
    pendingStatements := release s.pendingStatements w
    pendingVerdicts := release s.pendingVerdicts w
    phase := Function.update s.phase w .idle }

def offeredSeries (call : IngestCall) : Option AdjustedSeries :=
  (parseDailyList call.payload call.insCode).toOption.bind
    (fun parsed ↦ (adjust parsed {} []).toOption)

def derive (bars : List Bar) (alternatives : List AlternativeRow) : Option Derivation :=
  match h : adjust bars {} (storedAlternatives alternatives) with
  | .ok series => some ⟨bars, alternatives, series, h⟩
  | .error _ => none

/-- `INSERT .. ON CONFLICT DO NOTHING` of a row: it raises on a CHECK, waits while another
open transaction holds the key, and skips a conflict. -/
def Shared.insertRow (s : Shared) (w : ℕ) (checked waits conflict : Bool) (after : Phase)
    (inserted : Shared) : Option Shared :=
  if !checked then some (s.discard w)
  else if waits then none
  else if conflict then some (s.setPhase w after)
  else some (inserted.setPhase w after)

def Shared.strike (s : Shared) (w : ℕ) (statement : ActionStatement) (aim : Option ℕ)
    (after : Phase) : Option Shared :=
  if aim = none then some (s.setPhase w after)
  else if held s.pendingStatements w (fun other ↦ other.day = statement.day) then none
  else if (s.view w).aim statement.day ≠ aim then some (s.setPhase w after)
  else if !statement.checked then some (s.discard w)
  else some ((s.addStatement w statement).setPhase w after)

def Shared.statement (s : Shared) (w : ℕ) : Phase → Option Shared
  | .idle => none
  | .opened payload =>
    let stored := (s.view w).visibleBars
    match refusedBars s.insCode stored payload with
    | some _ => some (s.discard w)
    | none => some (s.setPhase w
        (.inserting (Equities.pendingBars stored payload)
          ((restatedBars stored payload).map alternativeOf)))
  | .inserting (bar :: bars) rows =>
    s.insertRow w bar.checked (held s.pendingBars w (fun stored ↦ stored.sameDay bar))
      ((s.view w).visibleBars.any (fun stored ↦ stored.sameDay bar)) (.inserting bars rows)
      (s.addBar w bar)
  | .inserting [] (row :: rows) =>
    s.insertRow w row.checked (held s.pendingAlternatives w (fun stored ↦ stored = row))
      ((s.view w).visibleAlternatives.any (fun stored ↦ stored = row)) (.inserting [] rows)
      (s.addAlternative w row)
  | .inserting [] [] => some (s.setPhase w (.reread (s.view w).visibleBars))
  | .reread bars =>
    match derive bars (s.view w).visibleAlternatives with
    | none => some (s.discard w)
    | some d => some (s.setPhase w (.derived d))
  | .derived d =>
    match planActions s.insCode (s.view w).visibleActions d.series.actions with
    | .error _ => some (s.discard w)
    | .ok plan => some (s.setPhase w (.writing d plan.statements))
  | .writing d [] => some (s.setPhase w (.judging d s.verdict.isSome))
  | .writing d (.insert action :: rest) =>
    s.insertRow w action.checked
      (held s.pendingStatements w (fun other ↦ other.day = action.effectiveDate))
      (dayStored (s.view w).visibleActions action.effectiveDate) (.writing d rest)
      (s.addStatement w (.insert action))
  | .writing d (statement :: rest) =>
    some (s.setPhase w (.aiming d statement ((s.view w).aim statement.day) rest))
  | .aiming d statement aim rest => s.strike w statement aim (.writing d rest)
  | .judging d existing =>
    s.insertRow w true (held s.pendingVerdicts w (fun _ ↦ true)) (!existing && s.verdict.isSome)
      (.finished d) (s.addVerdict w d.series)
  | .finished _ => none

inductive Event
  | call (w : ℕ) (call : IngestCall)
  | statement (w : ℕ)
  | commit (w : ℕ)
  | abort (w : ℕ)

def Event.writer : Event → ℕ
  | .call w _ => w
  | .statement w => w
  | .commit w => w
  | .abort w => w

def next (s : Shared) : Event → Option Shared
  | .call w call =>
    match s.phase w, offeredSeries call with
    | .idle, none => some s
    | .idle, some series =>
      if series.insCode = s.insCode then some (s.setPhase w (.opened series.bars)) else none
    | _, _ => none
  | .statement w => s.statement w (s.phase w)
  | .commit w =>
    match s.phase w with
    | .finished _ => some (s.publish w)
    | _ => none
  | .abort w => some (s.discard w)

def Shared.staleActions (s : Shared) : ℕ :=
  (s.verdict.map (fun _ ↦ Equities.staleActions s.bars s.actions)).getD 0

def Shared.Quiet (s : Shared) : Prop := ∀ w, (s.phase w).isIdle = true

theorem dayStored_eq_false {actions : List CorporateAction} {day : Date} :
    dayStored actions day = false ↔ ∀ action ∈ actions, action.effectiveDate ≠ day := by
  simp [dayStored]

theorem apply_of_absent {statement : ActionStatement} (hinsert : ∀ a, statement ≠ .insert a)
    {table : List CorporateAction} (h : dayStored table statement.day = false) :
    statement.apply table = table := by
  rw [dayStored_eq_false] at h
  cases statement with
  | delete day =>
    apply List.filter_eq_self.mpr
    intro action haction
    exact decide_eq_true (h action haction)
  | update action =>
    rw [ActionStatement.apply, updateFactor]
    conv_rhs => rw [← List.map_id table]
    apply List.map_congr_left
    intro stored hstored
    rw [if_neg, id]
    exact fun hsame ↦ h stored hstored ((CorporateAction.sameDay_iff _ _).mp hsame)
  | insert action => exact absurd rfl (hinsert action)

theorem apply_of_conflict {action : CorporateAction} {table : List CorporateAction}
    (h : dayStored table action.effectiveDate = true) :
    (ActionStatement.insert action).apply table = table := if_pos h

theorem derive_reads {bars : List Bar} {rows : List AlternativeRow} {d : Derivation}
    (h : derive bars rows = some d) : d.bars = bars ∧ d.alternatives = rows := by
  unfold derive at h
  split at h
  · obtain rfl := Option.some.inj h
    exact ⟨rfl, rfl⟩
  · cases h

section Frame

variable {s t : Shared} {w : ℕ}

theorem insertRow_phase {checked waits conflict : Bool} {after : Phase} {inserted : Shared}
    (h : s.insertRow w checked waits conflict after inserted = some t)
    (hinserted : inserted.phase = s.phase) :
    ∃ phase, t.phase = Function.update s.phase w phase := by
  unfold Shared.insertRow at h
  split at h
  · exact ⟨_, congrArg Shared.phase (Option.some.inj h).symm⟩
  · split at h
    · cases h
    · split at h
      · exact ⟨_, congrArg Shared.phase (Option.some.inj h).symm⟩
      · obtain rfl := Option.some.inj h
        refine ⟨after, ?_⟩
        rw [← hinserted]
        rfl

theorem strike_phase {statement : ActionStatement} {aim : Option ℕ} {after : Phase}
    (h : s.strike w statement aim after = some t) :
    ∃ phase, t.phase = Function.update s.phase w phase := by
  unfold Shared.strike at h
  split at h
  · exact ⟨_, congrArg Shared.phase (Option.some.inj h).symm⟩
  · split at h
    · cases h
    · split at h
      · exact ⟨_, congrArg Shared.phase (Option.some.inj h).symm⟩
      · split at h
        · exact ⟨_, congrArg Shared.phase (Option.some.inj h).symm⟩
        · exact ⟨_, congrArg Shared.phase (Option.some.inj h).symm⟩

theorem statement_phase {phase : Phase} (h : s.statement w phase = some t) :
    ∃ after, t.phase = Function.update s.phase w after := by
  cases phase with
  | idle => cases h
  | opened payload =>
    simp only [Shared.statement] at h
    split at h <;> exact ⟨_, congrArg Shared.phase (Option.some.inj h).symm⟩
  | inserting bars rows =>
    cases bars with
    | cons bar bars => exact insertRow_phase h rfl
    | nil =>
      cases rows with
      | cons row rows => exact insertRow_phase h rfl
      | nil => exact ⟨_, congrArg Shared.phase (Option.some.inj h).symm⟩
  | reread bars =>
    simp only [Shared.statement] at h
    split at h <;> exact ⟨_, congrArg Shared.phase (Option.some.inj h).symm⟩
  | derived d =>
    simp only [Shared.statement] at h
    split at h <;> exact ⟨_, congrArg Shared.phase (Option.some.inj h).symm⟩
  | writing d rest =>
    cases rest with
    | nil => exact ⟨_, congrArg Shared.phase (Option.some.inj h).symm⟩
    | cons statement rest =>
      cases statement with
      | insert action => exact insertRow_phase h rfl
      | delete day => exact ⟨_, congrArg Shared.phase (Option.some.inj h).symm⟩
      | update action => exact ⟨_, congrArg Shared.phase (Option.some.inj h).symm⟩
  | aiming d statement aim rest => exact strike_phase h
  | judging d existing => exact insertRow_phase h rfl
  | finished d => cases h

theorem next_phase_other {event : Event} (h : next s event = some t) (hw : w ≠ event.writer) :
    t.phase w = s.phase w := by
  cases event with
  | call v call =>
    simp only [next] at h
    split at h
    · rw [Option.some.inj h]
    · split at h
      · rw [← Option.some.inj h]
        exact Function.update_of_ne hw _ _
      · cases h
    · cases h
  | statement v =>
    obtain ⟨after, hafter⟩ := statement_phase h
    rw [hafter]
    exact Function.update_of_ne hw _ _
  | commit v =>
    simp only [next] at h
    split at h
    · rw [← Option.some.inj h]
      exact Function.update_of_ne hw _ _
    · cases h
  | abort v =>
    rw [← Option.some.inj h]
    exact Function.update_of_ne hw _ _

theorem run_phase_other {ok : Shared → Event → Prop} {events : List Event}
    (hrun : Run next ok s events t) (hw : ∀ event ∈ events, w ≠ event.writer) :
    t.phase w = s.phase w := by
  induction hrun with
  | nil => rfl
  | cons _ hstep _ ih =>
    rw [ih (fun event hevent ↦ hw event (List.mem_cons_of_mem _ hevent)),
      next_phase_other hstep (hw _ List.mem_cons_self)]

end Frame

end TalaPala.Equities
