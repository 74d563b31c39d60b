import TalaPala.Clock
import TalaPala.News.Urls
import TalaPala.Library.Transition

namespace TalaPala.News

open Library.Transition

inductive AttemptOutcome
  | ok
  | error
  | throttled
  | skipped
  | empty
  deriving DecidableEq

def AttemptOutcome.succeeded : AttemptOutcome → Bool
  | .ok | .empty => true
  | _ => false

structure SourceHealth where
  lastPolledAt : Option Instant
  lastSuccessAt : Option Instant
  lastErrorAt : Option Instant
  lastError : Option Text
  consecutiveFailures : ℕ

/-- What an operator sets for a source, in its own row and in its policy row. -/
structure SourceTerms where
  enabled : Bool
  policyStatus : Text
  approvalState : Text
  minIntervalSeconds : ℤ
  policyMinIntervalSeconds : ℤ

def approved : Text := "approved".toList

def SourceTerms.effectiveMinIntervalSeconds (terms : SourceTerms) : ℤ :=
  max terms.minIntervalSeconds terms.policyMinIntervalSeconds

section Circuit

def circuitTripFailures : ℕ := 5

def circuitBaseCooldownS : ℕ := 300

def circuitMaxCooldownS : ℕ := 6 * 3600

def cooldownSeconds (consecutiveFailures : ℕ) : ℕ :=
  min (circuitBaseCooldownS * 2 ^ (consecutiveFailures - circuitTripFailures)) circuitMaxCooldownS

/-- Why a source is not polled. -/
inductive PollRefusal
  | approvalState (state : Text)
  | disabled
  | failures (count : ℕ)
  | coolingDown (count cooldown : ℕ)
  | polledAgo (age interval : ℤ)
  | collectionDisabled
  | sourceDisabled
  | policyNotApproved
  | tooSoon

structure CircuitState where
  refusal : Option PollRefusal
  retryAt : Option Instant

def CircuitState.isOpen (state : CircuitState) : Bool := state.refusal.isSome

def seconds (n : ℤ) : ℤ := n * 1000000

def circuitState (terms : SourceTerms) (health : SourceHealth) (now : Instant) : CircuitState :=
  if terms.approvalState ≠ approved then ⟨some (.approvalState terms.approvalState), none⟩
  else if !terms.enabled then ⟨some .disabled, none⟩
  else if health.consecutiveFailures < circuitTripFailures then ⟨none, none⟩
  else
    match health.lastErrorAt.orElse (fun _ ↦ health.lastPolledAt) with
    | none => ⟨some (.failures health.consecutiveFailures), none⟩
    | some lastError =>
      let cooldown := cooldownSeconds health.consecutiveFailures
      let retryAt := lastError + seconds cooldown
      if now < retryAt then
        ⟨some (.coolingDown health.consecutiveFailures cooldown), some retryAt⟩
      else ⟨none, some retryAt⟩

def waits (lastPolledAt : Option Instant) (interval : ℤ) (now : Instant) : Bool :=
  lastPolledAt.any (fun last ↦ 0 < interval && now < last + seconds interval)

/-- `should_attempt`; `none` where the source may be polled. -/
def shouldAttempt (terms : SourceTerms) (health : SourceHealth) (now : Instant) :
    Option PollRefusal :=
  match (circuitState terms health now).refusal with
  | some refusal => some refusal
  | none =>
    let interval := terms.effectiveMinIntervalSeconds
    if waits health.lastPolledAt interval now then
      some (.polledAgo ((now - health.lastPolledAt.getD now).tdiv 1000000) interval)
    else none

def pollGate (collectionEnabled : Bool) (terms : SourceTerms) (health : SourceHealth)
    (now : Instant) : Option PollRefusal :=
  if !collectionEnabled then some .collectionDisabled
  else if !terms.enabled then some .sourceDisabled
  else if terms.policyStatus ≠ approved then some .policyNotApproved
  else if waits health.lastPolledAt terms.minIntervalSeconds now then some .tooSoon
  else none

end Circuit

section Writers

def SourceHealth.markSuccess (health : SourceHealth) (now : Instant) : SourceHealth :=
  { health with
    lastPolledAt := some now
    lastSuccessAt := some now
    consecutiveFailures := 0
    lastError := none }

def SourceHealth.markFailure (health : SourceHealth) (now : Instant) (error : Text)
    (failures : ℕ) : SourceHealth :=
  { health with
    lastPolledAt := some now
    lastErrorAt := some now
    lastError := some error
    consecutiveFailures := failures }

/-- The registry's `record_attempt`, which switches on the outcome. -/
def SourceHealth.recordAttempt (health : SourceHealth) (outcome : AttemptOutcome) (now : Instant)
    (error : Text) : SourceHealth :=
  if outcome.succeeded then health.markSuccess now
  else if outcome = .error then health.markFailure now error (health.consecutiveFailures + 1)
  else { health with lastPolledAt := some now }

/-- What a collector writes in one transaction: the attempt that it records, and the
argument `ok` of its `mark_polled`. -/
structure CollectorWrite where
  attempt : Option AttemptOutcome
  ok : Option Bool

/-- `record_failure`; the outcome is `error`, or `empty` for a list without entries. -/
def recordFailure (outcome : AttemptOutcome) : CollectorWrite := ⟨some outcome, some false⟩

def fedFinish (empty : Bool) : CollectorWrite := ⟨some (if empty then .empty else .ok), some !empty⟩

def ofacFinishOk : CollectorWrite := ⟨some .ok, some true⟩

def gdeltQuery (outcome : AttemptOutcome) : CollectorWrite := ⟨some outcome, none⟩

def gdeltFinish (ok : Bool) : CollectorWrite := ⟨none, some ok⟩

def gdeltPass : (queriesRun queriesFailed : ℕ) → List AttemptOutcome → List CollectorWrite
  | queriesRun, queriesFailed, [] => [gdeltFinish (!(queriesRun ≤ queriesFailed))]
  | queriesRun, queriesFailed, outcome :: rest =>
    gdeltQuery outcome ::
      if outcome = .throttled then [gdeltFinish false]
      else gdeltPass (queriesRun + 1) (if outcome.succeeded then queriesFailed
        else queriesFailed + 1) rest

end Writers

section Runs

/-- One source's row, the outcomes of its attempts, newest first, the counters that open
transactions have read, and the rows that open passes have loaded. -/
structure HealthState where
  row : SourceHealth
  attempts : List AttemptOutcome
  selected : ℕ → Option ℕ
  loaded : ℕ → Option SourceHealth

inductive HealthEvent
  | records (outcome : AttemptOutcome) (now : Instant) (error : Text)
  | selects (tx : ℕ)
  | commits (tx : ℕ) (write : CollectorWrite) (now : Instant) (error : Text)
  | loads (pass : ℕ)
  | polls (pass : ℕ) (collectionEnabled : Bool) (now gateNow : Instant)

variable (terms : SourceTerms)

/-- `mark_polled`, on the counter that it has read before. -/
def markPolled (row : SourceHealth) (selected : Option ℕ) (ok : Bool) (now : Instant)
    (error : Text) : Option SourceHealth :=
  if ok then some (row.markSuccess now)
  else selected.map (fun current ↦ row.markFailure now error (current + 1))

def HealthState.commit (s : HealthState) (tx : ℕ) (write : CollectorWrite) (now : Instant)
    (error : Text) : Option HealthState :=
  let row := match write.ok with
    | none => some s.row
    | some ok => markPolled s.row (s.selected tx) ok now error
  row.map (fun row ↦
    { s with
      row := row
      attempts := write.attempt.toList ++ s.attempts
      selected := Function.update s.selected tx none })

def nextHealth (s : HealthState) : HealthEvent → Option HealthState
  | .records outcome now error => some { s with
      row := s.row.recordAttempt outcome now error
      attempts := outcome :: s.attempts }
  | .selects tx => some { s with
      selected := Function.update s.selected tx (some s.row.consecutiveFailures) }
  | .commits tx write now error => s.commit tx write now error
  | .loads pass =>
    if terms.approvalState = approved ∧ terms.enabled then
      some { s with loaded := Function.update s.loaded pass (some s.row) }
    else none
  | .polls pass collectionEnabled now gateNow =>
    (s.loaded pass).bind (fun health ↦
      if shouldAttempt terms health now = none ∧
          pollGate collectionEnabled terms s.row gateNow = none then some s
      else none)

def errorsSince : List AttemptOutcome → ℕ
  | [] => 0
  | outcome :: rest =>
    if outcome.succeeded then 0
    else if outcome = .error then errorsSince rest + 1
    else errorsSince rest

def Counts (s : HealthState) : Prop := s.row.consecutiveFailures = errorsSince s.attempts

def CollectorWrite.Agrees (write : CollectorWrite) (counter : ℕ) (selected : Option ℕ) : Prop :=
  match write.attempt, write.ok with
  | some .error, some false => selected = some counter
  | some .error, _ => False
  | some .ok, some false | some .empty, some false => False
  | some .ok, some true | some .empty, some true => True
  | some .ok, none | some .empty, none => counter = 0
  | _, some true => counter = 0
  | _, some false => selected.any (fun current ↦ current + 1 = counter)
  | _, none => True

def Meets (s : HealthState) : HealthEvent → Prop
  | .commits tx write _ _ => write.Agrees s.row.consecutiveFailures (s.selected tx)
  | _ => True

def Fresh (s : HealthState) : HealthEvent → Prop
  | .polls pass _ now gateNow =>
    terms.policyMinIntervalSeconds ≤ terms.minIntervalSeconds ∨
      now ≤ gateNow ∧ (s.loaded pass).any (fun health ↦ health.lastPolledAt = s.row.lastPolledAt)
  | _ => True

def Interspaced (s : HealthState) : HealthEvent → Prop
  | .polls _ _ _ gateNow => ∀ last, s.row.lastPolledAt = some last →
    ∀ interval ∈ [terms.minIntervalSeconds, terms.policyMinIntervalSeconds],
      0 < interval → last + seconds interval ≤ gateNow
  | _ => True

variable {terms} {s t : HealthState}

theorem counts_recordAttempt (hs : Counts s) (outcome : AttemptOutcome) (now : Instant)
    (error : Text) : (s.row.recordAttempt outcome now error).consecutiveFailures =
      errorsSince (outcome :: s.attempts) := by
  rw [Counts] at hs
  cases outcome with
  | ok | empty => rfl
  | error => exact congrArg (· + 1) hs
  | throttled | skipped => exact hs

theorem counts_commit {tx : ℕ} {write : CollectorWrite} {now : Instant} {error : Text}
    (hs : Counts s) (h : s.commit tx write now error = some t) :
    Counts t ↔ write.Agrees s.row.consecutiveFailures (s.selected tx) := by
  obtain ⟨row, hrow, rfl⟩ := Option.map_eq_some_iff.mp h
  obtain ⟨attempt, ok⟩ := write
  rw [Counts] at hs ⊢
  dsimp only at hrow ⊢
  cases ok with
  | none =>
    obtain rfl := Option.some.inj hrow
    cases attempt with
    | none => exact iff_of_true hs trivial
    | some outcome =>
      cases outcome <;> simp [errorsSince, AttemptOutcome.succeeded, CollectorWrite.Agrees, hs]
  | some ok =>
    cases ok with
    | true =>
      obtain rfl := Option.some.inj hrow
      cases attempt with
      | none => simp [SourceHealth.markSuccess, CollectorWrite.Agrees, hs, eq_comm]
      | some outcome =>
        cases outcome <;> simp [SourceHealth.markSuccess, errorsSince, AttemptOutcome.succeeded,
          CollectorWrite.Agrees, hs, eq_comm]
    | false =>
      obtain ⟨current, hselected, rfl⟩ := Option.map_eq_some_iff.mp hrow
      cases attempt with
      | none => simp [SourceHealth.markFailure, CollectorWrite.Agrees, hselected, hs]
      | some outcome =>
        cases outcome <;> simp [SourceHealth.markFailure, errorsSince, AttemptOutcome.succeeded,
          CollectorWrite.Agrees, hselected, hs]

theorem counts_nextHealth {e : HealthEvent} (hs : Counts s) (h : nextHealth terms s e = some t) :
    Counts t ↔ Meets s e := by
  cases e with
  | records outcome now error =>
    obtain rfl := Option.some.inj h
    exact iff_of_true (counts_recordAttempt hs outcome now error) trivial
  | selects tx =>
    obtain rfl := Option.some.inj h
    exact iff_of_true hs trivial
  | commits tx write now error => exact counts_commit hs h
  | loads pass =>
    rw [nextHealth] at h
    split_ifs at h
    obtain rfl := Option.some.inj h
    exact iff_of_true hs trivial
  | polls pass collectionEnabled now gateNow =>
    obtain ⟨health, -, hpoll⟩ := Option.bind_eq_some_iff.mp h
    split_ifs at hpoll
    obtain rfl := Option.some.inj hpoll
    exact iff_of_true hs trivial

theorem le_of_not_waits {lastPolledAt : Option Instant} {interval : ℤ} {now last : Instant}
    (h : waits lastPolledAt interval now = false) (hlast : lastPolledAt = some last)
    (hpos : 0 < interval) : last + seconds interval ≤ now := by
  rw [waits, hlast, Option.any_some] at h
  simpa [hpos] using h

theorem shouldAttempt_eq_none {health : SourceHealth} {now : Instant}
    (h : shouldAttempt terms health now = none) :
    waits health.lastPolledAt terms.effectiveMinIntervalSeconds now = false := by
  rw [shouldAttempt] at h
  split at h
  · cases h
  · dsimp only at h
    split_ifs at h with hwaits
    exact Bool.eq_false_of_not_eq_true hwaits

theorem pollGate_eq_none {collectionEnabled : Bool} {health : SourceHealth} {now : Instant}
    (h : pollGate collectionEnabled terms health now = none) :
    waits health.lastPolledAt terms.minIntervalSeconds now = false := by
  rw [pollGate] at h
  split_ifs at h with _ _ _ hwaits
  exact Bool.eq_false_of_not_eq_true hwaits

theorem seconds_mono {m n : ℤ} (h : m ≤ n) : seconds m ≤ seconds n := by
  rw [seconds, seconds]
  omega

theorem interspaced_of_fresh {e : HealthEvent} (hfresh : Fresh terms s e)
    (h : nextHealth terms s e = some t) : Interspaced terms s e := by
  cases e with
  | polls pass collectionEnabled now gateNow =>
    obtain ⟨health, hloaded, hpoll⟩ := Option.bind_eq_some_iff.mp h
    split_ifs at hpoll with hgates
    intro last hlast interval hmem hpos
    have hwithin {n : ℤ} {stop : Instant} (hle : interval ≤ n) (huntil : stop ≤ gateNow)
        (hpassed : last + seconds n ≤ stop) : last + seconds interval ≤ gateNow :=
      ((add_le_add_right (seconds_mono hle) last).trans hpassed).trans huntil
    have hmax : interval ≤ terms.effectiveMinIntervalSeconds := by
      simp only [List.mem_cons, List.not_mem_nil, or_false] at hmem
      rcases hmem with rfl | rfl
      · exact le_max_left _ _
      · exact le_max_right _ _
    rcases hfresh with hle | ⟨hclock, hmarker⟩
    · have hown : interval ≤ terms.minIntervalSeconds := hmax.trans (max_le le_rfl hle)
      exact hwithin hown le_rfl
        (le_of_not_waits (pollGate_eq_none hgates.2) hlast (hpos.trans_le hown))
    · rw [hloaded, Option.any_some, decide_eq_true_eq] at hmarker
      exact hwithin hmax hclock
        (le_of_not_waits (shouldAttempt_eq_none hgates.1) (hmarker.trans hlast)
          (hpos.trans_le hmax))
  | _ => trivial

theorem errorsSince_of_open {now : Instant} (hs : Counts s) (happroved : terms.approvalState = approved)
    (henabled : terms.enabled) (h : (circuitState terms s.row now).isOpen) :
    circuitTripFailures ≤ errorsSince s.attempts := by
  by_contra hfew
  rw [← hs, not_le] at hfew
  simp [circuitState, happroved, henabled, hfew, CircuitState.isOpen] at h

end Runs

section Throttled

def everyQuarter : SourceTerms := ⟨true, approved, approved, 900, 900⟩

def unpolled : HealthState where
  row := ⟨none, none, none, none, 0⟩
  attempts := []
  selected _ := none
  loaded _ := none

def failedPass : List HealthEvent :=
  [.loads 0, .polls 0 true 0 0, .selects 0, .commits 0 (recordFailure .error) (seconds 1) []]

theorem run_failedPass : ∃ t, Run (nextHealth everyQuarter) Meets unpolled failedPass t := by
  refine ⟨_, .cons trivial rfl (.cons trivial rfl (.cons trivial rfl (.cons ?_ rfl (.nil _))))⟩
  exact (rfl : some 0 = some 0)

def CollectorWrite.events (write : CollectorWrite) (now : Instant) : List HealthEvent :=
  (if write.ok = some false then [.selects 0] else []) ++ [.commits 0 write now []]

def throttledPass (now : Instant) : List HealthEvent :=
  (gdeltPass 0 0 [.throttled]).flatMap (fun write ↦ write.events now)

def throttledPasses : List HealthEvent :=
  (List.range 5).flatMap (fun i ↦ throttledPass (seconds (900 * i)))

end Throttled

end TalaPala.News
