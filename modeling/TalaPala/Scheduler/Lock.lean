import TalaPala.Library.Transition

namespace TalaPala.Scheduler

open Library Transition

/-- What stands under the key of a job. Redis keeps the value and the expiry;
`setBy` is the run whose SET wrote them. -/
structure Lock (ι : Type*) where
  instanceID : ι
  expiresAt : ℕ
  setBy : ℕ

/-- How far one firing has come in `runWithLock`. -/
inductive Phase
  | fired
  | executing (lockedUntil : ℕ)
  | releasing (lockedUntil : ℕ)
  | finished

structure State (ι : Type*) where
  now : ℕ
  lock : Option (Lock ι)
  phase : ℕ → Phase

def State.start (ι : Type*) : State ι where
  now := 0
  lock := none
  phase := fun _ ↦ .fired

def State.live {ι : Type*} (s : State ι) : Option (Lock ι) :=
  s.lock.filter (fun lock ↦ s.now < lock.expiresAt)

def State.setPhase {ι : Type*} (s : State ι) (run : ℕ) (phase : Phase) : State ι :=
  { s with phase := Function.update s.phase run phase }

/-- A command can fail before the store sees it, and the answer to a SET can be
lost: both are the error that `runWithLock` notes as a missed run. -/
inductive Event
  | elapse (duration : ℕ)
  | setNX (run : ℕ) (answered : Bool)
  | setFails (run : ℕ)
  | returns (run : ℕ)
  | release (run : ℕ)
  | releaseFails (run : ℕ)

section Steps

variable {ι : Type*} [DecidableEq ι] (instanceOf : ℕ → ι) (timeout : ℕ)

/-- SET NX PX by `run`, which executes the job only on an OK that it receives. -/
def setNX (s : State ι) (run : ℕ) (answered : Bool) : State ι :=
  match s.live with
  | some _ => s.setPhase run .finished
  | none =>
    let lock : Lock ι := ⟨instanceOf run, s.now + timeout, run⟩
    { s with lock := some lock }.setPhase run
      (if answered then .executing lock.expiresAt else .finished)

def releaseScript (s : State ι) (instanceID : ι) : State ι :=
  if s.live.any (fun lock ↦ lock.instanceID = instanceID) then { s with lock := none } else s

def next (s : State ι) : Event → Option (State ι)
  | .elapse duration => some { s with now := s.now + duration }
  | .setNX run answered =>
    match s.phase run with
    | .fired => some (setNX instanceOf timeout s run answered)
    | _ => none
  | .setFails run =>
    match s.phase run with
    | .fired => some (s.setPhase run .finished)
    | _ => none
  | .returns run =>
    match s.phase run with
    | .executing lockedUntil => some (s.setPhase run (.releasing lockedUntil))
    | _ => none
  | .release run =>
    match s.phase run with
    | .releasing _ => some ((releaseScript s (instanceOf run)).setPhase run .finished)
    | _ => none
  | .releaseFails run =>
    match s.phase run with
    | .releasing _ => some (s.setPhase run .finished)
    | _ => none

end Steps

def Phase.lockedUntil : Phase → Option ℕ
  | .executing lockedUntil => some lockedUntil
  | .releasing lockedUntil => some lockedUntil
  | _ => none

section Frame

variable {ι : Type*} {s : State ι}

@[simp] theorem setPhase_phase_self (run : ℕ) (phase : Phase) :
    (s.setPhase run phase).phase run = phase := Function.update_self _ _ _

theorem setPhase_phase_other {run other : ℕ} (h : other ≠ run) (phase : Phase) :
    (s.setPhase run phase).phase other = s.phase other := Function.update_of_ne h _ _

@[simp] theorem setPhase_live (run : ℕ) (phase : Phase) :
    (s.setPhase run phase).live = s.live := rfl

theorem live_eq_some {lock : Lock ι} :
    s.live = some lock ↔ s.lock = some lock ∧ s.now < lock.expiresAt := by
  rw [State.live, Option.filter_eq_some_iff, decide_eq_true_eq]

def State.Running (s : State ι) (run : ℕ) : Prop :=
  ∃ lockedUntil, s.phase run = .executing lockedUntil ∧ s.now < lockedUntil

def Timely (instanceOf : ℕ → ι) (s : State ι) (event : Event) : Prop :=
  ∀ run lockedUntil lock, event = .release run → s.phase run = .releasing lockedUntil →
    s.live = some lock → lock.instanceID = instanceOf run → s.now < lockedUntil

structure State.Consistent (instanceOf : ℕ → ι) (s : State ι) : Prop where
  owner : ∀ lock, s.lock = some lock → lock.instanceID = instanceOf lock.setBy
  expiry : ∀ lock lockedUntil, s.lock = some lock →
    (s.phase lock.setBy).lockedUntil = some lockedUntil → lock.expiresAt = lockedUntil

def State.Held (s : State ι) : Prop :=
  ∀ run lockedUntil, (s.phase run).lockedUntil = some lockedUntil → s.now < lockedUntil →
    ∃ lock, s.lock = some lock ∧ lock.setBy = run

theorem State.Held.unique (h : s.Held) {run run' : ℕ} (hrun : s.Running run)
    (hrun' : s.Running run') : run = run' := by
  obtain ⟨lockedUntil, hphase, hnow⟩ := hrun
  obtain ⟨lockedUntil', hphase', hnow'⟩ := hrun'
  obtain ⟨lock, hlock, hset⟩ := h run lockedUntil (by rw [hphase]; rfl) hnow
  obtain ⟨lock', hlock', hset'⟩ := h run' lockedUntil' (by rw [hphase']; rfl) hnow'
  rw [hlock, Option.some.injEq] at hlock'
  rw [← hset, ← hset', hlock']

theorem State.Held.live (h : s.Held) {instanceOf : ℕ → ι}
    (hconsistent : s.Consistent instanceOf) {run lockedUntil : ℕ}
    (hphase : (s.phase run).lockedUntil = some lockedUntil) (hnow : s.now < lockedUntil) :
    ∃ lock, s.live = some lock ∧ lock.setBy = run := by
  obtain ⟨lock, hlock, hset⟩ := h run lockedUntil hphase hnow
  have hexpires := hconsistent.expiry lock lockedUntil hlock (hset.symm ▸ hphase)
  exact ⟨lock, live_eq_some.mpr ⟨hlock, hexpires.symm ▸ hnow⟩, hset⟩

theorem consistent_start (instanceOf : ℕ → ι) : (State.start ι).Consistent instanceOf := by
  constructor
  · intro lock hlock
    cases hlock
  · intro lock until' hlock
    cases hlock

theorem held_start : (State.start ι).Held := by
  intro run lockedUntil hphase
  cases hphase

end Frame

section Runs

variable {ι : Type*} [DecidableEq ι] {instanceOf : ℕ → ι} {timeout : ℕ} {s t : State ι}

variable (instanceOf timeout) in
def FreesOwn (s : State ι) (event : Event) : Prop :=
  ∀ run t lock, event = .release run → next instanceOf timeout s event = some t →
    s.live = some lock → t.live = none → lock.setBy = run

theorem release_cases {run : ℕ} (h : next instanceOf timeout s (.release run) = some t) :
    ∃ lockedUntil, s.phase run = .releasing lockedUntil ∧
      ((∃ lock, s.live = some lock ∧ lock.instanceID = instanceOf run ∧
          t = { s with lock := none }.setPhase run .finished) ∨
        t = s.setPhase run .finished) := by
  simp only [next] at h
  split at h
  · rename_i lockedUntil hphase
    refine ⟨lockedUntil, hphase, ?_⟩
    rw [← Option.some.inj h, releaseScript]
    split
    · rename_i howned
      obtain ⟨lock, hlive, howner⟩ := (Option.any_eq_true _ _).mp howned
      exact .inl ⟨lock, hlive, of_decide_eq_true howner, rfl⟩
    · exact .inr rfl
  · cases h

theorem next_cases {event : Event} (h : next instanceOf timeout s event = some t) :
    (∃ duration, t = { s with now := s.now + duration }) ∨
    (∃ run phase, (phase.lockedUntil = none ∨ phase.lockedUntil = (s.phase run).lockedUntil) ∧
      t = s.setPhase run phase) ∨
    (∃ run phase, s.live = none ∧
      (phase.lockedUntil = none ∨ phase.lockedUntil = some (s.now + timeout)) ∧
      t = { s with lock := some ⟨instanceOf run, s.now + timeout, run⟩ }.setPhase run phase) ∨
    ∃ run lockedUntil lock, event = .release run ∧ s.phase run = .releasing lockedUntil ∧
      s.live = some lock ∧ lock.instanceID = instanceOf run ∧
      t = { s with lock := none }.setPhase run .finished := by
  cases event with
  | elapse duration => exact .inl ⟨duration, (Option.some.inj h).symm⟩
  | setNX run answered =>
    simp only [next] at h
    split at h
    · rw [← Option.some.inj h, setNX]
      cases hlive : s.live with
      | some lock => exact .inr (.inl ⟨run, .finished, .inl rfl, rfl⟩)
      | none =>
        refine .inr (.inr (.inl ⟨run, _, rfl, ?_, rfl⟩))
        cases answered with
        | false => exact .inl rfl
        | true => exact .inr rfl
    · cases h
  | setFails run =>
    simp only [next] at h
    split at h
    · exact .inr (.inl ⟨run, .finished, .inl rfl, (Option.some.inj h).symm⟩)
    · cases h
  | returns run =>
    simp only [next] at h
    split at h
    · rename_i lockedUntil hphase
      refine .inr (.inl ⟨run, .releasing lockedUntil, .inr ?_, (Option.some.inj h).symm⟩)
      rw [hphase]
      rfl
    · cases h
  | release run =>
    obtain ⟨lockedUntil, hphase, hdropped | hkept⟩ := release_cases h
    · obtain ⟨lock, hlive, howner, ht⟩ := hdropped
      exact .inr (.inr (.inr ⟨run, lockedUntil, lock, rfl, hphase, hlive, howner, ht⟩))
    · exact .inr (.inl ⟨run, .finished, .inl rfl, hkept⟩)
  | releaseFails run =>
    simp only [next] at h
    split at h
    · exact .inr (.inl ⟨run, .finished, .inl rfl, (Option.some.inj h).symm⟩)
    · cases h

theorem State.Consistent.step (h : s.Consistent instanceOf) {event : Event}
    (hstep : next instanceOf timeout s event = some t) : t.Consistent instanceOf := by
  obtain ⟨duration, rfl⟩ | ⟨run, phase, hphase, rfl⟩ | ⟨run, phase, _, hphase, rfl⟩ |
    ⟨run, lockedUntil, lock, _, _, _, _, rfl⟩ := next_cases hstep
  · exact ⟨h.owner, h.expiry⟩
  · refine ⟨h.owner, fun lock until' hlock huntil ↦ ?_⟩
    by_cases hrun : lock.setBy = run
    · rw [hrun, setPhase_phase_self] at huntil
      cases hphase with
      | inl hnone => rw [hnone] at huntil; cases huntil
      | inr hsame => exact h.expiry lock until' hlock (by rw [hrun, ← hsame, huntil])
    · rw [setPhase_phase_other hrun] at huntil
      exact h.expiry lock until' hlock huntil
  · constructor
    · intro lock hlock
      obtain rfl := Option.some.inj hlock
      rfl
    · intro lock until' hlock huntil
      obtain rfl := Option.some.inj hlock
      rw [setPhase_phase_self] at huntil
      cases hphase with
      | inl hnone => rw [hnone] at huntil; cases huntil
      | inr hsame => exact Option.some.inj (hsame.symm.trans huntil)
  · constructor
    · intro lock hlock
      cases hlock
    · intro lock until' hlock
      cases hlock

theorem State.Held.step (h : s.Held) (hconsistent : s.Consistent instanceOf) {event : Event}
    (hok : Timely instanceOf s event) (hstep : next instanceOf timeout s event = some t) :
    t.Held := by
  intro other until' huntil hnow
  obtain ⟨duration, rfl⟩ | ⟨run, phase, hphase, rfl⟩ | ⟨run, phase, hfree, hphase, rfl⟩ |
    ⟨run, lockedUntil, lock, hevent, hphase, hlive, howner, rfl⟩ := next_cases hstep
  · exact h other until' huntil (Nat.lt_of_le_of_lt (Nat.le_add_right _ _) hnow)
  · by_cases hrun : other = run
    · subst hrun
      rw [setPhase_phase_self] at huntil
      cases hphase with
      | inl hnone => rw [hnone] at huntil; cases huntil
      | inr hsame => exact h other until' (hsame.symm.trans huntil) hnow
    · rw [setPhase_phase_other hrun] at huntil
      exact h other until' huntil hnow
  · by_cases hrun : other = run
    · exact ⟨_, rfl, hrun.symm⟩
    · rw [setPhase_phase_other hrun] at huntil
      obtain ⟨lock, hlive, _⟩ := h.live hconsistent huntil hnow
      rw [hfree] at hlive
      cases hlive
  · by_cases hrun : other = run
    · subst hrun
      rw [setPhase_phase_self] at huntil
      cases huntil
    · rw [setPhase_phase_other hrun] at huntil
      have hown := hok run lockedUntil lock hevent hphase hlive howner
      obtain ⟨first, hfirst, hset⟩ := h run lockedUntil (by rw [hphase]; rfl) hown
      obtain ⟨second, hsecond, hset'⟩ := h other until' huntil hnow
      obtain rfl := Option.some.inj (hfirst.symm.trans hsecond)
      exact absurd (hset'.symm.trans hset) hrun

theorem State.Consistent.timely (h : s.Consistent instanceOf) {event : Event}
    (hok : FreesOwn instanceOf timeout s event) : Timely instanceOf s event := by
  intro run lockedUntil lock hevent hphase hlive howner
  obtain ⟨hlock, hnow⟩ := live_eq_some.mp hlive
  have hstep : next instanceOf timeout s event =
      some ({ s with lock := none }.setPhase run .finished) := by
    rw [hevent, next]
    simp only [hphase]
    rw [releaseScript, hlive, Option.any_some, decide_eq_true howner, if_pos rfl]
  have hset : lock.setBy = run := hok run _ lock hevent hstep hlive rfl
  rwa [← h.expiry lock lockedUntil hlock (by rw [hset, hphase]; rfl)]

theorem State.Held.freesOwn (h : s.Held) {event : Event} (hok : Timely instanceOf s event) :
    FreesOwn instanceOf timeout s event := by
  intro run t lock hevent hstep hlive hgone
  subst hevent
  obtain ⟨lockedUntil, hphase, hdropped | hkept⟩ := release_cases hstep
  · obtain ⟨lock', hlive', howner, _⟩ := hdropped
    have hown := hok run lockedUntil lock' rfl hphase hlive' howner
    obtain ⟨own, hlock, hset⟩ := h run lockedUntil (by rw [hphase]; rfl) hown
    obtain rfl := Option.some.inj (hlock.symm.trans (live_eq_some.mp hlive).1)
    exact hset
  · rw [hkept, setPhase_live, hlive] at hgone
    cases hgone

/-- Every release of a run frees its own lock alone exactly when every one is in time, and
then no two runs execute under locks that have not run out. -/
theorem lock_freed_by_its_run (instanceOf : ℕ → ι) (timeout : ℕ) (events : List Event)
    (s : State ι) :
    (Run (next instanceOf timeout) (FreesOwn instanceOf timeout) (State.start ι) events s ↔
      Run (next instanceOf timeout) (Timely instanceOf) (State.start ι) events s) ∧
    (Run (next instanceOf timeout) (Timely instanceOf) (State.start ι) events s →
      ∀ run run', s.Running run → s.Running run' → run = run') := by
  have hinv {s t : State ι} {event : Event} (h : s.Consistent instanceOf ∧ s.Held)
      (hok : Timely instanceOf s event) (hstep : next instanceOf timeout s event = some t) :
      t.Consistent instanceOf ∧ t.Held := ⟨h.1.step hstep, h.2.step h.1 hok hstep⟩
  have hstart := And.intro (consistent_start instanceOf) (held_start (ι := ι))
  refine ⟨⟨fun hrun ↦ ?_, fun hrun ↦ ?_⟩, fun hrun run run' ↦ ?_⟩
  · exact hrun.refine (fun _ _ _ h hok hstep ↦ ⟨h.timely hok, h.step hstep⟩) hstart.1
  · exact hrun.refine (fun _ _ _ h hok hstep ↦ ⟨h.2.freesOwn hok, hinv h hok hstep⟩) hstart
  · exact (hrun.preserves (fun _ _ _ h hok hstep ↦ hinv h hok hstep) hstart).2.unique

def overrun : List Event :=
  [.setNX 0 true, .elapse 10, .setNX 1 true, .returns 0, .release 0, .setNX 2 true]

theorem late_release_frees_other :
    (¬ ∀ (instanceOf : ℕ → Bool) (timeout : ℕ) (s : State Bool) (event : Event),
      Reachable (next instanceOf timeout) (State.start Bool) s →
        FreesOwn instanceOf timeout s event) ∧
    ¬ ∀ (instanceOf : ℕ → Bool) (timeout : ℕ) (s : State Bool) (run run' : ℕ),
      Reachable (next instanceOf timeout) (State.start Bool) s →
        s.Running run → s.Running run' → run = run' := by
  have hreach (events : List Event) (s : State Bool)
      (h : execute (next (fun run ↦ decide (run = 2)) 10) (fun _ _ ↦ true) (State.start Bool)
        events = some s) :
      Reachable (next (fun run ↦ decide (run = 2)) 10) (State.start Bool) s :=
    (run_of_execute h).reachable
  constructor
  · intro hall
    have hset := hall _ _ _ (.release 0) (hreach (overrun.take 4) _ rfl) 0 _ _ rfl rfl rfl rfl
    cases hset
  · intro hall
    have hrun := hall _ _ _ 1 2 (hreach overrun _ rfl) ⟨20, rfl, by decide⟩ ⟨20, rfl, by decide⟩
    cases hrun

theorem expiresAt_le (h : Reachable (next instanceOf timeout) (State.start ι) s) :
    ∀ lock ∈ s.lock, lock.expiresAt ≤ s.now + timeout := by
  refine h.invariant (I := fun s ↦ ∀ lock ∈ s.lock, lock.expiresAt ≤ s.now + timeout)
    (fun _ hlock ↦ by cases hlock) (fun s event t hs hstep lock hlock ↦ ?_)
  obtain ⟨duration, rfl⟩ | ⟨_, _, -, rfl⟩ | ⟨_, _, -, -, rfl⟩ | ⟨_, _, _, -, -, -, -, rfl⟩ :=
    next_cases hstep
  · have := hs lock hlock
    dsimp only
    omega
  · exact hs lock hlock
  · obtain rfl := Option.some.inj hlock
    exact Nat.le_refl _
  · cases hlock

/-- Whatever became of the run that took the lock, a firing that comes a timeout
later takes it and executes. -/
theorem lock_lapses (h : Reachable (next instanceOf timeout) (State.start ι) s) {run : ℕ}
    (hfired : s.phase run = .fired) {duration : ℕ} (hlong : timeout ≤ duration) :
    ∃ t u, next instanceOf timeout s (.elapse duration) = some t ∧
      next instanceOf timeout t (.setNX run true) = some u ∧
      u.phase run = .executing (s.now + duration + timeout) := by
  let t : State ι := { s with now := s.now + duration }
  have hlive : t.live = none := by
    refine Option.eq_none_iff_forall_ne_some.mpr (fun lock hlock ↦ ?_)
    obtain ⟨hlock, hnow : s.now + duration < lock.expiresAt⟩ := live_eq_some.mp hlock
    have := expiresAt_le h lock hlock
    omega
  refine ⟨t, setNX instanceOf timeout t run true, rfl, ?_, ?_⟩
  · rw [next, show t.phase run = .fired from hfired]
  · rw [setNX, hlive]
    exact setPhase_phase_self ..

theorem crashed_run_lapses : ∃ t u : State Bool,
    next (fun _ ↦ true) 10 t (.setNX 1 true) = some u ∧ u.phase 1 = .executing 20 := by
  have hcrashed : Run (next (fun _ ↦ true) 10) (fun _ _ ↦ True) (State.start Bool)
      [.setNX 0 true] _ := .cons trivial rfl (.nil _)
  obtain ⟨t, u, -, hset, hphase⟩ := @lock_lapses _ _ _ 10 _ hcrashed.reachable 1 rfl _
    (Nat.le_refl 10)
  exact ⟨t, u, hset, hphase⟩

end Runs

end TalaPala.Scheduler
