import TalaPala.Economic.Observations
import TalaPala.Library.Transition

namespace TalaPala.Economic

open Library Library.Transition List

inductive Phase
  | idle
  | called (request : Request)
  | compared (request : Request) (current : Option Observation)
  | numbered (request : Request) (current : Option Observation) (bounds : PeriodBounds)

structure Store where
  committed : List Observation
  pending : List (ℕ × Observation)
  phase : ℕ → Phase

def Store.empty : Store where
  committed := []
  pending := []
  phase := fun _ ↦ .idle

def Store.own (s : Store) (w : ℕ) : List Observation :=
  (s.pending.filter (fun p ↦ p.1 = w)).map Prod.snd

def Store.visible (s : Store) (w : ℕ) : List Observation := s.committed ++ s.own w

def Store.visibleAt (s : Store) (w : ℕ) (period : Period) : List Observation :=
  periodRows period (s.visible w)

def Store.setPhase (s : Store) (w : ℕ) (phase : Phase) : Store :=
  { s with phase := Function.update s.phase w phase }

def Store.hold (s : Store) (w : ℕ) (row : Observation) : Store where
  committed := s.committed
  pending := s.pending ++ [(w, row)]
  phase := Function.update s.phase w .idle

def Store.publish (s : Store) (w : ℕ) : Store where
  committed := s.committed ++ s.own w
  pending := s.pending.filter (fun p ↦ p.1 ≠ w)
  phase := s.phase

def Store.discard (s : Store) (w : ℕ) : Store where
  committed := s.committed
  pending := s.pending.filter (fun p ↦ p.1 ≠ w)
  phase := Function.update s.phase w .idle

inductive Action
  | call (w : ℕ) (c : Call)
  | selectCurrent (w : ℕ)
  | selectBounds (w : ℕ)
  | insert (w : ℕ)
  | commit (w : ℕ)
  | abort (w : ℕ)

def Store.insertRow (s : Store) (w : ℕ) (row : Observation) : Option Store :=
  if s.pending.any (fun p ↦ decide (p.1 ≠ w) && p.2.sameKey row) then none
  else if (s.visible w).any (fun stored ↦ stored.sameKey row) then some (s.setPhase w .idle)
  else some (s.hold w row)

def next (s : Store) : Action → Option Store
  | .call w c =>
    match s.phase w with
    | .idle =>
      match c.check with
      | .error _ => some s
      | .ok request => some (s.setPhase w (.called request))
    | _ => none
  | .selectCurrent w =>
    match s.phase w with
    | .called request =>
      some (s.setPhase w (.compared request (currentRow (s.visibleAt w request.call.period))))
    | _ => none
  | .selectBounds w =>
    match s.phase w with
    | .compared request current =>
      some (s.setPhase w
        (.numbered request current (periodBounds (s.visibleAt w request.call.period))))
    | _ => none
  | .insert w =>
    match s.phase w with
    | .numbered request current bounds =>
      match plan request current bounds with
      | .ok (.insert _ row) => s.insertRow w row
      | _ => some (s.setPhase w .idle)
    | _ => none
  | .commit w =>
    match s.phase w with
    | .idle => some (s.publish w)
    | _ => none
  | .abort w => some (s.discard w)

theorem next_cases {s t : Store} {a : Action} (h : next s a = some t) :
    (∃ w c, a = .call w c ∧ s.phase w = .idle ∧
      (t = s ∨ ∃ request, c.check = .ok request ∧ t = s.setPhase w (.called request))) ∨
    (∃ w request, a = .selectCurrent w ∧ s.phase w = .called request ∧ t = s.setPhase w
      (.compared request (currentRow (s.visibleAt w request.call.period)))) ∨
    (∃ w request current, a = .selectBounds w ∧ s.phase w = .compared request current ∧
      t = s.setPhase w
        (.numbered request current (periodBounds (s.visibleAt w request.call.period)))) ∨
    (∃ w, a = .insert w ∧ t = s.setPhase w .idle) ∨
    (∃ w request current bounds status row, a = .insert w ∧
      s.phase w = .numbered request current bounds ∧
      plan request current bounds = .ok (.insert status row) ∧
      (∀ p ∈ s.pending, p.1 ≠ w → p.2.sameKey row = false) ∧
      (∀ stored ∈ s.visible w, stored.sameKey row = false) ∧
      t = s.hold w row) ∨
    (∃ w, a = .commit w ∧ s.phase w = .idle ∧ t = s.publish w) ∨
    (∃ w, a = .abort w ∧ t = s.discard w) := by
  cases a with
  | call w c =>
    simp only [next] at h
    split at h
    · rename_i hp
      split at h
      · obtain rfl := Option.some.inj h
        exact .inl ⟨w, c, rfl, hp, .inl rfl⟩
      · rename_i request hc
        obtain rfl := Option.some.inj h
        exact .inl ⟨w, c, rfl, hp, .inr ⟨request, hc, rfl⟩⟩
    · cases h
  | selectCurrent w =>
    simp only [next] at h
    split at h
    · rename_i request hp
      obtain rfl := Option.some.inj h
      exact .inr (.inl ⟨w, request, rfl, hp, rfl⟩)
    · cases h
  | selectBounds w =>
    simp only [next] at h
    split at h
    · rename_i request current hp
      obtain rfl := Option.some.inj h
      exact .inr (.inr (.inl ⟨w, request, current, rfl, hp, rfl⟩))
    · cases h
  | insert w =>
    simp only [next] at h
    split at h
    · rename_i request current bounds hp
      split at h
      · rename_i status row hplan
        simp only [Store.insertRow] at h
        split at h
        · cases h
        · rename_i hfree
          split at h
          · obtain rfl := Option.some.inj h
            exact .inr (.inr (.inr (.inl ⟨w, rfl, rfl⟩)))
          · rename_i hnew
            obtain rfl := Option.some.inj h
            refine .inr (.inr (.inr (.inr (.inl
              ⟨w, request, current, bounds, status, row, rfl, hp, hplan, ?_, ?_, rfl⟩))))
            · intro p hpm hpw
              rw [any_eq_true] at hfree
              by_contra hk
              rw [Bool.not_eq_false] at hk
              exact hfree ⟨p, hpm, by simp [hpw, hk]⟩
            · intro stored hs
              rw [any_eq_true] at hnew
              by_contra hk
              rw [Bool.not_eq_false] at hk
              exact hnew ⟨stored, hs, hk⟩
      · obtain rfl := Option.some.inj h
        exact .inr (.inr (.inr (.inl ⟨w, rfl, rfl⟩)))
    · cases h
  | commit w =>
    simp only [next] at h
    split at h
    · rename_i hp
      obtain rfl := Option.some.inj h
      exact .inr (.inr (.inr (.inr (.inr (.inl ⟨w, rfl, hp, rfl⟩)))))
    · cases h
  | abort w =>
    obtain rfl := Option.some.inj h
    exact .inr (.inr (.inr (.inr (.inr (.inr ⟨w, rfl, rfl⟩)))))

@[simp] theorem setPhase_phase_self (s : Store) (w : ℕ) (phase : Phase) :
    (s.setPhase w phase).phase w = phase := Function.update_self _ _ _

theorem setPhase_phase_other (s : Store) {v w : ℕ} (hvw : v ≠ w) (phase : Phase) :
    (s.setPhase w phase).phase v = s.phase v := Function.update_of_ne hvw _ _

@[simp] theorem setPhase_setPhase (s : Store) (w : ℕ) (phase phase' : Phase) :
    (s.setPhase w phase).setPhase w phase' = s.setPhase w phase' := by
  simp [Store.setPhase]

@[simp] theorem hold_phase_self (s : Store) (w : ℕ) (row : Observation) :
    (s.hold w row).phase w = .idle := Function.update_self _ _ _

theorem hold_phase_other (s : Store) {v w : ℕ} (hvw : v ≠ w) (row : Observation) :
    (s.hold w row).phase v = s.phase v := Function.update_of_ne hvw _ _

@[simp] theorem discard_phase_self (s : Store) (w : ℕ) : (s.discard w).phase w = .idle :=
  Function.update_self _ _ _

theorem discard_phase_other (s : Store) {v w : ℕ} (hvw : v ≠ w) :
    (s.discard w).phase v = s.phase v := Function.update_of_ne hvw _ _

theorem mem_own {s : Store} {w : ℕ} {row : Observation} :
    row ∈ s.own w ↔ (w, row) ∈ s.pending := Pending.mem_own

theorem own_of_no_pending {s : Store} (h : s.pending = []) (w : ℕ) : s.own w = [] := by
  simp [Store.own, h]

theorem insertRow_of_no_pending {s : Store} (h : s.pending = []) (w : ℕ) (row : Observation) :
    s.insertRow w row = some (if s.committed.any (fun stored ↦ stored.sameKey row)
      then s.setPhase w .idle else s.hold w row) := by
  rw [Store.insertRow, h, any_nil, Store.visible, own_of_no_pending h, append_nil,
    if_neg Bool.false_ne_true]
  split <;> rfl

theorem own_hold_self (s : Store) (w : ℕ) (row : Observation) :
    (s.hold w row).own w = s.own w ++ [row] := Pending.own_append_self _ _ _

theorem own_hold_other (s : Store) {v w : ℕ} (hvw : v ≠ w) (row : Observation) :
    (s.hold w row).own v = s.own v := Pending.own_append_other hvw _ _

theorem own_publish_self (s : Store) (w : ℕ) : (s.publish w).own w = [] :=
  Pending.own_release_self _ _

theorem own_publish_other (s : Store) {v w : ℕ} (hvw : v ≠ w) : (s.publish w).own v = s.own v :=
  Pending.own_release_other hvw _

theorem own_discard_self (s : Store) (w : ℕ) : (s.discard w).own w = [] :=
  Pending.own_release_self _ _

theorem own_discard_other (s : Store) {v w : ℕ} (hvw : v ≠ w) : (s.discard w).own v = s.own v :=
  Pending.own_release_other hvw _

theorem periodRows_append (period : Period) (rows rows' : List Observation) :
    periodRows period (rows ++ rows') = periodRows period rows ++ periodRows period rows' :=
  filter_append _ _

theorem Store.visibleAt_eq (s : Store) (w : ℕ) (period : Period) :
    s.visibleAt w period = periodRows period s.committed ++ periodRows period (s.own w) :=
  periodRows_append _ _ _

theorem Store.committed_prefix_visibleAt (s : Store) (w : ℕ) (period : Period) :
    periodRows period s.committed <+: s.visibleAt w period := by
  rw [Store.visibleAt_eq]
  exact prefix_append _ _

theorem visibleAt_setPhase (s : Store) (w v : ℕ) (phase : Phase) (period : Period) :
    (s.setPhase w phase).visibleAt v period = s.visibleAt v period := rfl

theorem visibleAt_hold_self (s : Store) (w : ℕ) (row : Observation) (period : Period) :
    (s.hold w row).visibleAt w period = s.visibleAt w period ++ periodRows period [row] := by
  rw [Store.visibleAt_eq, own_hold_self, periodRows_append, ← append_assoc, Store.visibleAt_eq]
  rfl

theorem visibleAt_hold_other (s : Store) {v w : ℕ} (hvw : v ≠ w) (row : Observation)
    (period : Period) : (s.hold w row).visibleAt v period = s.visibleAt v period := by
  rw [Store.visibleAt_eq, own_hold_other s hvw, Store.visibleAt_eq]
  rfl

theorem visibleAt_publish_self (s : Store) (w : ℕ) (period : Period) :
    (s.publish w).visibleAt w period = s.visibleAt w period := by
  rw [Store.visibleAt, Store.visible, own_publish_self, append_nil]
  rfl

theorem visibleAt_publish_other (s : Store) {v w : ℕ} (hvw : v ≠ w) (period : Period) :
    (s.publish w).visibleAt v period = periodRows period s.committed ++
      (periodRows period (s.own w) ++ periodRows period (s.own v)) := by
  have hc : (s.publish w).committed = s.committed ++ s.own w := rfl
  rw [Store.visibleAt_eq, own_publish_other s hvw, hc, periodRows_append, append_assoc]

theorem visibleAt_discard_self (s : Store) (w : ℕ) (period : Period) :
    (s.discard w).visibleAt w period = periodRows period s.committed := by
  rw [Store.visibleAt, Store.visible, own_discard_self, append_nil]
  rfl

theorem visibleAt_discard_other (s : Store) {v w : ℕ} (hvw : v ≠ w) (period : Period) :
    (s.discard w).visibleAt v period = s.visibleAt v period := by
  rw [Store.visibleAt_eq, own_discard_other s hvw, Store.visibleAt_eq]
  rfl

theorem committed_prefix {s t : Store} {a : Action} (h : next s a = some t) :
    s.committed <+: t.committed := by
  rcases next_cases h with ⟨_, _, _, _, rfl | ⟨_, _, rfl⟩⟩ | ⟨_, _, _, _, rfl⟩ |
    ⟨_, _, _, _, _, rfl⟩ | ⟨_, _, rfl⟩ | ⟨_, _, _, _, _, _, _, _, _, _, _, rfl⟩ |
    ⟨_, _, _, rfl⟩ | ⟨_, _, rfl⟩
  all_goals first
    | exact prefix_append _ _
    | exact prefix_rfl

end TalaPala.Economic
