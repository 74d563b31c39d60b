import TalaPala.Forecast.Registry
import Mathlib.Data.List.Induction

namespace TalaPala.Forecast

open Library.Transition List

variable {ι : Type*} {plan : ι → Pass} {s s' : Registry ι} {t u : ι} {h h' : List (Action ι)}
  {p q : Progress} {pair : Pair}

theorem lastCommitted_concat (action : Action ι) :
    lastCommitted plan pair (h ++ [action]) =
      match action with
      | .commit t => if (plan t).pair = pair then some t else lastCommitted plan pair h
      | _ => lastCommitted plan pair h := by
  rw [lastCommitted, foldl_append]
  rfl

theorem lastCommitted_pair (hlast : lastCommitted plan pair h = some t) :
    (plan t).pair = pair := by
  induction h using List.reverseRecOn with
  | nil => cases hlast
  | append_singleton h action ih =>
    rw [lastCommitted_concat] at hlast
    split at hlast
    · split at hlast
      · rename_i hpair
        exact Option.some.inj hlast ▸ hpair
      · exact ih hlast
    · exact ih hlast

theorem running_eq_some {f : Progress → Option (Registry ι)} (hs : s.running t f = some s') :
    ∃ p, s.phase t = .running p ∧ f p = some s' := by
  rw [Registry.running] at hs
  split at hs
  · exact ⟨_, ‹_›, hs⟩
  · cases hs

/-- The rows that the first `UPDATE` of a transaction aims at. -/
def Progress.targets (p : Progress) : List ℕ := p.waiting ++ p.struck

def Registry.ids (s : Registry ι) : List ℕ :=
  s.rows.map ModelVersion.id ++ s.uncommitted.map (fun w ↦ w.2.id)

variable (plan) in
structure Registry.Keyed (s : Registry ι) : Prop where
  nodup : s.ids.Nodup
  fresh : ∀ id ∈ s.ids, id < s.nextId
  pair : ∀ w ∈ s.uncommitted, w.2.pair = (plan w.1).pair
  version : ∀ w ∈ s.uncommitted, w.2.version = (plan w.1).version
  running : ∀ w ∈ s.uncommitted, ∃ p, s.phase w.1 = .running p

theorem mem_targets {id : ℕ} : id ∈ p.targets ↔ id ∈ p.waiting ∨ id ∈ p.struck :=
  mem_append

theorem mem_visible {id : ℕ} :
    id ∈ s.visible pair ↔ ∃ r ∈ s.rows, r.id = id ∧ r.pair = pair := by
  rw [Registry.visible, mem_map]
  constructor
  · rintro ⟨r, hr, hid⟩
    obtain ⟨hmem, hpair⟩ := mem_filter.mp hr
    exact ⟨r, hmem, hid, of_decide_eq_true hpair⟩
  · rintro ⟨r, hr, hid, hpair⟩
    exact ⟨r, mem_filter.mpr ⟨hr, decide_eq_true hpair⟩, hid⟩

theorem Registry.Keyed.not_mem (hs : s.Keyed plan) (ht : ∀ p, s.phase t ≠ .running p)
    (r : ModelVersion) : (t, r) ∉ s.uncommitted := by
  intro hr
  obtain ⟨p, hp⟩ := hs.running _ hr
  exact ht p hp

theorem keyTaken_of_mem {r : ModelVersion} (hr : (t, r) ∈ s.uncommitted) :
    s.keyTaken r.pair r.modelName r.version = true := by
  rw [Registry.keyTaken, any_eq_true]
  exact ⟨r, mem_append_right _ (mem_map.mpr ⟨(t, r), hr, rfl⟩), by simp⟩

def Pass.inserted (pass : Pass) (id : ℕ) (name : String) : ModelVersion where
  id := id
  pair := pass.pair
  modelName := name
  version := pass.version
  isActive := false

theorem Registry.Keyed.insert {name : String} {phase : ι → Phase} (hs : s.Keyed plan)
    (hphase : ∀ u, (∃ q, s.phase u = .running q) → ∃ q, phase u = .running q)
    (ht : ∃ q, phase t = .running q) :
    Registry.Keyed plan { s with
      uncommitted := s.uncommitted ++ [(t, (plan t).inserted s.nextId name)]
      nextId := s.nextId + 1
      phase := phase } := by
  have hids : Registry.ids { s with
      uncommitted := s.uncommitted ++ [(t, (plan t).inserted s.nextId name)]
      nextId := s.nextId + 1
      phase := phase } = s.ids ++ [s.nextId] := by
    simp [Registry.ids, Pass.inserted]
  have hmem {w : ι × ModelVersion}
      (hw : w ∈ s.uncommitted ++ [(t, (plan t).inserted s.nextId name)]) :
      w ∈ s.uncommitted ∨ w = (t, (plan t).inserted s.nextId name) := by
    simpa using hw
  constructor
  · rw [hids, nodup_append]
    refine ⟨hs.nodup, nodup_singleton _, fun id hid id' hid' ↦ ?_⟩
    rw [mem_singleton.mp hid']
    exact Nat.ne_of_lt (hs.fresh id hid)
  · intro id hid
    rw [hids, mem_append, mem_singleton] at hid
    rcases hid with hid | rfl
    · exact Nat.lt_succ_of_lt (hs.fresh id hid)
    · exact Nat.lt_succ_self _
  · intro w hw
    rcases hmem hw with hw | rfl
    · exact hs.pair w hw
    · rfl
  · intro w hw
    rcases hmem hw with hw | rfl
    · exact hs.version w hw
    · rfl
  · intro w hw
    rcases hmem hw with hw | rfl
    · exact hphase w.1 (hs.running w hw)
    · exact ht

section Keyed

variable {r r' : ModelVersion}

theorem Registry.Keyed.rows_inj (hs : s.Keyed plan) (hr : r ∈ s.rows) (hr' : r' ∈ s.rows)
    (hid : r.id = r'.id) : r = r' :=
  inj_on_of_nodup_map (nodup_append.mp hs.nodup).1 hr hr' hid

theorem Registry.Keyed.own_inj (hs : s.Keyed plan) (hr : (t, r) ∈ s.uncommitted)
    (hr' : (t, r') ∈ s.uncommitted) (hid : r.id = r'.id) : r = r' := by
  have hinj := inj_on_of_nodup_map (nodup_append.mp hs.nodup).2.1 hr hr' hid
  exact (Prod.mk.inj hinj).2

theorem Registry.Keyed.id_ne (hs : s.Keyed plan) (hr : r ∈ s.rows)
    (hr' : (t, r') ∈ s.uncommitted) : r.id ≠ r'.id :=
  (nodup_append.mp hs.nodup).2.2 _ (mem_map.mpr ⟨r, hr, rfl⟩) _
    (mem_map.mpr ⟨(t, r'), hr', rfl⟩)

end Keyed

theorem mem_active {r : ModelVersion} :
    r ∈ s.active pair ↔ r ∈ s.rows ∧ r.pair = pair ∧ r.isActive = true := by
  rw [Registry.active, mem_filter, decide_eq_true_eq]

theorem length_le_one_iff {α : Type*} {l : List α} (hl : l.Nodup) :
    l.length ≤ 1 ↔ ∀ a ∈ l, ∀ b ∈ l, a = b := by
  match l with
  | [] => simp
  | [a] => simp
  | a :: b :: l =>
    constructor
    · intro h
      simp at h
    · intro h
      have hab := h a mem_cons_self b (mem_cons_of_mem _ mem_cons_self)
      simp [hab] at hl

theorem Registry.Keyed.active_le_one_iff (hs : s.Keyed plan) :
    (s.active pair).length ≤ 1 ↔ ∀ a ∈ s.active pair, ∀ b ∈ s.active pair, a = b :=
  length_le_one_iff
    ((nodup_append.mp hs.nodup).1.of_map.filter _)

variable [DecidableEq ι]

theorem overtaken_concat (action : Action ι) :
    overtaken plan t (h ++ [action]) =
      match action with
      | .snapshot u => if u = t then false else overtaken plan t h
      | .commit u => overtaken plan t h || (plan u).pair = (plan t).pair
      | _ => overtaken plan t h := by
  rw [overtaken, foldl_append]
  rfl

variable (plan) in
structure Progress.Sound (h : List (Action ι)) (s : Registry ι) (t : ι) (p : Progress) : Prop where
  aimed : ∀ id ∈ p.targets, ∃ r ∈ s.rows, r.id = id ∧ r.pair = (plan t).pair
  inTurn : overtaken plan t h = false → ∀ r ∈ s.rows, r.pair = (plan t).pair → r.id ∈ p.targets
  overtaken : overtaken plan t h = true → ∃ u, lastCommitted plan (plan t).pair h = some u ∧
    ∃ r ∈ s.rows, (plan u).Wins r ∧ r.isActive = true ∧ r.id ∉ p.targets
  pending : p.winnerId = none → (plan t).winner ∈ p.rest
  held : ∀ id, p.winnerId = some id → ∃ r, (t, r) ∈ s.uncommitted ∧ r.id = id ∧
    r.modelName = (plan t).winner ∧ r.isActive = p.activated
  lone : ∀ r, (t, r) ∈ s.uncommitted → r.isActive = true → p.winnerId = some r.id
  settled : p.activated = true → p.rest = []

variable (plan) in
structure Inv (h : List (Action ι)) (s : Registry ι) : Prop where
  keyed : s.Keyed plan
  sound : ∀ t p, s.phase t = .running p → p.Sound plan h s t
  last : ∀ pair t, lastCommitted plan pair h = some t →
    ∃ r ∈ s.rows, r.pair = pair ∧ (plan t).Wins r ∧ r.isActive = true

theorem Progress.Sound.frame (hp : p.Sound plan h s t) (hrows : s'.rows = s.rows)
    (hown : ∀ r, (t, r) ∈ s'.uncommitted ↔ (t, r) ∈ s.uncommitted)
    (hovertaken : Forecast.overtaken plan t h' = Forecast.overtaken plan t h)
    (hlast : lastCommitted plan (plan t).pair h' = lastCommitted plan (plan t).pair h) :
    p.Sound plan h' s' t where
  aimed := by
    rw [hrows]
    exact hp.aimed
  inTurn := by
    rw [hovertaken, hrows]
    exact hp.inTurn
  overtaken := by
    rw [hovertaken, hlast, hrows]
    exact hp.overtaken
  pending := hp.pending
  held := by
    simp only [hown]
    exact hp.held
  lone := by
    simp only [hown]
    exact hp.lone
  settled := hp.settled

theorem Inv.quiet (hinv : Inv plan h s) (hkeyed : s'.Keyed plan) (hrows : s'.rows = s.rows)
    (hphase : ∀ u, u ≠ t → s'.phase u = s.phase u)
    (hown : ∀ u, u ≠ t → ∀ r, (u, r) ∈ s'.uncommitted ↔ (u, r) ∈ s.uncommitted)
    (hovertaken : ∀ u, u ≠ t → overtaken plan u h' = overtaken plan u h)
    (hlast : ∀ pair, lastCommitted plan pair h' = lastCommitted plan pair h)
    (hself : ∀ p, s'.phase t = .running p → p.Sound plan h' s' t) : Inv plan h' s' where
  keyed := hkeyed
  sound := by
    intro u p hp
    by_cases hu : u = t
    · subst hu
      exact hself p hp
    · rw [hphase u hu] at hp
      exact (hinv.sound u p hp).frame hrows (hown u hu) (hovertaken u hu) (hlast _)
  last := by
    intro pair u hu
    rw [hlast] at hu
    rw [hrows]
    exact hinv.last pair u hu

theorem still_running {phase : ι → Phase} (hu : ∃ q, phase u = .running q) :
    ∃ q, Function.update phase t (.running p) u = .running q := by
  by_cases hut : u = t
  · exact ⟨p, hut ▸ Function.update_self _ _ _⟩
  · rwa [Function.update_of_ne hut]

theorem Inv.snapshot (hinv : Inv plan h s) (hs : next plan s (.snapshot t) = some s') :
    Inv plan (h ++ [.snapshot t]) s' := by
  rw [next] at hs
  split at hs
  · rename_i hready
    obtain rfl := Option.some.inj hs
    have hnot := hinv.keyed.not_mem (t := t) (by simp [hready])
    refine hinv.quiet (t := t) ⟨hinv.keyed.nodup, hinv.keyed.fresh, hinv.keyed.pair,
      hinv.keyed.version, fun w hw ↦ still_running (hinv.keyed.running w hw)⟩ rfl
      (fun u hu ↦ Function.update_of_ne hu _ _) (fun u hu r ↦ Iff.rfl) (fun u hu ↦ ?_)
      (fun pair ↦ lastCommitted_concat _) (fun p hp ↦ ?_)
    · rw [overtaken_concat]
      exact if_neg (Ne.symm hu)
    · obtain rfl := Phase.running.inj ((Function.update_self _ _ _).symm.trans hp)
      have hover : overtaken plan t (h ++ [.snapshot t]) = false := by
        rw [overtaken_concat]
        exact if_pos rfl
      exact
        { aimed := fun id hid ↦ by
            rcases mem_targets.mp hid with hid | hid
            · exact mem_visible.mp hid
            · cases hid
          inTurn := fun _ r hr hpair ↦ mem_targets.mpr (.inl (mem_visible.mpr ⟨r, hr, rfl, hpair⟩))
          overtaken := fun hflag ↦ by
            rw [hover] at hflag
            cases hflag
          pending := fun _ ↦ (plan t).winner_mem
          held := fun id hid ↦ by cases hid
          lone := fun r hr ↦ absurd hr (hnot r)
          settled := fun hactive ↦ by cases hactive }
  · cases hs

theorem Progress.Sound.retarget (hp : p.Sound plan h s t)
    (htargets : ∀ id, id ∈ q.targets ↔ id ∈ p.targets) (hrest : q.rest = p.rest)
    (hwinner : q.winnerId = p.winnerId) (hactivated : q.activated = p.activated) :
    q.Sound plan h s t where
  aimed := fun id hid ↦ hp.aimed id ((htargets id).mp hid)
  inTurn := fun hturn r hr hpair ↦ (htargets r.id).mpr (hp.inTurn hturn r hr hpair)
  overtaken := fun hover ↦ by
    obtain ⟨u, hu, r, hr, hwins, hactive, hnot⟩ := hp.overtaken hover
    exact ⟨u, hu, r, hr, hwins, hactive, fun hid ↦ hnot ((htargets r.id).mp hid)⟩
  pending := by
    rw [hwinner, hrest]
    exact hp.pending
  held := by
    rw [hwinner, hactivated]
    exact hp.held
  lone := by
    rw [hwinner]
    exact hp.lone
  settled := by
    rw [hactivated, hrest]
    exact hp.settled

theorem Inv.strike {id : ℕ} (hinv : Inv plan h s) (hs : next plan s (.strike t id) = some s') :
    Inv plan (h ++ [.strike t id]) s' := by
  obtain ⟨p, hp, hstrike⟩ := running_eq_some hs
  rw [Progress.strike] at hstrike
  split at hstrike
  · rename_i hguard
    obtain rfl := Option.some.inj hstrike
    refine hinv.quiet (t := t) ⟨hinv.keyed.nodup, hinv.keyed.fresh, hinv.keyed.pair,
      hinv.keyed.version, fun w hw ↦ still_running (hinv.keyed.running w hw)⟩ rfl
      (fun u hu ↦ Function.update_of_ne hu _ _) (fun u hu r ↦ Iff.rfl) (fun u _ ↦ overtaken_concat _)
      (fun pair ↦ lastCommitted_concat _) (fun q hq ↦ ?_)
    obtain rfl := Phase.running.inj ((Function.update_self _ _ _).symm.trans hq)
    refine Progress.Sound.retarget (p := p) ?_ (fun id' ↦ ?_) rfl rfl rfl
    · exact (hinv.sound t p hp).frame rfl (fun r ↦ Iff.rfl) (overtaken_concat _)
        (lastCommitted_concat _)
    · rw [mem_targets, mem_targets]
      dsimp only
      rw [mem_cons]
      by_cases hid : id' = id
      · simp [hid, hguard.1]
      · simp [hid, mem_erase_of_ne hid]
  · cases hstrike

theorem Inv.abort (hinv : Inv plan h s) (hs : next plan s (.abort t) = some s') :
    Inv plan (h ++ [.abort t]) s' := by
  obtain ⟨p, hp, habort⟩ := running_eq_some hs
  obtain rfl := Option.some.inj habort
  have hsub : (s.release t .aborted).ids.Sublist s.ids :=
    (List.Sublist.refl _).append (filter_sublist.map _)
  have hmem {w : ι × ModelVersion} (hw : w ∈ (s.release t .aborted).uncommitted) :
      w ∈ s.uncommitted ∧ w.1 ≠ t := by
    obtain ⟨hw, hne⟩ := mem_filter.mp hw
    exact ⟨hw, of_decide_eq_true hne⟩
  refine hinv.quiet (t := t)
    { nodup := hinv.keyed.nodup.sublist hsub
      fresh := fun id hid ↦ hinv.keyed.fresh id (hsub.mem hid)
      pair := fun w hw ↦ hinv.keyed.pair w (hmem hw).1
      version := fun w hw ↦ hinv.keyed.version w (hmem hw).1
      running := fun w hw ↦ by
        obtain ⟨q, hq⟩ := hinv.keyed.running w (hmem hw).1
        exact ⟨q, (Function.update_of_ne (hmem hw).2 _ _).trans hq⟩ }
    rfl (fun u hu ↦ Function.update_of_ne hu _ _) (fun u hu r ↦ ⟨fun hw ↦ (hmem hw).1, fun hw ↦ ?_⟩)
    (fun u _ ↦ overtaken_concat _) (fun pair ↦ lastCommitted_concat _) (fun q hq ↦ ?_)
  · exact mem_filter.mpr ⟨hw, decide_eq_true hu⟩
  · cases (Function.update_self _ _ _).symm.trans hq

theorem insert_eq_some (hs : p.insert plan s t = some s') :
    ∃ name rest, p.waiting = [] ∧ p.rest = name :: rest ∧
      s.keyTaken (plan t).pair name (plan t).version = false ∧
      s' = { s with
        uncommitted := s.uncommitted ++ [(t, (plan t).inserted s.nextId name)]
        nextId := s.nextId + 1
        phase := Function.update s.phase t (.running { p with
          rest := rest
          winnerId := if name = (plan t).winner then some s.nextId else p.winnerId }) } := by
  rw [Progress.insert] at hs
  split at hs
  · rename_i name rest hwaiting hrest
    split at hs
    · cases hs
    · rename_i hkey
      exact ⟨name, rest, hwaiting, hrest, Bool.eq_false_iff.mpr hkey, (Option.some.inj hs).symm⟩
  · cases hs

theorem Inv.winner_free (hinv : Inv plan h s) (hp : s.phase t = .running p)
    (hfree : s.keyTaken (plan t).pair (plan t).winner (plan t).version = false) :
    p.winnerId = none := by
  cases hid : p.winnerId with
  | none => rfl
  | some id =>
    obtain ⟨r, hr, -, hname, -⟩ := (hinv.sound t p hp).held id hid
    have htaken := keyTaken_of_mem hr
    rw [hinv.keyed.pair _ hr, hname, hinv.keyed.version _ hr, hfree] at htaken
    cases htaken

theorem Inv.insert (hinv : Inv plan h s) (hs : next plan s (.insert t) = some s') :
    Inv plan (h ++ [.insert t]) s' := by
  obtain ⟨p, hp, hinsert⟩ := running_eq_some hs
  obtain ⟨name, rest, hwaiting, hrest, hfree, rfl⟩ := insert_eq_some hinsert
  have hself := hinv.sound t p hp
  have hinactive : p.activated = false := by
    rw [Bool.eq_false_iff]
    intro hactivated
    have hnil := hself.settled hactivated
    rw [hrest] at hnil
    cases hnil
  refine hinv.quiet (t := t) (hinv.keyed.insert (fun u hu ↦ still_running hu)
      ⟨_, Function.update_self _ _ _⟩) rfl (fun u hu ↦ Function.update_of_ne hu _ _)
    (fun u hu r ↦ ?_) (fun u _ ↦ overtaken_concat _) (fun pair ↦ lastCommitted_concat _)
    (fun q hq ↦ ?_)
  · simp [hu]
  · obtain rfl := Phase.running.inj ((Function.update_self _ _ _).symm.trans hq)
    have hover : overtaken plan t (h ++ [.insert t]) = overtaken plan t h := overtaken_concat _
    constructor
    · exact hself.aimed
    · intro hturn
      rw [hover] at hturn
      exact hself.inTurn hturn
    · intro hturn
      rw [hover] at hturn
      rw [lastCommitted_concat]
      exact hself.overtaken hturn
    · intro hnone
      dsimp only at hnone ⊢
      split at hnone
      · cases hnone
      · rename_i hname
        have hmem := hself.pending hnone
        rw [hrest] at hmem
        exact (mem_cons.mp hmem).resolve_left (Ne.symm hname)
    · intro id hid
      dsimp only at hid ⊢
      split at hid
      · rename_i hname
        obtain rfl := Option.some.inj hid
        exact ⟨_, mem_append_right _ mem_cons_self, rfl, hname, hinactive.symm⟩
      · obtain ⟨r, hr, hrest⟩ := hself.held id hid
        exact ⟨r, mem_append_left _ hr, hrest⟩
    · intro r hr hactive
      rcases mem_append.mp hr with hr | hr
      · have hid := hself.lone r hr hactive
        dsimp only
        split
        · rename_i hname
          rw [hinv.winner_free hp (hname ▸ hfree)] at hid
          cases hid
        · exact hid
      · obtain ⟨-, rfl⟩ := Prod.mk.inj (mem_singleton.mp hr)
        cases hactive
    · intro hactivated
      dsimp only at hactivated
      rw [hinactive] at hactivated
      cases hactivated

def activateRow (t : ι) (id : ℕ) (w : ι × ModelVersion) : ι × ModelVersion :=
  if w.1 = t ∧ w.2.id = id then (w.1, { w.2 with isActive := true }) else w

section ActivateRow

variable {id : ℕ} {w : ι × ModelVersion}

@[simp]
theorem activateRow_fst : (activateRow t id w).1 = w.1 := by
  rw [activateRow]
  split <;> rfl

@[simp]
theorem activateRow_id : (activateRow t id w).2.id = w.2.id := by
  rw [activateRow]
  split <;> rfl

@[simp]
theorem activateRow_pair : (activateRow t id w).2.pair = w.2.pair := by
  rw [activateRow]
  split <;> rfl

@[simp]
theorem activateRow_version : (activateRow t id w).2.version = w.2.version := by
  rw [activateRow]
  split <;> rfl

theorem activateRow_other (hw : w.1 ≠ t) : activateRow t id w = w := by
  rw [activateRow, if_neg]
  exact fun h ↦ hw h.1

end ActivateRow

theorem activate_eq_some (hs : p.activate s t = some s') :
    ∃ id, p.waiting = [] ∧ p.rest = [] ∧ p.winnerId = some id ∧
      s' = { s with
        uncommitted := s.uncommitted.map (activateRow t id)
        phase := Function.update s.phase t (.running { p with activated := true }) } := by
  rw [Progress.activate] at hs
  split at hs
  · rename_i id hwaiting hrest hid
    exact ⟨id, hwaiting, hrest, hid, (Option.some.inj hs).symm⟩
  · cases hs

theorem Registry.Keyed.activate {id : ℕ} {phase : ι → Phase} (hs : s.Keyed plan)
    (hphase : ∀ u, (∃ q, s.phase u = .running q) → ∃ q, phase u = .running q) :
    Registry.Keyed plan
      { s with uncommitted := s.uncommitted.map (activateRow t id), phase := phase } := by
  have hids : Registry.ids
      { s with uncommitted := s.uncommitted.map (activateRow t id), phase := phase } =
        s.ids := by
    simp [Registry.ids, Function.comp_def]
  refine ⟨hids ▸ hs.nodup, fun id' hid' ↦ hs.fresh id' (hids ▸ hid'), fun w hw ↦ ?_,
    fun w hw ↦ ?_, fun w hw ↦ ?_⟩
  · obtain ⟨w', hw', rfl⟩ := mem_map.mp hw
    simpa using hs.pair w' hw'
  · obtain ⟨w', hw', rfl⟩ := mem_map.mp hw
    simpa using hs.version w' hw'
  · obtain ⟨w', hw', rfl⟩ := mem_map.mp hw
    simpa using hphase _ (hs.running w' hw')

theorem mem_activated_other {id : ℕ} (hu : u ≠ t) (r : ModelVersion) :
    (u, r) ∈ s.uncommitted.map (activateRow t id) ↔ (u, r) ∈ s.uncommitted := by
  rw [mem_map]
  constructor
  · rintro ⟨w, hw, heq⟩
    have hne : w.1 ≠ t := by
      rw [← activateRow_fst (t := t), heq]
      exact hu
    rwa [← heq, activateRow_other hne]
  · intro hr
    exact ⟨(u, r), hr, activateRow_other hu⟩

theorem Inv.activate (hinv : Inv plan h s) (hs : next plan s (.activate t) = some s') :
    Inv plan (h ++ [.activate t]) s' := by
  obtain ⟨p, hp, hactivate⟩ := running_eq_some hs
  obtain ⟨id, hwaiting, hrest, hid, rfl⟩ := activate_eq_some hactivate
  have hself := hinv.sound t p hp
  refine hinv.quiet (t := t) (hinv.keyed.activate (fun u hu ↦ still_running hu)) rfl
    (fun u hu ↦ Function.update_of_ne hu _ _) (fun u hu r ↦ mem_activated_other hu r)
    (fun u _ ↦ overtaken_concat _) (fun pair ↦ lastCommitted_concat _) (fun q hq ↦ ?_)
  obtain rfl := Phase.running.inj ((Function.update_self _ _ _).symm.trans hq)
  have hover : overtaken plan t (h ++ [.activate t]) = overtaken plan t h := overtaken_concat _
  constructor
  · exact hself.aimed
  · intro hturn
    rw [hover] at hturn
    exact hself.inTurn hturn
  · intro hturn
    rw [hover] at hturn
    rw [lastCommitted_concat]
    exact hself.overtaken hturn
  · exact hself.pending
  · intro id' hid'
    obtain ⟨r, hr, hrid, hname, -⟩ := hself.held id' hid'
    have hmatch : r.id = id := hrid.trans (Option.some.inj (hid'.symm.trans hid))
    refine ⟨{ r with isActive := true }, mem_map.mpr ⟨(t, r), hr, ?_⟩, hrid, hname, rfl⟩
    rw [activateRow, if_pos ⟨rfl, hmatch⟩]
  · intro r hr hactive
    obtain ⟨w, hw, heq⟩ := mem_map.mp hr
    rw [activateRow] at heq
    split at heq
    · rename_i hmatch
      obtain ⟨-, rfl⟩ := Prod.mk.inj heq
      exact hid.trans (congrArg some hmatch.2.symm)
    · subst heq
      exact hself.lone r hw hactive
  · exact fun _ ↦ hrest

section Strike

variable {struck : List ℕ} {r : ModelVersion}

@[simp]
theorem strike_id : (r.strike struck).id = r.id := by
  rw [ModelVersion.strike]
  split <;> rfl

@[simp]
theorem strike_pair : (r.strike struck).pair = r.pair := by
  rw [ModelVersion.strike]
  split <;> rfl

theorem strike_inactive (hr : r.id ∈ struck) : (r.strike struck).isActive = false := by
  rw [ModelVersion.strike, if_pos hr]

theorem strike_other (hr : r.id ∉ struck) : r.strike struck = r := by
  rw [ModelVersion.strike, if_neg hr]

end Strike

section Commit

variable {r r' : ModelVersion}

theorem mem_own : r ∈ s.own t ↔ (t, r) ∈ s.uncommitted := by
  rw [Registry.own, mem_map]
  constructor
  · rintro ⟨⟨u, r'⟩, hw, rfl⟩
    obtain ⟨hmem, hu⟩ := mem_filter.mp hw
    obtain rfl : u = t := of_decide_eq_true hu
    exact hmem
  · intro hr
    exact ⟨(t, r), mem_filter.mpr ⟨hr, decide_eq_true rfl⟩, rfl⟩

def Registry.committedBy (s : Registry ι) (t : ι) (struck : List ℕ) : Registry ι :=
  { s.release t .committed with rows := s.rows.map (ModelVersion.strike struck) ++ s.own t }

theorem commit_eq_some (hs : p.commit s t = some s') :
    p.waiting = [] ∧ p.rest = [] ∧ p.activated = p.winnerId.isSome ∧
      s' = s.committedBy t p.struck := by
  rw [Progress.commit] at hs
  split at hs
  · rename_i hguard
    exact ⟨hguard.1, hguard.2.1, hguard.2.2, (Option.some.inj hs).symm⟩
  · cases hs

theorem mem_committedBy {struck : List ℕ} : r ∈ (s.committedBy t struck).rows ↔
    (∃ r' ∈ s.rows, r'.strike struck = r) ∨ (t, r) ∈ s.uncommitted := by
  rw [Registry.committedBy, mem_append, mem_map, mem_own]

theorem mem_released {struck : List ℕ} {w : ι × ModelVersion} :
    w ∈ (s.committedBy t struck).uncommitted ↔ w ∈ s.uncommitted ∧ w.1 ≠ t := by
  rw [Registry.committedBy, Registry.release, mem_filter, decide_eq_true_eq]

theorem committedBy_ids {struck : List ℕ} : (s.committedBy t struck).ids.Perm s.ids := by
  have hrows : (s.rows.map (ModelVersion.strike struck)).map ModelVersion.id =
      s.rows.map ModelVersion.id := by
    rw [map_map]
    exact map_congr_left (fun r _ ↦ strike_id)
  have hsplit := (filter_append_perm (fun w ↦ decide (w.1 = t)) s.uncommitted).map
    (fun w ↦ w.2.id)
  rw [Registry.ids, Registry.ids, Registry.committedBy, map_append, hrows,
    append_assoc, Registry.own, Registry.release, map_map]
  refine List.Perm.append_left _ ?_
  rw [map_append] at hsplit
  simpa only [decide_not, ne_eq, Function.comp_def] using hsplit

theorem Registry.Keyed.committedBy {struck : List ℕ} (hs : s.Keyed plan) :
    (s.committedBy t struck).Keyed plan where
  nodup := committedBy_ids.nodup_iff.mpr hs.nodup
  fresh := fun id hid ↦ hs.fresh id (committedBy_ids.mem_iff.mp hid)
  pair := fun w hw ↦ hs.pair w (mem_released.mp hw).1
  version := fun w hw ↦ hs.version w (mem_released.mp hw).1
  running := fun w hw ↦ by
    obtain ⟨hw, hne⟩ := mem_released.mp hw
    obtain ⟨q, hq⟩ := hs.running w hw
    exact ⟨q, (Function.update_of_ne hne _ _).trans hq⟩

theorem Inv.winner (hinv : Inv plan h s) (hp : s.phase t = .running p) (hrest : p.rest = [])
    (hactivated : p.activated = p.winnerId.isSome) :
    ∃ r, (t, r) ∈ s.uncommitted ∧ (plan t).Wins r ∧ r.isActive = true ∧
      ∀ r', (t, r') ∈ s.uncommitted → r'.isActive = true → r' = r := by
  have hself := hinv.sound t p hp
  cases hid : p.winnerId with
  | none =>
    have hmem := hself.pending hid
    rw [hrest] at hmem
    cases hmem
  | some id =>
    obtain ⟨r, hr, hrid, hname, hactive⟩ := hself.held id hid
    rw [hactivated, hid] at hactive
    refine ⟨r, hr, ⟨hinv.keyed.pair _ hr, hname, hinv.keyed.version _ hr⟩, hactive,
      fun r' hr' hactive' ↦ hinv.keyed.own_inj hr' hr ?_⟩
    have hid' := hself.lone r' hr' hactive'
    rw [hid, Option.some.injEq] at hid'
    exact hid'.symm.trans hrid.symm

theorem Inv.strike_pair_ne (hinv : Inv plan h s) (hp : s.phase t = .running p) (hr : r ∈ s.rows)
    (hpair : r.pair ≠ (plan t).pair) : r.strike p.struck = r := by
  refine strike_other (fun hid ↦ hpair ?_)
  obtain ⟨r', hr', hid', hpair'⟩ := (hinv.sound t p hp).aimed r.id (mem_targets.mpr (.inr hid))
  rwa [← hinv.keyed.rows_inj hr' hr hid']

theorem Progress.Sound.committedBy (hinv : Inv plan h s) (hp : s.phase t = .running p)
    (hrest : p.rest = []) (hactivated : p.activated = p.winnerId.isSome) (hut : u ≠ t)
    (hq : s.phase u = .running q) :
    q.Sound plan (h ++ [.commit t]) (s.committedBy t p.struck) u := by
  have hu := hinv.sound u q hq
  have hover : Forecast.overtaken plan u (h ++ [.commit t]) =
      (Forecast.overtaken plan u h || decide ((plan t).pair = (plan u).pair)) :=
    overtaken_concat _
  have hlast : lastCommitted plan (plan u).pair (h ++ [.commit t]) =
      if (plan t).pair = (plan u).pair then some t
        else lastCommitted plan (plan u).pair h := lastCommitted_concat _
  constructor
  · intro id hid
    obtain ⟨r, hr, rfl, hpair⟩ := hu.aimed id hid
    exact ⟨r.strike p.struck, mem_committedBy.mpr (.inl ⟨r, hr, rfl⟩), strike_id,
      strike_pair.trans hpair⟩
  · intro hturn r hr hpair
    rw [hover, Bool.or_eq_false_iff, decide_eq_false_iff_not] at hturn
    rcases mem_committedBy.mp hr with ⟨r', hr', rfl⟩ | hr
    · rw [strike_id]
      exact hu.inTurn hturn.1 r' hr' (strike_pair.symm.trans hpair)
    · exact absurd ((hinv.keyed.pair _ hr).symm.trans hpair) hturn.2
  · intro hturn
    by_cases hpair : (plan t).pair = (plan u).pair
    · obtain ⟨r, hr, hwins, hactive, -⟩ := hinv.winner hp hrest hactivated
      refine ⟨t, by rw [hlast, if_pos hpair], r, mem_committedBy.mpr (.inr hr), hwins, hactive,
        fun hid ↦ ?_⟩
      obtain ⟨r', hr', hid', -⟩ := hu.aimed r.id hid
      exact hinv.keyed.id_ne hr' hr hid'
    · rw [hover, decide_eq_false hpair, Bool.or_false] at hturn
      obtain ⟨v, hv, r, hr, hwins, hactive, hnot⟩ := hu.overtaken hturn
      have hstay := hinv.strike_pair_ne hp hr (by
        rw [hwins.1, lastCommitted_pair hv]
        exact Ne.symm hpair)
      exact ⟨v, by rw [hlast, if_neg hpair, hv], r,
        mem_committedBy.mpr (.inl ⟨r, hr, hstay⟩), hwins, hactive, hnot⟩
  · exact hu.pending
  · intro id hid
    obtain ⟨r, hr, hrest⟩ := hu.held id hid
    exact ⟨r, mem_released.mpr ⟨hr, hut⟩, hrest⟩
  · intro r hr
    exact hu.lone r (mem_released.mp hr).1
  · exact hu.settled

theorem Inv.committedBy (hinv : Inv plan h s) (hp : s.phase t = .running p)
    (hrest : p.rest = []) (hactivated : p.activated = p.winnerId.isSome) :
    Inv plan (h ++ [.commit t]) (s.committedBy t p.struck) where
  keyed := hinv.keyed.committedBy
  sound := by
    intro u q hq
    by_cases hut : u = t
    · subst hut
      cases (Function.update_self _ _ _).symm.trans hq
    · exact Progress.Sound.committedBy hinv hp hrest hactivated hut
        ((Function.update_of_ne hut _ _).symm.trans hq)
  last := by
    intro pair u hu
    rw [lastCommitted_concat] at hu
    dsimp only at hu
    split at hu
    · rename_i hpair
      obtain rfl := Option.some.inj hu
      obtain ⟨r, hr, hwins, hactive, -⟩ := hinv.winner hp hrest hactivated
      exact ⟨r, mem_committedBy.mpr (.inr hr), hwins.1.trans hpair, hwins, hactive⟩
    · rename_i hpair
      obtain ⟨r, hr, hrpair, hwins, hactive⟩ := hinv.last pair u hu
      have hstay := hinv.strike_pair_ne hp hr (fun heq ↦ hpair (heq.symm.trans hrpair))
      exact ⟨r, mem_committedBy.mpr (.inl ⟨r, hr, hstay⟩), hrpair, hwins, hactive⟩

end Commit

variable (plan) in
theorem Inv.oneActive (hinv : Inv plan h s) (hle : ∀ pair, (s.active pair).length ≤ 1) :
    OneActive plan h s := by
  refine fun pair ↦ ⟨hle pair, fun t ht ↦ ?_⟩
  obtain ⟨r, hr, hpair, hwins, hactive⟩ := hinv.last pair t ht
  have hmem : r ∈ s.active pair := mem_active.mpr ⟨hr, hpair, hactive⟩
  match hs : s.active pair with
  | [] =>
    rw [hs] at hmem
    cases hmem
  | [r'] =>
    rw [hs] at hmem
    rw [mem_singleton.mp hmem] at hwins
    exact ⟨r', rfl, hwins⟩
  | _ :: _ :: _ =>
    have hlen := hle pair
    rw [hs] at hlen
    simp at hlen

theorem Inv.commit_in_turn (hinv : Inv plan h s) (hp : s.phase t = .running p)
    (hwaiting : p.waiting = []) (hrest : p.rest = []) (hactivated : p.activated = p.winnerId.isSome)
    (hturn : overtaken plan t h = false) (hle : ∀ pair, (s.active pair).length ≤ 1) :
    ((s.committedBy t p.struck).active pair).length ≤ 1 := by
  obtain ⟨w, hw, hwins, hactive, honly⟩ := hinv.winner hp hrest hactivated
  have hkeyed : (s.committedBy t p.struck).Keyed plan := hinv.keyed.committedBy
  rw [hkeyed.active_le_one_iff]
  have hmem {r : ModelVersion} (hr : r ∈ (s.committedBy t p.struck).active pair) :
      (pair = (plan t).pair ∧ r = w) ∨ (pair ≠ (plan t).pair ∧ r ∈ s.active pair) := by
    obtain ⟨hr, hpair, hactive'⟩ := mem_active.mp hr
    rcases mem_committedBy.mp hr with ⟨r', hr', rfl⟩ | hr
    · rw [strike_pair] at hpair
      by_cases hsame : r'.pair = (plan t).pair
      · have htarget := (hinv.sound t p hp).inTurn hturn r' hr' hsame
        rw [mem_targets, hwaiting] at htarget
        rw [strike_inactive (htarget.resolve_left not_mem_nil)] at hactive'
        cases hactive'
      · rw [hinv.strike_pair_ne hp hr' hsame] at hactive' ⊢
        exact .inr ⟨fun heq ↦ hsame (hpair.trans heq), mem_active.mpr ⟨hr', hpair, hactive'⟩⟩
    · exact .inl ⟨hpair.symm.trans (hinv.keyed.pair _ hr), honly r hr hactive'⟩
  intro a ha b hb
  rcases hmem ha with ⟨hpair, rfl⟩ | ⟨hpair, ha'⟩
  · rcases hmem hb with ⟨-, rfl⟩ | ⟨hne, -⟩
    · rfl
    · exact absurd hpair hne
  · rcases hmem hb with ⟨heq, -⟩ | ⟨-, hb'⟩
    · exact absurd heq hpair
    · exact hinv.keyed.active_le_one_iff.mp (hle pair) a ha' b hb'

theorem Inv.commit_overtaken (hinv : Inv plan h s) (hp : s.phase t = .running p)
    (hrest : p.rest = []) (hactivated : p.activated = p.winnerId.isSome)
    (hturn : overtaken plan t h = true) :
    1 < ((s.committedBy t p.struck).active (plan t).pair).length := by
  obtain ⟨w, hw, hwins, hactive, -⟩ := hinv.winner hp hrest hactivated
  obtain ⟨u, hu, r, hr, hrwins, hractive, hnot⟩ := (hinv.sound t p hp).overtaken hturn
  have hstay : r.strike p.struck = r :=
    strike_other (fun hid ↦ hnot (mem_targets.mpr (.inr hid)))
  have hrmem : r ∈ (s.committedBy t p.struck).active (plan t).pair :=
    mem_active.mpr ⟨mem_committedBy.mpr (.inl ⟨r, hr, hstay⟩),
      hrwins.1.trans (lastCommitted_pair hu), hractive⟩
  have hwmem : w ∈ (s.committedBy t p.struck).active (plan t).pair :=
    mem_active.mpr ⟨mem_committedBy.mpr (.inr hw), hwins.1, hactive⟩
  by_contra hle
  have hkeyed : (s.committedBy t p.struck).Keyed plan := hinv.keyed.committedBy
  have heq := hkeyed.active_le_one_iff.mp (Nat.le_of_not_lt hle) r hrmem w hwmem
  exact hinv.keyed.id_ne hr hw (congrArg ModelVersion.id heq)

theorem commit_inv (hs : next plan s (.commit t) = some s') :
    ∃ p, s.phase t = .running p ∧ p.waiting = [] ∧ p.rest = [] ∧
      p.activated = p.winnerId.isSome ∧ s' = s.committedBy t p.struck := by
  obtain ⟨p, hp, hcommit⟩ := running_eq_some hs
  exact ⟨p, hp, commit_eq_some hcommit⟩

theorem Inv.step {action : Action ι} (hinv : Inv plan h s) (hs : next plan s action = some s') :
    Inv plan (h ++ [action]) s' := by
  cases action with
  | snapshot t => exact hinv.snapshot hs
  | strike t id => exact hinv.strike hs
  | insert t => exact hinv.insert hs
  | activate t => exact hinv.activate hs
  | commit t =>
    obtain ⟨p, hp, -, hrest, hactivated, rfl⟩ := commit_inv hs
    exact hinv.committedBy hp hrest hactivated
  | abort t => exact hinv.abort hs

theorem next_rows {action : Action ι} (hs : next plan s action = some s')
    (haction : ∀ t, action ≠ .commit t) : s'.rows = s.rows := by
  cases action with
  | snapshot t =>
    rw [next] at hs
    split at hs
    · rw [← Option.some.inj hs]
      rfl
    · cases hs
  | strike t id =>
    obtain ⟨p, -, hstrike⟩ := running_eq_some hs
    rw [Progress.strike] at hstrike
    split at hstrike
    · rw [← Option.some.inj hstrike]
    · cases hstrike
  | insert t =>
    obtain ⟨p, -, hinsert⟩ := running_eq_some hs
    obtain ⟨name, rest, -, -, -, rfl⟩ := insert_eq_some hinsert
    rfl
  | activate t =>
    obtain ⟨p, -, hactivate⟩ := running_eq_some hs
    obtain ⟨id, -, -, -, rfl⟩ := activate_eq_some hactivate
    rfl
  | commit t => exact absurd rfl (haction t)
  | abort t =>
    obtain ⟨p, -, habort⟩ := running_eq_some hs
    rw [← Option.some.inj habort]
    rfl

theorem Inv.start (hs : s.Initial) : Inv plan [] s where
  keyed :=
    { nodup := by
        rw [Registry.ids, hs.uncommitted, map_nil, append_nil]
        exact hs.nodup
      fresh := by
        rw [Registry.ids, hs.uncommitted, map_nil, append_nil]
        intro id hid
        obtain ⟨r, hr, rfl⟩ := mem_map.mp hid
        exact hs.fresh r hr
      pair := by simp [hs.uncommitted]
      version := by simp [hs.uncommitted]
      running := by simp [hs.uncommitted] }
  sound := by
    intro t p hp
    rw [hs.ready t] at hp
    cases hp
  last := by
    intro pair t ht
    cases ht

theorem InTurn.of_append {back : List (Action ι)} (hturn : InTurn plan (h ++ back)) :
    InTurn plan h := by
  intro a t b hab
  exact hturn a t (b ++ back) (by rw [hab, append_assoc, cons_append])

theorem Inv.at_most_one {action : Action ι} (hinv : Inv plan h s)
    (hs : next plan s action = some s') (hturn : InTurn plan (h ++ [action]))
    (hle : ∀ pair, (s.active pair).length ≤ 1) (pair : Pair) :
    (s'.active pair).length ≤ 1 := by
  by_cases haction : ∃ t, action = .commit t
  · obtain ⟨t, rfl⟩ := haction
    obtain ⟨p, hp, hwaiting, hrest, hactivated, rfl⟩ := commit_inv hs
    exact hinv.commit_in_turn hp hwaiting hrest hactivated (hturn h t [] rfl) hle
  · rw [Registry.active, next_rows hs (fun t ht ↦ haction ⟨t, ht⟩)]
    exact hle pair

/-- The passes of a run commit in their turn when and only when the registry keeps at most
one active row of each pair, that of the last to commit. -/
theorem one_active_iff {actions : List (Action ι)} (hs : s.Initial)
    (hone : ∀ pair, (s.active pair).length ≤ 1) (hrun : Runs plan s actions s') :
    (∀ front back u, actions = front ++ back → Runs plan s front u → OneActive plan front u) ↔
      InTurn plan actions := by
  constructor
  · intro hkept front t back hsplit
    rw [hsplit, ← singleton_append, ← append_assoc] at hrun
    obtain ⟨v, hfront, -⟩ := hrun.split
    obtain ⟨u, hu, hcommit⟩ := hfront.split
    have hinv : Inv plan front u :=
      hu.preserves_history (fun _ _ _ _ hinv _ hnext ↦ hinv.step hnext) (Inv.start hs)
    cases hcommit with
    | cons _ hnext hnil =>
      cases hnil
      obtain ⟨p, hp, -, hrest, hactivated, rfl⟩ := commit_inv hnext
      rw [Bool.eq_false_iff]
      intro hturn
      have hle := (hkept (front ++ [.commit t]) back _ (by simp [hsplit]) hfront
        (plan t).pair).1
      exact absurd hle (Nat.not_le.mpr (hinv.commit_overtaken hp hrest hactivated hturn))
  · intro hturn front back u hsplit hu
    rw [hsplit] at hturn
    have hkeep : Inv plan front u ∧
        (InTurn plan front → ∀ pair, (u.active pair).length ≤ 1) := by
      refine hu.preserves_history
        (I := fun front u ↦ Inv plan front u ∧
          (InTurn plan front → ∀ pair, (u.active pair).length ≤ 1)) ?_
        ⟨Inv.start hs, fun _ ↦ hone⟩
      rintro front s action s' ⟨hinv, hle⟩ - hnext
      exact ⟨hinv.step hnext, fun hall ↦ hinv.at_most_one hnext hall (hle hall.of_append)⟩
    exact hkeep.1.oneActive plan (hkeep.2 hturn.of_append)

section Fixture

def goldDay : Pair where
  symbol := "IR_GOLD_18K"
  horizon := "1d"

def twoPasses : Bool → Pass
  | false =>
    { pair := goldDay
      version := "2026-09-09T10:00:00Z"
      candidates := ["naive"]
      winner := "naive"
      winner_mem := mem_singleton.mpr rfl }
  | true =>
    { pair := goldDay
      version := "2026-09-09T10:01:00Z"
      candidates := ["naive"]
      winner := "naive"
      winner_mem := mem_singleton.mpr rfl }

def trained : Registry Bool where
  rows := [⟨1, goldDay, "naive", "2026-09-02T10:00:00Z", true⟩]
  uncommitted := []
  lock := fun _ ↦ none
  nextId := 2
  phase := fun _ ↦ .ready

theorem trained_initial : trained.Initial where
  ready := fun _ ↦ rfl
  uncommitted := rfl
  unlocked := fun _ ↦ rfl
  nodup := nodup_singleton _
  fresh := fun r hr ↦ by
    rw [mem_singleton.mp hr]
    exact Nat.lt_succ_self 1

theorem trained_one (pair : Pair) : (trained.active pair).length ≤ 1 :=
  length_filter_le _ _

def whole (t : Bool) (ids : List ℕ) : List (Action Bool) :=
  .snapshot t :: ids.map (.strike t) ++ [.insert t, .activate t, .commit t]

def overlapping : List (Action Bool) :=
  [.snapshot false, .snapshot true, .strike false 1, .insert false, .activate false,
    .commit false, .strike true 1, .insert true, .activate true, .commit true]

def ends (actions : List (Action Bool)) : Option (Registry Bool) :=
  execute (next twoPasses) (fun _ _ ↦ true) trained actions

theorem runs_of_ends {actions : List (Action Bool)} {s : Registry Bool}
    (h : ends actions = some s) : Runs twoPasses trained actions s :=
  (run_of_execute h).mono (fun _ _ _ ↦ trivial)

theorem two_active : (twoPasses false).version ≠ (twoPasses true).version ∧ trained.Initial ∧
    (∀ pair, (trained.active pair).length ≤ 1) ∧
    ∃ s, Runs twoPasses trained overlapping s ∧ (s.active goldDay).length = 2 := by
  refine ⟨by decide, trained_initial, trained_one, ?_⟩
  have hends : (ends overlapping).map (fun s ↦ (s.active goldDay).length) = some 2 := by
    decide
  obtain ⟨s, hs, hlength⟩ := Option.map_eq_some_iff.mp hends
  exact ⟨s, runs_of_ends hs, hlength⟩

def inSequence : List (Action Bool) := whole false [1] ++ whole true [1, 2]

theorem one_active_in_sequence : ∃ s, Runs twoPasses trained inSequence s ∧
    ((∀ front back u, inSequence = front ++ back → Runs twoPasses trained front u →
      OneActive twoPasses front u) ↔ InTurn twoPasses inSequence) := by
  have hends : (ends inSequence).isSome = true := by decide
  obtain ⟨s, hs⟩ := Option.isSome_iff_exists.mp hends
  exact ⟨s, runs_of_ends hs, one_active_iff trained_initial trained_one (runs_of_ends hs)⟩

end Fixture

end TalaPala.Forecast
