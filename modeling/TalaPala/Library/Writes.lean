import Mathlib.Data.List.Nodup

namespace TalaPala.Library

inductive Write (κ α : Type*)
  | put (key : κ) (value : α)
  | drop (key : κ)

namespace Write

variable {κ α : Type*}

def key : Write κ α → κ
  | put k _ => k
  | drop k => k

variable [DecidableEq κ]

def apply : Write κ α → (κ → Option α) → κ → Option α
  | put k v, t => Function.update t k ((t k).map (fun _ ↦ v))
  | drop k, t => Function.update t k none

def clashes : Write κ α → Write κ α → Bool
  | put k _, put k' _ => k = k'
  | _, _ => false

def settled (writes : List (Write κ α)) (t : κ → Option α) : κ → Option α :=
  writes.foldl (fun t w ↦ w.apply t) t

variable {t : κ → Option α}

theorem apply_of_ne (w : Write κ α) {k : κ} (h : w.key ≠ k) : w.apply t k = t k := by
  cases w <;> exact Function.update_of_ne (Ne.symm h) _ _

theorem apply_drop (k : κ) : (drop k : Write κ α).apply t k = none := Function.update_self _ _ _

theorem apply_put (k : κ) (v : α) : (put k v).apply t k = (t k).map (fun _ ↦ v) :=
  Function.update_self _ _ _

theorem apply_none (w : Write κ α) {k : κ} (h : t k = none) : w.apply t k = none := by
  by_cases hk : w.key = k
  · subst hk
    cases w with
    | put k v =>
      have hnone : t k = none := h
      have hput := apply_put (t := t) k v
      rwa [hnone, Option.map_none] at hput
    | drop k => exact apply_drop k
  · rw [apply_of_ne w hk, h]

theorem apply_congr (w : Write κ α) {t' : κ → Option α} {k : κ} (h : t k = t' k) :
    w.apply t k = w.apply t' k := by
  by_cases hk : w.key = k
  · subst hk
    cases w with
    | put k v =>
      have hrow : t k = t' k := h
      exact (apply_put k v).trans (hrow ▸ (apply_put k v).symm)
    | drop k => exact (apply_drop k).trans (apply_drop k).symm
  · rw [apply_of_ne w hk, apply_of_ne w hk, h]

theorem apply_comm {w w' : Write κ α} (h : w.clashes w' = false) :
    w.apply (w'.apply t) = w'.apply (w.apply t) := by
  funext k
  by_cases hk : w.key = k
  · by_cases hk' : w'.key = k
    · subst hk
      cases w with
      | put k v =>
        cases w' with
        | put k' v' => exact absurd hk'.symm (of_decide_eq_false h)
        | drop k' =>
          obtain rfl : k' = k := hk'
          have hgone : (drop k' : Write κ α).apply ((put k' v).apply t) k' = none := apply_drop k'
          exact (apply_none _ (apply_drop k')).trans hgone.symm
      | drop k =>
        have hgone : (drop k : Write κ α).apply (w'.apply t) k = none := apply_drop k
        exact hgone.trans (apply_none w' (apply_drop k)).symm
    · rw [apply_of_ne w' hk']
      exact apply_congr w (apply_of_ne w' hk')
  · rw [apply_of_ne w hk]
    exact apply_congr w' (apply_of_ne w hk).symm

theorem settled_cons (w : Write κ α) (writes : List (Write κ α)) :
    settled (w :: writes) t = settled writes (w.apply t) := rfl

theorem settled_append (writes more : List (Write κ α)) :
    settled (writes ++ more) t = settled more (settled writes t) := List.foldl_append

theorem settled_ahead {front back : List (Write κ α)} {w : Write κ α}
    (h : ∀ w' ∈ front, w.clashes w' = false) :
    settled (front ++ w :: back) t = settled (front ++ back) (w.apply t) := by
  induction front generalizing t with
  | nil => rfl
  | cons first front ih =>
    obtain ⟨hfirst, hrest⟩ := List.forall_mem_cons.mp h
    rw [List.cons_append, settled_cons, ih hrest, apply_comm hfirst]
    rfl

theorem settled_of_ne {writes : List (Write κ α)} {k : κ} (h : ∀ w ∈ writes, w.key ≠ k) :
    settled writes t k = t k := by
  induction writes generalizing t with
  | nil => rfl
  | cons w writes ih =>
    obtain ⟨hw, hrest⟩ := List.forall_mem_cons.mp h
    rw [settled_cons, ih hrest, apply_of_ne w hw]

theorem settled_none {writes : List (Write κ α)} {k : κ} (h : t k = none) :
    settled writes t k = none := by
  induction writes generalizing t with
  | nil => exact h
  | cons w writes ih => exact ih (apply_none w h)

theorem settled_of_mem {writes : List (Write κ α)} (hnodup : (writes.map key).Nodup)
    {w : Write κ α} (h : w ∈ writes) : settled writes t w.key = w.apply t w.key := by
  induction writes generalizing t with
  | nil => exact absurd h List.not_mem_nil
  | cons first writes ih =>
    obtain ⟨hnew, hrest⟩ := List.nodup_cons.mp hnodup
    rw [settled_cons]
    rcases List.mem_cons.mp h with rfl | hmem
    · exact settled_of_ne (fun w' hw' heq ↦ hnew (heq ▸ List.mem_map_of_mem hw'))
    · rw [ih hrest hmem]
      refine apply_congr w (apply_of_ne first (fun heq ↦ hnew ?_))
      exact heq ▸ List.mem_map_of_mem hmem

theorem settled_insert {writes : List (Write κ α)} {k : κ} (h : ∀ w ∈ writes, w.key ≠ k)
    (v : Option α) :
    settled writes (Function.update t k v) = Function.update (settled writes t) k v := by
  funext k'
  by_cases hk : k' = k
  · subst hk
    rw [settled_of_ne h, Function.update_self, Function.update_self]
  · rw [Function.update_of_ne hk]
    induction writes generalizing t with
    | nil => exact Function.update_of_ne hk _ _
    | cons w writes ih =>
      obtain ⟨hw, hrest⟩ := List.forall_mem_cons.mp h
      have hswap : w.apply (Function.update t k v) = Function.update (w.apply t) k v := by
        funext j
        by_cases hj : j = k
        · subst hj
          rw [apply_of_ne w hw, Function.update_self, Function.update_self]
        · rw [Function.update_of_ne hj]
          exact apply_congr w (Function.update_of_ne hj _ _)
      rw [settled_cons, settled_cons, hswap]
      exact ih hrest

end Write

end TalaPala.Library

namespace TalaPala.Library.ChangeLog

variable {κ ν : Type*}

inductive ChangeKind
  | added
  | modified
  | removed
  deriving DecidableEq

def Changed (previous current : κ → Option ν) (key : κ) : ChangeKind → Prop
  | .added => previous key = none ∧ (current key).isSome
  | .modified => (previous key).isSome ∧ (current key).isSome ∧ previous key ≠ current key
  | .removed => (previous key).isSome ∧ current key = none

variable {previous current : κ → Option ν} {key : κ}

theorem changed_iff : (∃ kind, Changed previous current key kind) ↔ previous key ≠ current key := by
  constructor
  · rintro ⟨kind, h⟩ heq
    cases kind with
    | added =>
      rw [Changed, heq] at h
      cases hk : current key <;> simp [hk] at h
    | modified => exact h.2.2 heq
    | removed =>
      rw [Changed, heq] at h
      cases hk : current key <;> simp [hk] at h
  · intro hne
    cases hp : previous key with
    | none =>
      cases hc : current key with
      | none => exact absurd (hp.trans hc.symm) hne
      | some _ => exact ⟨.added, hp, by rw [hc]; rfl⟩
    | some _ =>
      cases hc : current key with
      | none => exact ⟨.removed, by rw [hp]; rfl, hc⟩
      | some _ => exact ⟨.modified, by rw [hp]; rfl, by rw [hc]; rfl, hne⟩

theorem Changed.unique {kind kind' : ChangeKind} (h : Changed previous current key kind)
    (h' : Changed previous current key kind') : kind = kind' := by
  cases hp : previous key <;> cases hc : current key <;> cases kind <;> cases kind' <;>
    simp [Changed, hp, hc] at h h' ⊢

structure Update (κ ν : Type*) where
  key : κ
  value : Option ν

variable [DecidableEq κ]

def applyUpdate (m : κ → Option ν) (u : Update κ ν) : κ → Option ν :=
  Function.update m u.key u.value

theorem foldl_applyUpdate_of_not_mem {updates : List (Update κ ν)} {m : κ → Option ν}
    (h : key ∉ updates.map Update.key) : updates.foldl applyUpdate m key = m key := by
  induction updates generalizing m with
  | nil => rfl
  | cons u rest ih =>
    rw [List.map_cons, List.mem_cons, not_or] at h
    rw [List.foldl_cons, ih h.2, applyUpdate, Function.update_of_ne h.1]

theorem foldl_applyUpdate_of_mem {updates : List (Update κ ν)} {m target : κ → Option ν}
    (hvalue : ∀ u ∈ updates, u.value = target u.key) (h : key ∈ updates.map Update.key) :
    updates.foldl applyUpdate m key = target key := by
  induction updates generalizing m with
  | nil => cases h
  | cons u rest ih =>
    obtain ⟨hu, hrest⟩ := List.forall_mem_cons.mp hvalue
    rw [List.foldl_cons]
    by_cases hmem : key ∈ rest.map Update.key
    · exact ih hrest hmem
    · rw [List.map_cons, List.mem_cons] at h
      obtain rfl := h.resolve_right hmem
      rw [foldl_applyUpdate_of_not_mem hmem, applyUpdate, Function.update_self, hu]

theorem foldl_applyUpdate_eq {updates : List (Update κ ν)}
    (hvalue : ∀ u ∈ updates, u.value = current u.key)
    (hall : ∀ key, previous key ≠ current key → key ∈ updates.map Update.key) :
    updates.foldl applyUpdate previous = current := by
  funext key
  by_cases hmem : key ∈ updates.map Update.key
  · exact foldl_applyUpdate_of_mem hvalue hmem
  · rw [foldl_applyUpdate_of_not_mem hmem]
    by_contra hne
    exact hmem (hall key hne)

end TalaPala.Library.ChangeLog
