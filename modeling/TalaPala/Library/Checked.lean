import Mathlib.Data.List.Nodup

namespace TalaPala.Library

open List

section Pointwise

variable {α β γ δ : Type*} {R : α → β → Prop} {S : γ → δ → Prop}

theorem rel_map {f : α → γ} {g : β → δ} (hfg : ∀ a b, R a b → S (f a) (g b)) {o : Option α}
    {o' : Option β} (h : Option.Rel R o o') : Option.Rel S (o.map f) (o'.map g) := by
  cases h with
  | none => exact .none
  | some h => exact .some (hfg _ _ h)

theorem forall₂_find? {p : α → Bool} {q : β → Bool} (hpq : ∀ a b, R a b → p a = q b)
    {l : List α} {l' : List β} (h : List.Forall₂ R l l') :
    Option.Rel R (l.find? p) (l'.find? q) := by
  induction h with
  | nil => exact .none
  | cons hab _ ih =>
    rw [find?_cons, find?_cons, hpq _ _ hab]
    split
    · exact .some hab
    · exact ih

theorem forall₂_filterMap {f : α → Option γ} {g : β → Option δ}
    (hfg : ∀ a b, R a b → Option.Rel S (f a) (g b)) {l : List α} {l' : List β}
    (h : List.Forall₂ R l l') : List.Forall₂ S (l.filterMap f) (l'.filterMap g) := by
  induction h with
  | nil => exact .nil
  | @cons a b _ _ hab _ ih =>
    have hrel := hfg a b hab
    rw [filterMap_cons, filterMap_cons]
    generalize f a = o, g b = o' at hrel
    cases hrel with
    | none => exact ih
    | some hcd => exact .cons hcd ih

theorem exists_of_mem_left {l : List α} {out : List β} (h : List.Forall₂ R l out) {a : α}
    (ha : a ∈ l) : ∃ b ∈ out, R a b := by
  induction h with
  | nil => cases ha
  | cons hab _ ih =>
    cases mem_cons.mp ha with
    | inl heq => exact ⟨_, mem_cons_self, heq ▸ hab⟩
    | inr hrest =>
      obtain ⟨b, hb, hR⟩ := ih hrest
      exact ⟨b, mem_cons_of_mem _ hb, hR⟩

theorem exists_of_mem_right {l : List α} {out : List β} (h : List.Forall₂ R l out) {b : β}
    (hb : b ∈ out) : ∃ a ∈ l, R a b :=
  exists_of_mem_left h.flip hb

theorem map_eq_of_forall₂ {g : β → γ} {k : α → γ} {l : List α} {out : List β}
    (h : List.Forall₂ R l out) (hR : ∀ a b, R a b → g b = k a) : out.map g = l.map k := by
  induction h with
  | nil => rfl
  | cons hab _ ih => rw [map_cons, map_cons, hR _ _ hab, ih]

theorem forall₂_filter {p : α → Bool} {q : β → Bool} (hpq : ∀ a b, R a b → p a = q b)
    {l : List α} {l' : List β} (h : List.Forall₂ R l l') :
    List.Forall₂ R (l.filter p) (l'.filter q) := by
  induction h with
  | nil => exact .nil
  | @cons a b _ _ hab _ ih =>
    rw [filter_cons, filter_cons, hpq a b hab]
    split
    · exact .cons hab ih
    · exact ih

theorem forall₂_getLast? {l : List α} {l' : List β} (h : List.Forall₂ R l l') :
    Option.Rel R l.getLast? l'.getLast? := by
  have hlast := List.forall₂_reverse_iff.mpr h
  rw [getLast?_eq_head?_reverse, getLast?_eq_head?_reverse]
  generalize l.reverse = m, l'.reverse = m' at hlast
  cases hlast with
  | nil => exact .none
  | cons hab _ => exact .some hab

theorem map_filterMap_sublist {f : α → Option β} {g : β → α} (h : ∀ a b, f a = some b → g b = a)
    (l : List α) : ((l.filterMap f).map g).Sublist l := by
  induction l with
  | nil => exact .slnil
  | cons a l ih =>
    rw [filterMap_cons]
    cases hf : f a with
    | none => exact ih.cons a
    | some b =>
      rw [map_cons, h a b hf]
      exact ih.cons_cons a

theorem forall₂_foldl {f : γ → α → γ} {g : δ → β → δ}
    (hstep : ∀ c d a b, S c d → R a b → S (f c a) (g d b)) {l : List α} {l' : List β}
    (h : List.Forall₂ R l l') {c : γ} {d : δ} (hcd : S c d) : S (l.foldl f c) (l'.foldl g d) := by
  induction h generalizing c d with
  | nil => exact hcd
  | cons hab _ ih => exact ih (hstep _ _ _ _ hcd hab)

theorem forall₂_countP_le {p : α → Bool} {q : β → Bool} (hpq : ∀ a b, R a b → p a → q b)
    {l : List α} {l' : List β} (h : List.Forall₂ R l l') : l.countP p ≤ l'.countP q := by
  induction h with
  | nil => exact Nat.le_refl 0
  | @cons a b _ _ hab _ ih =>
    rw [countP_cons, countP_cons]
    have hhead : (if p a then 1 else 0) ≤ if q b then 1 else 0 := by
      split_ifs with ha hb
      · exact Nat.le_refl 1
      · exact absurd (hpq a b hab ha) hb
      · exact Nat.zero_le 1
      · exact Nat.le_refl 0
    exact Nat.add_le_add ih hhead

theorem exists_perm_forall₂ {κ : Type*} {key : α → κ} {key' : β → κ} {l : List α} {l' : List β}
    (hl : (l.map key).Nodup) (hl' : (l'.map key').Nodup) (hkeys : ∀ b ∈ l', key' b ∈ l.map key)
    (hR : ∀ a ∈ l, ∃ b ∈ l', key' b = key a ∧ R a b) :
    ∃ m, m.Perm l' ∧ List.Forall₂ R l m := by
  induction l generalizing l' with
  | nil =>
    cases l' with
    | nil => exact ⟨[], .nil, .nil⟩
    | cons b _ => exact absurd (hkeys b mem_cons_self) not_mem_nil
  | cons a l ih =>
    obtain ⟨hnew, hrest⟩ := nodup_cons.mp hl
    obtain ⟨b, hb, hkey, hab⟩ := hR a mem_cons_self
    obtain ⟨front, back, rfl⟩ := append_of_mem hb
    have hperm : (front ++ b :: back).Perm (b :: (front ++ back)) := perm_middle
    have hdistinct := (hperm.map key').nodup_iff.mp hl'
    obtain ⟨hout, hothers⟩ := nodup_cons.mp hdistinct
    have hkeysRest : ∀ c ∈ front ++ back, key' c ∈ l.map key := by
      intro c hc
      rcases mem_cons.mp (hkeys c (hperm.mem_iff.mpr (mem_cons_of_mem b hc)))
        with heq | hmem
      · exact absurd (mem_map.mpr ⟨c, hc, heq.trans hkey.symm⟩) hout
      · exact hmem
    have hRRest : ∀ c ∈ l, ∃ d ∈ front ++ back, key' d = key c ∧ R c d := by
      intro c hc
      obtain ⟨d, hd, hdkey, hcd⟩ := hR c (mem_cons_of_mem a hc)
      rcases mem_cons.mp (hperm.mem_iff.mp hd) with rfl | hd
      · exact absurd (mem_map.mpr ⟨c, hc, hdkey.symm.trans hkey⟩) hnew
      · exact ⟨d, hd, hdkey, hcd⟩
    obtain ⟨m, hm, hforall⟩ := ih hrest hothers hkeysRest hRRest
    exact ⟨b :: m, (hm.cons b).trans hperm.symm, .cons hab hforall⟩

end Pointwise

section Lookup

variable {κ ν : Type*} [BEq κ] [LawfulBEq κ] {k : κ} {v : ν} {l : List (κ × ν)}

theorem mem_of_lookup (h : l.lookup k = some v) : (k, v) ∈ l := by
  obtain ⟨front, back, rfl, _⟩ := lookup_eq_some_iff.mp h
  exact mem_append_right front mem_cons_self

theorem lookup_of_mem (hkeys : (l.map Prod.fst).Nodup) (h : (k, v) ∈ l) : l.lookup k = some v := by
  obtain ⟨front, back, rfl⟩ := append_of_mem h
  refine lookup_eq_some_iff.mpr ⟨front, back, rfl, fun p hp ↦ ?_⟩
  rw [map_append, map_cons] at hkeys
  have hnew := (nodup_append.mp hkeys).2.2 p.1 (mem_map_of_mem hp) k mem_cons_self
  exact bne_iff_ne.mpr hnew.symm

end Lookup

section Checked

universe u

variable {ε : Type*} {α β γ : Type u}

theorem bind_eq_ok {x : Except ε α} {f : α → Except ε β} {b : β} :
    x >>= f = .ok b ↔ ∃ a, x = .ok a ∧ f a = .ok b := by
  cases x with
  | error e =>
    constructor
    · intro h
      cases h
    · intro h
      obtain ⟨_, h, _⟩ := h
      cases h
  | ok a => exact ⟨fun h ↦ ⟨a, rfl, h⟩, fun ⟨_, h, hb⟩ ↦ Except.ok.inj h ▸ hb⟩

variable {f : α → Except ε β} {l : List α} {out : List β}

theorem exists_mapM (h : ∀ a ∈ l, ∃ b, f a = .ok b) : ∃ out, l.mapM f = .ok out := by
  induction l with
  | nil => exact ⟨[], rfl⟩
  | cons a l ih =>
    obtain ⟨b, hb⟩ := h a mem_cons_self
    obtain ⟨out, hout⟩ := ih (fun a' ha' ↦ h a' (mem_cons_of_mem _ ha'))
    refine ⟨b :: out, ?_⟩
    rw [mapM_cons, hb, hout]
    rfl

theorem forall₂_of_mapM (h : l.mapM f = .ok out) :
    List.Forall₂ (fun a b ↦ f a = .ok b) l out := by
  induction l generalizing out with
  | nil =>
    obtain rfl : [] = out := Except.ok.inj h
    exact .nil
  | cons a l ih =>
    rw [mapM_cons, bind_eq_ok] at h
    obtain ⟨b, hb, h⟩ := h
    obtain ⟨rest, hrest, h⟩ := bind_eq_ok.mp h
    obtain rfl : b :: rest = out := Except.ok.inj h
    exact .cons hb (ih hrest)

theorem exists_mapM_forall₂ {α β : Type u} {f : α → Option β} {P : α → β → Prop} {l : List α}
    (h : ∀ a ∈ l, ∃ b, f a = some b ∧ P a b) :
    ∃ out, l.mapM f = some out ∧ List.Forall₂ P l out := by
  induction l with
  | nil => exact ⟨[], rfl, .nil⟩
  | cons a l ih =>
    obtain ⟨⟨b, hb, hp⟩, hrest⟩ := forall_mem_cons.mp h
    obtain ⟨out, hout, hforall⟩ := ih hrest
    exact ⟨b :: out, by simp [mapM_cons, hb, hout], .cons hp hforall⟩

theorem eq_ok_of_forM {g : α → Except ε PUnit.{u + 1}} (h : l.forM g = .ok ⟨⟩) :
    ∀ a ∈ l, g a = .ok ⟨⟩ := by
  induction l with
  | nil => exact fun a ha ↦ absurd ha not_mem_nil
  | cons a l ih =>
    obtain ⟨_, ha, hrest⟩ := bind_eq_ok.mp h
    exact forall_mem_cons.mpr ⟨ha, ih hrest⟩

theorem exists_of_foldlM {g : β → α → Except ε β} {l : List α} {b out : β}
    (h : l.foldlM g b = .ok out) : ∀ a ∈ l, ∃ c d, g c a = .ok d := by
  induction l generalizing b with
  | nil => exact fun a ha ↦ absurd ha not_mem_nil
  | cons a l ih =>
    rw [foldlM_cons, bind_eq_ok] at h
    obtain ⟨d, hd, hrest⟩ := h
    exact forall_mem_cons.mpr ⟨⟨b, d, hd⟩, ih hrest⟩

end Checked

section SameOutcome

universe u

variable {ε : Type*} {α β γ δ : Type u} {R : α → β → Prop} {S : γ → δ → Prop}

inductive SameOutcome (R : α → β → Prop) : Except ε α → Except ε β → Prop
  | refused (e e' : ε) : SameOutcome R (.error e) (.error e')
  | passed {a : α} {b : β} (h : R a b) : SameOutcome R (.ok a) (.ok b)

theorem SameOutcome.bind {x : Except ε α} {y : Except ε β} (h : SameOutcome R x y)
    {f : α → Except ε γ} {g : β → Except ε δ}
    (hfg : ∀ a b, R a b → SameOutcome S (f a) (g b)) : SameOutcome S (x >>= f) (y >>= g) := by
  cases h with
  | refused e e' => exact .refused e e'
  | passed h => exact hfg _ _ h

theorem SameOutcome.ok_left {x : Except ε α} {y : Except ε β} (h : SameOutcome R x y) {a : α}
    (hx : x = .ok a) : ∃ b, y = .ok b ∧ R a b := by
  cases h with
  | refused => cases hx
  | passed h => exact Except.ok.inj hx ▸ ⟨_, rfl, h⟩

theorem sameOutcome_mapM {P : α → β → Prop} {f : α → Except ε γ} {g : β → Except ε δ}
    (hfg : ∀ a b, P a b → SameOutcome S (f a) (g b)) {l : List α} {l' : List β}
    (h : List.Forall₂ P l l') : SameOutcome (List.Forall₂ S) (l.mapM f) (l'.mapM g) := by
  induction h with
  | nil => exact .passed .nil
  | cons hab _ ih =>
    rw [mapM_cons, mapM_cons]
    refine (hfg _ _ hab).bind (fun c d hcd ↦ ih.bind (fun cs ds hrest ↦ ?_))
    exact .passed (.cons hcd hrest)

theorem sameOutcome_foldlM {P : α → β → Prop} {f : γ → α → Except ε γ} {g : δ → β → Except ε δ}
    (hfg : ∀ c d a b, S c d → P a b → SameOutcome S (f c a) (g d b)) {l : List α} {l' : List β}
    (h : List.Forall₂ P l l') {c : γ} {d : δ} (hcd : S c d) :
    SameOutcome S (l.foldlM f c) (l'.foldlM g d) := by
  induction h generalizing c d with
  | nil => exact .passed hcd
  | cons hab _ ih =>
    rw [foldlM_cons, foldlM_cons]
    exact (hfg _ _ _ _ hcd hab).bind (fun _ _ hrest ↦ ih hrest)

end SameOutcome

end TalaPala.Library
