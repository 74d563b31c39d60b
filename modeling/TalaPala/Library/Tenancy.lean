import Mathlib.Algebra.Order.Ring.Int
import Mathlib.Data.Int.Interval

namespace TalaPala.Library

open List

structure Owned (U α : Type*) where
  owner : U
  row : α

namespace Owned

variable {U α β : Type*} [DecidableEq U] {u v : U} {l : List (Owned U α)}

def own (u : U) (l : List (Owned U α)) : List α :=
  l.filterMap (fun x ↦ if x.owner = u then some x.row else none)

@[simp] theorem own_nil : own u ([] : List (Owned U α)) = [] := rfl

@[simp] theorem own_cons_self (x : α) : own u (⟨u, x⟩ :: l) = x :: own u l := by
  simp [own]

theorem own_cons_of_ne {x : Owned U α} (h : x.owner ≠ u) : own u (x :: l) = own u l := by
  simp [own, h]

@[simp] theorem own_append (l' : List (Owned U α)) : own u (l ++ l') = own u l ++ own u l' :=
  filterMap_append

@[simp] theorem mem_own {x : α} : x ∈ own u l ↔ ⟨u, x⟩ ∈ l := by
  simp only [own, mem_filterMap, Option.ite_none_right_eq_some, Option.some.injEq]
  constructor
  · rintro ⟨⟨w, y⟩, hmem, rfl, rfl⟩
    exact hmem
  · intro hmem
    exact ⟨_, hmem, rfl, rfl⟩

theorem induction_on (u : U) {P : List (Owned U α) → Prop} (l : List (Owned U α)) (nil : P [])
    (mine : ∀ x l, P l → P (⟨u, x⟩ :: l))
    (other : ∀ x l, x.owner ≠ u → P l → P (x :: l)) : P l := by
  induction l with
  | nil => exact nil
  | cons x l ih =>
    by_cases h : x.owner = u
    · obtain ⟨_, _⟩ := x
      cases h
      exact mine _ _ ih
    · exact other _ _ h ih

theorem own_filter (p : Owned U α → Bool) :
    own u (l.filter p) = (own u l).filter (fun x ↦ p ⟨u, x⟩) := by
  induction l using induction_on u with
  | nil => rfl
  | mine x l ih =>
    rw [own_cons_self, filter_cons, filter_cons, ← ih]
    split
    · rw [own_cons_self]
    · rfl
  | other x l hx ih =>
    rw [own_cons_of_ne hx, ← ih]
    by_cases hp : p x
    · rw [filter_cons_of_pos hp, own_cons_of_ne hx]
    · rw [filter_cons_of_neg hp]

theorem own_map (f : Owned U α → β) :
    own u (l.map (fun x ↦ ⟨x.owner, f x⟩)) = (own u l).map (fun x ↦ f ⟨u, x⟩) := by
  induction l using induction_on u with
  | nil => rfl
  | mine x l ih => rw [map_cons, own_cons_self, own_cons_self, map_cons, ih]
  | other x l hx ih =>
    have hx' : (⟨x.owner, f x⟩ : Owned U β).owner ≠ u := hx
    rw [map_cons, own_cons_of_ne hx', own_cons_of_ne hx, ih]

section OwnReads

variable {p : Owned U α → Bool} {f : Owned U α → Option β}

theorem findSome?_own (hf : ∀ x, x.owner ≠ u → f x = none) :
    l.findSome? f = (own u l).findSome? (fun x ↦ f ⟨u, x⟩) := by
  induction l using induction_on u with
  | nil => rfl
  | mine x l ih => rw [own_cons_self, findSome?_cons, findSome?_cons, ih]
  | other x l hx ih => rw [own_cons_of_ne hx, findSome?_cons_of_isNone (by simp [hf x hx]), ih]

theorem countP_own (hp : ∀ x, p x → x.owner = u) :
    l.countP p = (own u l).countP (fun x ↦ p ⟨u, x⟩) := by
  induction l using induction_on u with
  | nil => rfl
  | mine x l ih => rw [own_cons_self, countP_cons, countP_cons, ih]
  | other x l hx ih => rw [own_cons_of_ne hx, countP_cons_of_neg (fun h ↦ hx (hp x h)), ih]

theorem find?_own (hp : ∀ x, p x → x.owner = u) :
    l.find? p = ((own u l).find? (fun x ↦ p ⟨u, x⟩)).map (Owned.mk u) := by
  induction l using induction_on u with
  | nil => rfl
  | mine x l ih =>
    rw [own_cons_self, find?_cons, find?_cons]
    cases p ⟨u, x⟩
    · exact ih
    · rfl
  | other x l hx ih => rw [own_cons_of_ne hx, find?_cons_of_neg (fun h ↦ hx (hp x h)), ih]

theorem map_row_filter_own (hp : ∀ x, p x → x.owner = u) :
    (l.filter p).map row = (own u l).filter (fun x ↦ p ⟨u, x⟩) := by
  induction l using induction_on u with
  | nil => rfl
  | mine x l ih =>
    rw [own_cons_self, filter_cons, filter_cons, ← ih]
    split <;> rfl
  | other x l hx ih =>
    rw [own_cons_of_ne hx, filter_cons_of_neg (fun h ↦ hx (hp x h)), ih]

theorem own_eraseP (hp : ∀ x, p x → x.owner = u) :
    own u (l.eraseP p) = (own u l).eraseP (fun x ↦ p ⟨u, x⟩) := by
  induction l using induction_on u with
  | nil => rfl
  | mine x l ih =>
    rw [own_cons_self, eraseP_cons, eraseP_cons, ← ih]
    cases p ⟨u, x⟩
    · exact own_cons_self x
    · rfl
  | other x l hx ih =>
    rw [own_cons_of_ne hx, eraseP_cons_of_neg (fun h ↦ hx (hp x h)), own_cons_of_ne hx, ih]

theorem own_eraseP_of_ne (hp : ∀ x, p x → x.owner ≠ u) : own u (l.eraseP p) = own u l := by
  induction l using induction_on u with
  | nil => rfl
  | mine x l ih =>
    rw [eraseP_cons_of_neg (fun h ↦ hp _ h rfl), own_cons_self, own_cons_self, ih]
  | other x l hx ih =>
    rw [own_cons_of_ne hx]
    by_cases h : p x
    · rw [eraseP_cons_of_pos h]
    · rw [eraseP_cons_of_neg h, own_cons_of_ne hx, ih]

end OwnReads

end Owned

section Unwinding

/-! What one party sees of a shared system is what it sees when it runs alone, up to a
renaming of its requests and of its answers. -/

variable {S E O : Type*} {step : S → E → S × O}

/-- The answers to the events that `mine` admits, along a run. -/
def answers (step : S → E → S × O) (mine : E → Bool) : S → List E → List O
  | _, [] => []
  | s, e :: es => (if mine e then [(step s e).2] else []) ++ answers step mine (step s e).1 es

theorem answers_eq_alone {mine : E → Bool} {rename : E → E} {renameAnswer : O → O}
    {R : List E → S → S → Prop} (hrename : ∀ e, mine e → mine (rename e))
    (hother : ∀ {e es s t}, mine e = false → R (e :: es) s t → R es (step s e).1 t)
    (hmine : ∀ {e es s t}, mine e → R (e :: es) s t →
      R es (step s e).1 (step t (rename e)).1 ∧
        (step t (rename e)).2 = renameAnswer (step s e).2)
    {es : List E} {s t : S} (h : R es s t) :
    answers step mine t ((es.filter mine).map rename) =
      (answers step mine s es).map renameAnswer := by
  induction es generalizing s t with
  | nil => rfl
  | cons e es ih =>
    by_cases he : mine e
    · obtain ⟨hnext, hanswer⟩ := hmine he h
      rw [filter_cons_of_pos he, map_cons, answers, answers, if_pos (hrename e he),
        if_pos he, hanswer, ih hnext, map_append, map_singleton]
    · rw [filter_cons_of_neg he, answers, if_neg he, nil_append]
      exact ih (hother (Bool.eq_false_iff.mpr he) h)

end Unwinding

section Renumbering

/-! Positive numbers handed out to one party, counted again from one. -/

/-- How many numbers of a set lie below `x`. -/
def rank (S : Finset ℤ) (x : ℤ) : ℕ := (S.filter (· < x)).card

def renumber (S : Finset ℤ) (x : ℤ) : ℤ :=
  if x ∈ S then 1 + rank S x
  else if x < 1 then x
  else x + (S.filter (x < ·)).card

variable {S : Finset ℤ} {x y : ℤ}

theorem rank_succ_of_mem (h : x ∈ S) : rank S (x + 1) = rank S x + 1 := by
  have hinsert : S.filter (· < x + 1) = insert x (S.filter (· < x)) := by
    ext y
    simp only [Finset.mem_filter, Finset.mem_insert]
    constructor
    · rintro ⟨hy, hlt⟩
      rcases (Int.lt_add_one_iff.mp hlt).eq_or_lt with heq | hlt'
      · exact .inl heq
      · exact .inr ⟨hy, hlt'⟩
    · rintro (rfl | ⟨hy, hlt⟩)
      · exact ⟨h, lt_add_one y⟩
      · exact ⟨hy, hlt.trans (lt_add_one x)⟩
  rw [rank, hinsert, Finset.card_insert_of_notMem (by simp), rank]

theorem rank_succ_of_notMem (h : x ∉ S) : rank S (x + 1) = rank S x := by
  rw [rank, rank]
  congr 1
  refine Finset.filter_congr (fun y hy ↦ ?_)
  have hne : y ≠ x := fun heq ↦ h (heq ▸ hy)
  omega

theorem rank_lt_rank (hx : x ∈ S) (hlt : x < y) : rank S x < rank S y := by
  rw [rank, rank]
  refine Finset.card_lt_card (Finset.ssubset_iff_of_subset ?_ |>.mpr ⟨x, ?_, ?_⟩)
  · exact Finset.monotone_filter_right S (fun z _ hz ↦ hz.trans hlt)
  · exact Finset.mem_filter.mpr ⟨hx, hlt⟩
  · simp

theorem renumber_of_mem (h : x ∈ S) : renumber S x = 1 + rank S x := if_pos h

theorem renumber_lt_renumber (hx : x ∈ S) (hy : y ∈ S) (hlt : x < y) :
    renumber S x < renumber S y := by
  rw [renumber_of_mem hx, renumber_of_mem hy]
  have hrank := rank_lt_rank hx hlt
  omega

theorem renumber_of_lt_one (hS : ∀ y ∈ S, 1 ≤ y) (h : x < 1) : renumber S x = x := by
  rw [renumber, if_neg (fun hx ↦ absurd (hS x hx) (not_le.mpr h)), if_pos h]

theorem renumber_of_above (h : ∀ y ∈ S, y < x) : renumber S x = x := by
  have hnone : S.filter (x < ·) = ∅ := Finset.filter_eq_empty_iff.mpr (fun y hy ↦ (h y hy).not_gt)
  rw [renumber, if_neg (fun hx ↦ (h x hx).ne rfl), hnone, Finset.card_empty]
  split <;> simp

theorem card_above_le (hy : y ∉ S) (hlt : x < y) :
    ((S.filter (x < ·)).card : ℤ) ≤ (S.filter (y < ·)).card + (y - x - 1) := by
  have hsubset : S.filter (x < ·) ⊆ S.filter (y < ·) ∪ Finset.Ioo x y := by
    intro z hz
    obtain ⟨hmem, hxz⟩ := Finset.mem_filter.mp hz
    have hne : z ≠ y := fun heq ↦ hy (heq ▸ hmem)
    rw [Finset.mem_union, Finset.mem_filter, Finset.mem_Ioo]
    rcases hne.lt_or_gt with hzy | hyz
    · exact .inr ⟨hxz, hzy⟩
    · exact .inl ⟨hmem, hyz⟩
  have hcard := (Finset.card_le_card hsubset).trans (Finset.card_union_le _ _)
  rw [Int.card_Ioo] at hcard
  omega

theorem card_le_sub_one (hS : ∀ y ∈ S, 1 ≤ y) (hx : x ∉ S) (h1 : 1 ≤ x) :
    (S.card : ℤ) ≤ x - 1 + (S.filter (x < ·)).card := by
  have hall : S.filter ((0 : ℤ) < ·) = S := Finset.filter_true_of_mem (fun y hy ↦ hS y hy)
  have hcard := card_above_le hx (show 0 < x from h1)
  rw [hall] at hcard
  omega

theorem rank_lt_card (h : x ∈ S) : rank S x < S.card := by
  refine Finset.card_lt_card (Finset.ssubset_iff_of_subset (Finset.filter_subset _ _) |>.mpr ?_)
  exact ⟨x, h, by simp⟩

theorem renumber_injective (hS : ∀ y ∈ S, 1 ≤ y) : Function.Injective (renumber S) := by
  -- The set goes onto the first numbers, in order, and the others go behind, in order.
  have hne : ∀ x y, x < y → renumber S x ≠ renumber S y := by
    intro x y hlt
    by_cases hx : x ∈ S <;> by_cases hy : y ∈ S
    · exact (renumber_lt_renumber hx hy hlt).ne
    · have h1 : ¬y < 1 := by have := hS x hx; omega
      have hbehind := card_le_sub_one hS hy (by omega)
      have hfirst := rank_lt_card hx
      rw [renumber_of_mem hx, renumber, if_neg hy, if_neg h1]
      omega
    · have hfirst := rank_lt_card hy
      rw [renumber_of_mem hy, renumber, if_neg hx]
      split
      · omega
      · have hbehind := card_le_sub_one hS hx (by omega)
        omega
    · have hstep := card_above_le hy hlt
      rw [renumber, renumber, if_neg hx, if_neg hy]
      split <;> split <;> omega
  intro x y h
  rcases lt_trichotomy x y with hlt | heq | hlt
  · exact absurd h (hne x y hlt)
  · exact heq
  · exact absurd h.symm (hne y x hlt)

end Renumbering

end TalaPala.Library
