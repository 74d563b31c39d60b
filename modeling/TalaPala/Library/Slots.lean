import TalaPala.Library.Grouping
import Mathlib.Data.Int.Range
import Mathlib.Tactic.Linarith

namespace TalaPala.Library

open List

section Slots

variable {α β : Type*} (d : β)

/-- What stands at an integer index, `d` outside the list. -/
def slot (s : List β) (i : ℤ) : β := if i < 0 then d else s.getD i.toNat d

variable (pos : α → ℤ) (val : α → β)

def scatter (l : List α) (s : List β) : List β :=
  l.foldl (fun s a ↦ s.set (pos a).toNat (val a)) s

variable {d pos val}

theorem slot_of_neg {s : List β} {i : ℤ} (h : i < 0) : slot d s i = d := if_pos h

theorem slot_of_length_le {s : List β} {i : ℤ} (h : (s.length : ℤ) ≤ i) : slot d s i = d := by
  rw [slot, if_neg (by omega), getD_eq_getElem?_getD, getElem?_eq_none (by omega)]
  rfl

theorem slot_replicate (n : ℕ) (i : ℤ) : slot d (List.replicate n d) i = d := by
  rw [slot]
  split
  · rfl
  · rw [getD_eq_getElem?_getD, getElem?_replicate]
    split <;> rfl

theorem slot_set {s : List β} {i j : ℤ} (hi : 0 ≤ i) (hlen : i < s.length) (b : β) :
    slot d (s.set i.toNat b) j = if i = j then b else slot d s j := by
  rw [slot, slot]
  by_cases hj : j < 0
  · rw [if_pos hj, if_neg (by omega), if_pos hj]
  · rw [if_neg hj, if_neg hj, getD_eq_getElem?_getD, getElem?_set]
    by_cases hij : i = j
    · subst hij
      rw [if_pos rfl, if_pos rfl, if_pos (by omega)]
      rfl
    · rw [if_neg (by omega), if_neg hij, getD_eq_getElem?_getD]

theorem slot_scatter {l : List α} {s : List β} (h : ∀ a ∈ l, 0 ≤ pos a ∧ pos a < s.length) (i : ℤ) :
    slot d (scatter pos val l s) i =
      ((l.reverse.find? (fun a ↦ pos a = i)).map val).getD (slot d s i) := by
  induction l generalizing s with
  | nil => rfl
  | cons a l ih =>
    obtain ⟨ha, hlen⟩ := h a mem_cons_self
    have hl : ∀ b ∈ l, 0 ≤ pos b ∧ pos b < (s.set (pos a).toNat (val a)).length := by
      intro b hb
      rw [length_set]
      exact h b (mem_cons_of_mem _ hb)
    rw [scatter, foldl_cons, ← scatter, ih hl, slot_set ha hlen, reverse_cons, find?_append]
    cases l.reverse.find? (fun a ↦ pos a = i) with
    | some b => rfl
    | none =>
      by_cases hi : pos a = i
      · simp [hi]
      · simp [hi]

end Slots

section StepBack

variable (go : ℤ → Bool)

/-- `while go(j) { j-- }`, cut after a number of turns. -/
def stepBack : ℕ → ℤ → ℤ
  | 0, j => j
  | n + 1, j => if go j then stepBack n (j - 1) else j

theorem stepBack_spec {n : ℕ} {j : ℤ} (h : go (j - n) = false) :
    stepBack go n j ≤ j ∧ go (stepBack go n j) = false ∧
      ∀ i, stepBack go n j < i → i ≤ j → go i = true := by
  induction n generalizing j with
  | zero =>
    have hstop : go j = false := by simpa using h
    exact ⟨le_rfl, hstop, fun i hi hij ↦ absurd hij (not_le.mpr hi)⟩
  | succ n ih =>
    rw [stepBack]
    split
    · rename_i hgo
      obtain ⟨hle, hstop, hpassed⟩ := ih (j := j - 1) (by rw [← h]; congr 1; omega)
      refine ⟨by omega, hstop, fun i hi hij ↦ ?_⟩
      rcases eq_or_lt_of_le hij with rfl | hlt
      · exact hgo
      · exact hpassed i hi (by omega)
    · rename_i hgo
      exact ⟨le_rfl, by simpa using hgo, fun i hi hij ↦ absurd hij (not_le.mpr hi)⟩

/-- `b` is the newest index at or before `top` that `p` holds of. -/
structure IsNewest (p : ℤ → Prop) (top b : ℤ) : Prop where
  le : b ≤ top
  holds : p b
  newest : ∀ i, b < i → i ≤ top → ¬ p i

theorem IsNewest.unique {p q : ℤ → Prop} {top b c : ℤ} (h : IsNewest p top b)
    (h' : IsNewest q top c) (hpq : ∀ i ≤ top, p i ↔ q i) : b = c := by
  refine le_antisymm (not_lt.mp fun hlt ↦ ?_) (not_lt.mp fun hlt ↦ ?_)
  · exact h'.newest b hlt h.le ((hpq b h.le).mp h.holds)
  · exact h.newest c hlt h'.le ((hpq c h'.le).mpr h'.holds)

theorem IsNewest.shift {p : ℤ → Prop} {top b : ℤ} (h : IsNewest p top b) (c : ℤ) :
    IsNewest (fun i ↦ p (i - c)) (top + c) (b + c) := by
  refine ⟨by have := h.le; omega, ?_, fun i hi hit ↦ h.newest (i - c) (by omega) (by omega)⟩
  rw [add_sub_cancel_right]
  exact h.holds

end StepBack

section TakeWhile

variable {α κ : Type*} [LinearOrder κ] {start : α → κ}

theorem AscendingBy.takeWhile_eq_filter {l : List α} (h : AscendingBy start l) {p : κ → Bool}
    (hp : ∀ k k', k < k' → p k' = true → p k = true) :
    l.takeWhile (fun a ↦ p (start a)) = l.filter (fun a ↦ p (start a)) := by
  induction l with
  | nil => rfl
  | cons a l ih =>
    obtain ⟨ha, hl⟩ := pairwise_cons.mp h
    cases hpa : p (start a) with
    | true => simp only [takeWhile_cons, filter_cons, hpa, ih hl, ↓reduceIte]
    | false =>
      have hnone : ∀ b ∈ a :: l, ¬ p (start b) = true := by
        intro b hb hpb
        rcases mem_cons.mp hb with rfl | hb
        · rw [hpa] at hpb
          cases hpb
        · rw [hp _ _ (ha b hb) hpb] at hpa
          cases hpa
      rw [filter_eq_nil_iff.mpr hnone, takeWhile_cons, hpa]
      rfl

end TakeWhile

section Find

variable {α κ : Type*} [DecidableEq κ] {key : α → κ}

theorem find?_reverse_congr {l l' : List α} (h' : (l'.map key).Nodup) {k : κ}
    (hsame : ∀ a, key a = k → (a ∈ l ↔ a ∈ l')) :
    l.reverse.find? (fun a ↦ key a = k) = l'.reverse.find? (fun a ↦ key a = k) := by
  cases hfind : l.reverse.find? (fun a ↦ key a = k) with
  | none =>
    refine (find?_eq_none.mpr (fun a ha hk ↦ ?_)).symm
    have hmem := (hsame a (of_decide_eq_true hk)).mpr (mem_reverse.mp ha)
    exact find?_eq_none.mp hfind a (mem_reverse.mpr hmem) hk
  | some a =>
    have hka := find?_some hfind
    have hk : key a = k := of_decide_eq_true hka
    have ha : a ∈ l' := (hsame a hk).mp (mem_reverse.mp (mem_of_find?_eq_some hfind))
    cases hfind' : l'.reverse.find? (fun a ↦ key a = k) with
    | none =>
      have := find?_eq_none.mp hfind' a (mem_reverse.mpr ha)
      exact absurd (decide_eq_true hk) this
    | some b =>
      have hb : b ∈ l' := mem_reverse.mp (mem_of_find?_eq_some hfind')
      have hkb := find?_some hfind'
      rw [inj_on_of_nodup_map h' ha hb (hk.trans (of_decide_eq_true hkb).symm)]

end Find

section IntRange

theorem range_ascending (a b : ℤ) : AscendingBy id (Int.range a b) := by
  refine pairwise_map.mpr (pairwise_lt_range.imp (fun h ↦ ?_))
  simp only [id_eq]
  omega

theorem filter_range {a b a' b' : ℤ} (ha : a' ≤ a) (hb : b ≤ b') :
    (Int.range a' b').filter (fun i ↦ a ≤ i ∧ i < b) = Int.range a b := by
  refine AscendingBy.ext ((range_ascending a' b').filter _) (range_ascending a b) (fun i ↦ ?_)
  rw [mem_filter, Int.mem_range_iff, Int.mem_range_iff, decide_eq_true_eq]
  omega

variable {β : Type*}

theorem filterMap_range {f : ℤ → Option β} {a b a' b' : ℤ}
    (h : ∀ i, (f i).isSome → (a ≤ i ∧ i < b ↔ a' ≤ i ∧ i < b')) :
    (Int.range a b).filterMap f = (Int.range a' b').filterMap f := by
  rw [← filter_range (min_le_left a a') (le_max_left b b'),
    ← filter_range (min_le_right a a') (le_max_right b b'), filterMap_filter, filterMap_filter]
  refine filterMap_congr (fun i _ ↦ ?_)
  cases hf : f i with
  | none => rw [ite_self, ite_self]
  | some b => rw [decide_eq_decide.mpr (h i (by rw [hf]; rfl))]

theorem filterMap_range_shift (f : ℤ → Option β) (a b c : ℤ) :
    (Int.range a b).filterMap f = (Int.range (a + c) (b + c)).filterMap (fun i ↦ f (i - c)) := by
  have hlen : b + c - (a + c) = b - a := by omega
  rw [Int.range, Int.range, filterMap_map, filterMap_map, hlen]
  refine filterMap_congr (fun n _ ↦ ?_)
  rw [Function.comp_apply, Function.comp_apply]
  congr 1
  omega

end IntRange

end TalaPala.Library
