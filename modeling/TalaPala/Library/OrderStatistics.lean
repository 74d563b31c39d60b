import TalaPala.Library.Grouping
import Mathlib.Data.List.FinRange
import Mathlib.Algebra.Order.BigOperators.Group.List
import Mathlib.Data.Rat.Floor

namespace TalaPala.Library

open List

section Ordered

variable {α : Type*} [LinearOrder α]

def ordered (l : List α) : List α := l.insertionSort (· ≤ ·)

theorem getElem?_sorted_iff {l : List α} (h : l.Pairwise (· ≤ ·)) {p : α → Bool}
    (hdown : ∀ a b, a ≤ b → p b = true → p a = true) {k : ℕ} {a : α} (ha : l[k]? = some a) :
    p a = true ↔ k < l.countP p := by
  induction l generalizing k with
  | nil => cases ha
  | cons b l ih =>
    obtain ⟨hb, hl⟩ := pairwise_cons.mp h
    by_cases hp : p b = true
    · rw [countP_cons_of_pos hp]
      cases k with
      | zero =>
        obtain rfl : b = a := by simpa using ha
        simp [hp]
      | succ k => rw [ih hl (by simpa using ha), Nat.succ_lt_succ_iff]
    · have hnone (c : α) (hc : c ∈ b :: l) : p c = false := by
        rw [← Bool.not_eq_true]
        intro hpc
        rcases mem_cons.mp hc with rfl | hc
        · exact hp hpc
        · exact hp (hdown b c (hb c hc) hpc)
      have hcount : (b :: l).countP p = 0 :=
        countP_eq_zero.mpr (fun c hc ↦ by rw [hnone c hc]; exact Bool.false_ne_true)
      rw [hnone a (mem_of_getElem? ha), hcount]
      simp

theorem getElem?_ordered_iff {l : List α} {p : α → Bool}
    (hdown : ∀ a b, a ≤ b → p b = true → p a = true) {k : ℕ} {a : α}
    (ha : (ordered l)[k]? = some a) : p a = true ↔ k < l.countP p := by
  have hperm : (ordered l).Perm l := perm_insertionSort _ l
  have hsorted : (ordered l).Pairwise (· ≤ ·) := pairwise_insertionSort _ l
  rw [getElem?_sorted_iff hsorted hdown ha, hperm.countP_eq]

theorem exists_ordered {l : List α} {k : ℕ} (hk : k < l.length) :
    ∃ a, (ordered l)[k]? = some a := by
  have hlen : k < (ordered l).length := by
    rw [ordered, length_insertionSort]
    exact hk
  exact ⟨_, getElem?_eq_getElem hlen⟩

theorem findIdx_sorted {l : List α} (h : l.Pairwise (· ≤ ·)) (x : α) :
    l.findIdx (fun a ↦ x ≤ a) = l.countP (fun a ↦ a < x) := by
  induction l with
  | nil => rfl
  | cons a rest ih =>
    obtain ⟨ha, hrest⟩ := pairwise_cons.mp h
    rw [findIdx_cons]
    by_cases hle : x ≤ a
    · have hnone : (a :: rest).countP (fun b ↦ b < x) = 0 := by
        refine countP_eq_zero.mpr (fun b hb hlt ↦ ?_)
        have hab : a ≤ b := (mem_cons.mp hb).elim (fun h ↦ h.ge) (ha b)
        exact (hle.trans hab).not_gt (of_decide_eq_true hlt)
      rw [hnone, decide_eq_true hle, cond_true]
    · rw [decide_eq_false hle, cond_false, ih hrest,
        countP_cons_of_pos (by simpa using hle)]

theorem findIdx_ordered (l : List α) (x : α) :
    (ordered l).findIdx (fun a ↦ x ≤ a) = l.countP (fun a ↦ a < x) := by
  have hperm : (ordered l).Perm l := perm_insertionSort _ l
  have hsorted : (ordered l).Pairwise (· ≤ ·) := pairwise_insertionSort _ l
  rw [findIdx_sorted hsorted, hperm.countP_eq]

theorem rank_of_lt_ordered {l pool : List α} {x a : α} {k : ℕ} (hp : (x :: pool).Perm l)
    (ha : (ordered pool)[k]? = some a) (h : x < a) : l.countP (fun b ↦ b ≤ x) ≤ k + 1 := by
  have hle := getElem?_ordered_iff (p := fun b ↦ b ≤ x)
    (fun b c hbc hc ↦ by simp only [decide_eq_true_eq] at hc ⊢; exact hbc.trans hc) ha
  have hfew : ¬ k < pool.countP (fun b ↦ b ≤ x) := by
    rw [← hle, decide_eq_true_eq, not_le]
    exact h
  rw [← hp.countP_eq, countP_cons_of_pos (by simp)]
  omega

theorem rank_of_ordered_lt {l pool : List α} {x a : α} {k : ℕ} (hp : (x :: pool).Perm l)
    (ha : (ordered pool)[k]? = some a) (h : a < x) :
    l.countP (fun b ↦ x ≤ b) + (k + 1) ≤ l.length := by
  have hlt := getElem?_ordered_iff (p := fun b ↦ b < x)
    (fun b c hbc hc ↦ by simp only [decide_eq_true_eq] at hc ⊢; exact hbc.trans_lt hc) ha
  have hbelow : k < pool.countP (fun b ↦ b < x) := by
    rw [← hlt, decide_eq_true_eq]
    exact h
  have hsplit := length_eq_countP_add_countP (fun b : α ↦ decide (b < x)) (l := pool)
  have hge : pool.countP (fun b ↦ ¬ decide (b < x) = true) = pool.countP (fun b ↦ x ≤ b) :=
    countP_congr (fun b _ ↦ by simp)
  rw [← hp.countP_eq, countP_cons_of_pos (by simp), ← hp.length_eq, length_cons]
  omega

end Ordered

theorem countP_rank_le {α : Type*} (r : α → α → Prop) [DecidableRel r] [Std.Total r] [IsTrans α r]
    (l : List α) (m : ℕ) : l.countP (fun a ↦ l.countP (fun b ↦ r b a) ≤ m) ≤ m := by
  by_cases hnil : l.filter (fun a ↦ l.countP (fun b ↦ r b a) ≤ m) = []
  · rw [countP_eq_length_filter, hnil]
    exact Nat.zero_le m
  · obtain ⟨top, htop⟩ := exists_lastBy (r := r) hnil
    obtain ⟨hmem, hall⟩ := lastBy_spec htop
    have hm := of_decide_eq_true (mem_filter.mp hmem).2
    refine le_trans ?_ hm
    apply countP_mono_left
    intro a ha hrank
    exact decide_eq_true (hall a (mem_filter.mpr ⟨ha, hrank⟩))

theorem countP_or_le {α : Type*} (p q : α → Bool) (l : List α) :
    l.countP (fun a ↦ p a || q a) ≤ l.countP p + l.countP q := by
  induction l with
  | nil => rfl
  | cons a l ih =>
    simp only [countP_cons]
    cases p a <;> cases q a <;> simp <;> omega

theorem countP_or_eq {α : Type*} (p q : α → Bool) (l : List α) :
    l.countP (fun a ↦ p a || q a) = l.countP (fun a ↦ !p a && q a) + l.countP p := by
  induction l with
  | nil => rfl
  | cons a l ih =>
    simp only [countP_cons, ih]
    cases p a <;> cases q a <;> simp <;> omega

theorem countP_finRange_get {α : Type*} (l : List α) (p : α → Bool) :
    (List.finRange l.length).countP (fun i ↦ p (l.get i)) = l.countP p := by
  have hmap : l.countP p = ((List.finRange l.length).map l.get).countP p := by
    rw [map_get_finRange]
  rw [hmap, countP_map]
  rfl

def median (l : List ℚ) : ℚ :=
  ((ordered l).getD ((l.length - 1) / 2) 0 + (ordered l).getD (l.length / 2) 0) / 2

theorem le_median {l : List ℚ} {m : ℚ} (hne : l ≠ []) (h : ∀ g ∈ l, m ≤ g) : m ≤ median l := by
  have hlen : (ordered l).length = l.length := length_insertionSort _ _
  have hpos := length_pos_iff.2 hne
  have hget (k : ℕ) (hk : k < l.length) : m ≤ (ordered l).getD k 0 := by
    rw [getD_eq_getElem?_getD, getElem?_eq_getElem (by omega), Option.getD_some]
    exact h _ ((perm_insertionSort _ l).mem_iff.1 (getElem_mem _))
  have hlow := hget ((l.length - 1) / 2) (by omega)
  have hhigh := hget (l.length / 2) (by omega)
  rw [median]
  linarith

def mean (l : List ℚ) : ℚ := l.sum / l.length

theorem mean_mono {l l' : List ℚ} (h : List.Forall₂ (· ≤ ·) l l') : mean l ≤ mean l' := by
  rw [mean, mean, h.length_eq]
  exact div_le_div_of_nonneg_right h.sum_le_sum (Nat.cast_nonneg _)

def quantile (q : ℚ) (l : List ℚ) : ℚ :=
  let position := q * (l.length - 1)
  let k := ⌊position⌋₊
  let below := (ordered l).getD k 0
  below + (position - k) * ((ordered l).getD (k + 1) below - below)

theorem countP_le_mono {α : Type*} [LinearOrder α] {l l' : List α}
    (h : List.Forall₂ (· ≤ ·) l l') (x : α) :
    l'.countP (fun b ↦ b ≤ x) ≤ l.countP (fun b ↦ b ≤ x) := by
  induction h with
  | nil => exact le_rfl
  | @cons b b' l l' hb _ ih =>
    by_cases hx : b' ≤ x
    · rw [countP_cons_of_pos (p := fun b ↦ b ≤ x) (decide_eq_true hx),
        countP_cons_of_pos (p := fun b ↦ b ≤ x) (decide_eq_true (hb.trans hx))]
      exact Nat.succ_le_succ ih
    · rw [countP_cons_of_neg (p := fun b ↦ b ≤ x) (by simpa using hx)]
      exact ih.trans (sublist_cons_self b l).countP_le

theorem ordered_mono {α : Type*} [LinearOrder α] {l l' : List α}
    (h : List.Forall₂ (· ≤ ·) l l') {k : ℕ} {a a' : α} (ha : (ordered l)[k]? = some a)
    (ha' : (ordered l')[k]? = some a') : a ≤ a' := by
  have hdown : ∀ b c, b ≤ c → decide (c ≤ a') = true → decide (b ≤ a') = true := fun b c hbc hc ↦
    decide_eq_true (hbc.trans (of_decide_eq_true hc))
  have hmany : k < l'.countP (fun b ↦ b ≤ a') :=
    (getElem?_ordered_iff hdown ha').1 (decide_eq_true le_rfl)
  exact of_decide_eq_true
    ((getElem?_ordered_iff hdown ha).2 (hmany.trans_le (countP_le_mono h a')))

theorem ordered_getD_mono {l l' : List ℚ} (h : List.Forall₂ (· ≤ ·) l l') (k : ℕ) {d d' : ℚ}
    (hd : d ≤ d') : (ordered l).getD k d ≤ (ordered l').getD k d' := by
  have hlen : (ordered l).length = (ordered l').length := by
    rw [ordered, ordered, length_insertionSort, length_insertionSort, h.length_eq]
  rw [getD_eq_getElem?_getD, getD_eq_getElem?_getD]
  cases ha : (ordered l)[k]? with
  | none =>
    have hk := List.getElem?_eq_none_iff.1 ha
    rw [getElem?_eq_none (hlen ▸ hk)]
    exact hd
  | some a =>
    obtain ⟨hk, -⟩ := List.getElem?_eq_some_iff.1 ha
    have ha' := getElem?_eq_getElem (hlen ▸ hk)
    rw [ha']
    exact ordered_mono h ha ha'

theorem interpolate_mono {a a' b b' c : ℚ} (ha : a ≤ a') (hb : b ≤ b') (hc : 0 ≤ c)
    (hc' : c ≤ 1) : a + c * (b - a) ≤ a' + c * (b' - a') :=
  calc a + c * (b - a) = (1 - c) * a + c * b := by ring
    _ ≤ (1 - c) * a' + c * b' := add_le_add
        (mul_le_mul_of_nonneg_left ha (sub_nonneg.2 hc')) (mul_le_mul_of_nonneg_left hb hc)
    _ = a' + c * (b' - a') := by ring

theorem quantile_mono {q : ℚ} (hq : 0 ≤ q) {l l' : List ℚ} (h : List.Forall₂ (· ≤ ·) l l') :
    quantile q l ≤ quantile q l' := by
  have hlen : (l'.length : ℚ) = l.length := by rw [h.length_eq]
  simp only [quantile, hlen]
  have hbelow := ordered_getD_mono h ⌊q * ((l.length : ℚ) - 1)⌋₊ (le_refl 0)
  have hnext := ordered_getD_mono h (⌊q * ((l.length : ℚ) - 1)⌋₊ + 1) hbelow
  rcases eq_or_ne l [] with rfl | hne
  · obtain rfl := List.forall₂_nil_left_iff.1 h
    exact le_rfl
  · have hone : (1 : ℚ) ≤ l.length := by exact_mod_cast length_pos_iff.2 hne
    have hlow := Nat.floor_le (mul_nonneg hq (sub_nonneg.2 hone))
    have hhigh := Nat.lt_floor_add_one (q * ((l.length : ℚ) - 1))
    exact interpolate_mono hbelow hnext (sub_nonneg.2 hlow) (by linarith)

end TalaPala.Library
