import TalaPala.Library.Grouping
import Mathlib.Data.Prod.Lex
import Mathlib.Order.WithBot

namespace TalaPala.Library

open List

section Latest

variable {α κ : Type*} [LinearOrder κ] (key : α → κ)

/-- The rows with the greatest keys, `ORDER BY key DESC LIMIT limit`. -/
def latest (limit : ℕ) (l : List α) : List α :=
  (l.insertionSort (fun a b ↦ key b ≤ key a)).take limit

/-- How many rows of `l` have a greater key, the correlated count of a ranking. -/
def above (l : List α) (a : α) : ℕ := l.countP (fun b ↦ key a < key b)

abbrev DescendingBy (l : List α) : Prop := l.Pairwise (fun a b ↦ key b < key a)

variable {key}

theorem DescendingBy.ext {l l' : List α} (h : DescendingBy key l) (h' : DescendingBy key l')
    (hmem : ∀ a, a ∈ l ↔ a ∈ l') : l = l' := by
  have hdual : AscendingBy (fun a ↦ OrderDual.toDual (key a)) l := h
  exact hdual.ext h' hmem

theorem descending_of_nodup {l : List α} (h : (l.map key).Nodup) :
    DescendingBy key (l.insertionSort (fun a b ↦ key b ≤ key a)) := by
  have : Std.Total (fun a b : α ↦ key b ≤ key a) := ⟨fun a b ↦ le_total _ _⟩
  have : IsTrans α (fun a b ↦ key b ≤ key a) := ⟨fun a b c hab hbc ↦ hbc.trans hab⟩
  have hnodup : ((l.insertionSort (fun a b ↦ key b ≤ key a)).map key).Nodup :=
    ((perm_insertionSort _ l).map key).nodup_iff.mpr h
  exact ((pairwise_insertionSort (fun a b ↦ key b ≤ key a) l).and
    (pairwise_map.mp hnodup)).imp (fun h ↦ lt_of_le_of_ne h.1 h.2.symm)

theorem above_mono {l : List α} {a b : α} (h : key a ≤ key b) : above key l b ≤ above key l a := by
  refine countP_mono_left (fun c _ hc ↦ ?_)
  exact decide_eq_true (h.trans_lt (of_decide_eq_true hc))

theorem above_cons_of_lt {a b : α} (h : key a < key b) (l : List α) :
    above key (b :: l) a = above key l a + 1 :=
  countP_cons_of_pos (decide_eq_true h)

theorem DescendingBy.above_head {a : α} {l : List α} (h : DescendingBy key (a :: l)) :
    above key (a :: l) a = 0 := by
  refine countP_eq_zero.mpr (fun b hb ↦ ?_)
  rw [decide_eq_true_eq, not_lt]
  rcases mem_cons.mp hb with rfl | hb
  · exact le_rfl
  · exact ((pairwise_cons.mp h).1 b hb).le

theorem DescendingBy.mem_take {l : List α} (h : DescendingBy key l) (limit : ℕ) (a : α) :
    a ∈ l.take limit ↔ a ∈ l ∧ above key l a < limit := by
  induction l generalizing limit with
  | nil => simp
  | cons b rest ih =>
    obtain ⟨hb, hrest⟩ := pairwise_cons.mp h
    cases limit with
    | zero => simp
    | succ limit =>
      rw [take_succ_cons, mem_cons, mem_cons, ih hrest]
      constructor
      · rintro (rfl | ⟨ha, hlt⟩)
        · exact ⟨.inl rfl, by rw [h.above_head]; exact Nat.succ_pos limit⟩
        · rw [above_cons_of_lt (hb a ha)]
          exact ⟨.inr ha, Nat.succ_lt_succ hlt⟩
      · rintro ⟨rfl | ha, hlt⟩
        · exact .inl rfl
        · rw [above_cons_of_lt (hb a ha)] at hlt
          exact .inr ⟨ha, Nat.lt_of_succ_lt_succ hlt⟩

theorem DescendingBy.le_iff {l : List α} (h : DescendingBy key l) {i j : ℕ} {a b : α}
    (ha : l[i]? = some a) (hb : l[j]? = some b) : key b ≤ key a ↔ i ≤ j := by
  obtain ⟨hi, rfl⟩ := List.getElem?_eq_some_iff.mp ha
  obtain ⟨hj, rfl⟩ := List.getElem?_eq_some_iff.mp hb
  have hlt := pairwise_iff_getElem.mp h
  constructor
  · intro hle
    by_contra hij
    exact absurd (hlt j i hj hi (not_le.mp hij)) (not_lt.mpr hle)
  · intro hij
    rcases hij.eq_or_lt with rfl | hij
    · exact le_rfl
    · exact (hlt i j hi hj hij).le

theorem DescendingBy.mem_stretch {l : List α} (h : DescendingBy key l) {i n : ℕ} {a b x : α}
    (hn : 0 < n) (ha : l[i]? = some a) (hb : l[i + n - 1]? = some b) (hx : x ∈ l) :
    x ∈ (l.drop i).take n ↔ key b ≤ key x ∧ key x ≤ key a := by
  obtain ⟨k, hk⟩ := mem_iff_getElem?.mp hx
  rw [h.le_iff hk hb, h.le_iff ha hk, mem_iff_getElem?]
  constructor
  · rintro ⟨m, hm⟩
    rw [getElem?_take] at hm
    split_ifs at hm with hlt
    rw [getElem?_drop] at hm
    have hle := (h.le_iff hk hm).mp le_rfl
    have hge := (h.le_iff hm hk).mp le_rfl
    omega
  · rintro ⟨hle, hge⟩
    refine ⟨k - i, ?_⟩
    rw [getElem?_take, if_pos (by omega), getElem?_drop, Nat.add_sub_cancel' hge, hk]

theorem latest_descending {l : List α} (h : (l.map key).Nodup) (limit : ℕ) :
    DescendingBy key (latest key limit l) :=
  (descending_of_nodup h).sublist (take_sublist _ _)

theorem mem_latest {l : List α} (h : (l.map key).Nodup) {limit : ℕ} {a : α} :
    a ∈ latest key limit l ↔ a ∈ l ∧ above key l a < limit := by
  rw [latest, (descending_of_nodup h).mem_take, above,
    (perm_insertionSort _ l).countP_eq, mem_insertionSort, ← above]

theorem length_latest (limit : ℕ) (l : List α) :
    (latest key limit l).length = min limit l.length := by
  rw [latest, length_take, length_insertionSort]

theorem latest_mono {l : List α} {limit limit' : ℕ} (hle : limit ≤ limit') {a : α}
    (ha : a ∈ latest key limit l) : a ∈ latest key limit' l :=
  (take_sublist_take_left hle).subset ha

theorem limit_le_above {l l' : List α} (h : (l.map key).Nodup) {limit : ℕ}
    (hkept : ∀ a ∈ latest key limit l, a ∈ l') {a : α} (ha : limit ≤ above key l a) :
    limit ≤ above key l' a := by
  have hhigher : ∀ b ∈ latest key limit l, key a < key b := by
    intro b hb
    by_contra hle
    have hba := above_mono (l := l) (not_lt.mp hle)
    exact absurd ((mem_latest h).mp hb).2 (not_lt.mpr (ha.trans hba))
  have hlen : (latest key limit l).length = limit := by
    rw [length_latest]
    exact Nat.min_eq_left (ha.trans countP_le_length)
  have hsub : (latest key limit l).Subperm l' := by
    refine subperm_of_subset ?_ hkept
    exact (latest_descending h limit).imp (fun hlt he ↦ by rw [he] at hlt; exact lt_irrefl _ hlt)
  calc limit = (latest key limit l).countP (fun b ↦ key a < key b) := by
        rw [countP_eq_length.mpr (fun b hb ↦ decide_eq_true (hhigher b hb)), hlen]
    _ ≤ above key l' a := hsub.countP_le _

theorem latest_of_kept {l l' : List α} (h : (l.map key).Nodup) (hs : l'.Sublist l) {limit : ℕ}
    (hkept : ∀ a ∈ latest key limit l, a ∈ l') : latest key limit l' = latest key limit l := by
  have h' : (l'.map key).Nodup := h.sublist (hs.map key)
  refine (latest_descending h' limit).ext (latest_descending h limit) (fun a ↦ ?_)
  rw [mem_latest h', mem_latest h]
  constructor
  · rintro ⟨ha, hlt⟩
    refine ⟨hs.subset ha, ?_⟩
    by_contra hge
    exact absurd hlt (not_lt.mpr (limit_le_above h hkept (not_lt.mp hge)))
  · rintro ⟨ha, hlt⟩
    exact ⟨hkept a ((mem_latest h).mpr ⟨ha, hlt⟩), (hs.countP_le).trans_lt hlt⟩

theorem latest_one {l : List α} {m : α} (hm : m ∈ l) (h : ∀ a ∈ l, a = m ∨ key a < key m) :
    (latest key 1 l).head? = some m := by
  have : Std.Total (fun a b : α ↦ key b ≤ key a) := ⟨fun a b ↦ le_total _ _⟩
  have : IsTrans α (fun a b ↦ key b ≤ key a) := ⟨fun a b c hab hbc ↦ hbc.trans hab⟩
  have hsorted := l.pairwise_insertionSort (fun a b ↦ key b ≤ key a)
  have hmem : ∀ a, a ∈ l.insertionSort (fun a b ↦ key b ≤ key a) ↔ a ∈ l :=
    fun a ↦ mem_insertionSort _
  rw [latest]
  cases hl : l.insertionSort (fun a b ↦ key b ≤ key a) with
  | nil =>
    rw [hl] at hmem
    cases (hmem m).mpr hm
  | cons x rest =>
    rw [hl] at hsorted hmem
    obtain rfl | hlt := h x ((hmem x).mp mem_cons_self)
    · rfl
    · rcases mem_cons.mp ((hmem m).mpr hm) with rfl | hrest
      · exact absurd hlt (lt_irrefl _)
      · exact absurd hlt (not_lt.mpr (rel_of_pairwise_cons hsorted hrest))

end Latest

section Sorting

variable {α β κ : Type*}

def sortStable (less : α → α → Bool) (l : List α) : List α :=
  l.insertionSort (fun a b ↦ less b a = false)

def Compares [LT κ] (less : α → α → Bool) (key : α → κ) : Prop :=
  ∀ a b, less a b = true ↔ key a < key b

namespace Compares

variable [LinearOrder κ] {less : α → α → Bool} {key : α → κ}

theorem not_less (h : Compares less key) (a b : α) : less b a = false ↔ key a ≤ key b := by
  rw [← Bool.not_eq_true, h, not_lt]

theorem sortStable_perm (less : α → α → Bool) (l : List α) : (sortStable less l).Perm l :=
  perm_insertionSort _ l

theorem pairwise_sortStable (h : Compares less key) (l : List α) :
    (sortStable less l).Pairwise (fun a b ↦ key a ≤ key b) := by
  have : Std.Total (fun a b ↦ less b a = false) :=
    ⟨fun a b ↦ by rw [h.not_less, h.not_less]; exact le_total _ _⟩
  have : IsTrans α (fun a b ↦ less b a = false) := ⟨fun a b c ↦ by
    rw [h.not_less, h.not_less, h.not_less]
    exact le_trans⟩
  exact (l.pairwise_insertionSort _).imp (fun {a b} hle ↦ (h.not_less a b).mp hle)

theorem sortStable_eq_of_perm (h : Compares less key) {l l' : List α} (hperm : l.Perm l')
    (hinj : (l.map key).Nodup) : sortStable less l = sortStable less l' := by
  have hsorted := ((sortStable_perm less l).trans hperm).trans (sortStable_perm less l').symm
  refine hsorted.eq_of_pairwise (fun a b ha hb hab hba ↦ ?_) (h.pairwise_sortStable l)
    (h.pairwise_sortStable l')
  have ha' := (sortStable_perm less l).mem_iff.mp ha
  have hb' := hperm.mem_iff.mpr ((sortStable_perm less l').mem_iff.mp hb)
  exact inj_on_of_nodup_map hinj ha' hb' (le_antisymm hab hba)

end Compares

section NullsLast

variable [LinearOrder β] [LinearOrder κ]

def nullsLast (figure : α → Option β) (name : α → κ) (a : α) : WithTop β ×ₗ κ :=
  toLex (figure a, name a)

variable {figure : α → Option β} {name : α → κ} {a b : α}

theorem nullsLast_lt_of_none (ha : figure a = none) (hb : figure b = none) :
    nullsLast figure name a < nullsLast figure name b ↔ name a < name b := by
  rw [nullsLast, nullsLast, ha, hb, Prod.Lex.toLex_lt_toLex]
  exact (or_iff_right (lt_irrefl _)).trans (and_iff_right rfl)

theorem nullsLast_lt_none {v : β} (ha : figure a = some v) (hb : figure b = none) :
    nullsLast figure name a < nullsLast figure name b := by
  rw [nullsLast, nullsLast, ha, hb, Prod.Lex.toLex_lt_toLex]
  exact .inl (WithTop.coe_lt_top v)

theorem nullsLast_lt_some {v w : β} (ha : figure a = some v) (hb : figure b = some w) :
    nullsLast figure name a < nullsLast figure name b ↔ v < w ∨ v = w ∧ name a < name b := by
  rw [nullsLast, nullsLast, ha, hb, Prod.Lex.toLex_lt_toLex]
  exact or_congr WithTop.coe_lt_coe (and_congr_left' WithTop.coe_inj)

end NullsLast

end Sorting

end TalaPala.Library
