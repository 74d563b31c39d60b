import Mathlib.Data.Finset.Pairwise
import Mathlib.Order.Interval.Set.Nat

namespace TalaPala.Library

open List

section Intervals

variable {α κ : Type*} [LinearOrder κ] (start stop : α → κ)

def Apart (a b : α) : Prop := stop a ≤ start b ∨ stop b ≤ start a

def keepApart : Option κ → List α → List α
  | _, [] => []
  | lastEnd, a :: rest =>
    if lastEnd.all (· ≤ start a) then a :: keepApart (some (stop a)) rest
    else keepApart lastEnd rest

variable {start stop}

instance : Std.Symm (Apart start stop) where
  symm _ _ := Or.symm

theorem keepApart_sublist (lastEnd : Option κ) (l : List α) :
    (keepApart start stop lastEnd l).Sublist l := by
  induction l generalizing lastEnd with
  | nil => exact List.Sublist.refl _
  | cons a rest ih =>
    rw [keepApart]
    split
    · exact (ih _).cons_cons a
    · exact (ih _).cons a

theorem keepApart_map {β : Type*} (f : β → α) (lastEnd : Option κ) (l : List β) :
    keepApart start stop lastEnd (l.map f) =
      (keepApart (fun b ↦ start (f b)) (fun b ↦ stop (f b)) lastEnd l).map f := by
  induction l generalizing lastEnd with
  | nil => rfl
  | cons b rest ih =>
    rw [map_cons, keepApart, keepApart]
    split
    · rw [ih, map_cons]
    · exact ih lastEnd

section Ordered

structure InOrder (start stop : α → κ) (l : List α) : Prop where
  proper : ∀ a ∈ l, start a < stop a
  starts : l.Pairwise (fun a b ↦ start a ≤ start b)
  stops : l.Pairwise (fun a b ↦ stop a ≤ stop b)

variable {a : α} {l kept : List α}

theorem InOrder.tail (h : InOrder start stop (a :: l)) : InOrder start stop l where
  proper b hb := h.proper b (mem_cons_of_mem a hb)
  starts := h.starts.of_cons
  stops := h.stops.of_cons

theorem InOrder.sublist (h : InOrder start stop l) (hs : kept.Sublist l) :
    InOrder start stop kept where
  proper b hb := h.proper b (hs.subset hb)
  starts := h.starts.sublist hs
  stops := h.stops.sublist hs

theorem keepApart_after {e : κ} {b : α} (h : InOrder start stop l)
    (hb : b ∈ keepApart start stop (some e) l) : e ≤ start b := by
  induction l generalizing e with
  | nil => cases hb
  | cons a rest ih =>
    rw [keepApart] at hb
    split at hb
    · rename_i hle
      have hea : e ≤ start a := by simpa using hle
      rcases mem_cons.mp hb with rfl | hb
      · exact hea
      · have hab := ih h.tail hb
        exact hea.trans ((h.proper a mem_cons_self).le.trans hab)
    · exact ih h.tail hb

theorem keepApart_apart (lastEnd : Option κ) (h : InOrder start stop l) :
    (keepApart start stop lastEnd l).Pairwise (Apart start stop) := by
  induction l generalizing lastEnd with
  | nil => exact .nil
  | cons a rest ih =>
    rw [keepApart]
    split
    · exact .cons (fun b hb ↦ .inl (keepApart_after h.tail hb)) (ih _ h.tail)
    · exact ih _ h.tail

theorem InOrder.stop_le_of_apart (h : InOrder start stop (a :: l)) {b : α} (hb : b ∈ l)
    (hab : Apart start stop a b) : stop a ≤ start b := by
  refine hab.resolve_right (fun hle ↦ ?_)
  have hstart : start a ≤ start b := (pairwise_cons.mp h.starts).1 b hb
  exact (h.proper b (mem_cons_of_mem a hb)).not_ge (hle.trans hstart)

theorem length_le_keepApart (lastEnd : Option κ) (h : InOrder start stop l)
    (hs : kept.Sublist l) (hafter : ∀ e ∈ lastEnd, ∀ b ∈ kept, e ≤ start b)
    (hapart : kept.Pairwise (Apart start stop)) :
    kept.length ≤ (keepApart start stop lastEnd l).length := by
  induction l generalizing lastEnd kept with
  | nil => rw [sublist_nil.mp hs, keepApart]
  | cons a rest ih =>
    obtain ⟨hstops, -⟩ := pairwise_cons.mp h.stops
    rw [keepApart]
    split
    · match kept with
      | [] => exact Nat.zero_le _
      | b :: others =>
        obtain ⟨hb, hothers⟩ := pairwise_cons.mp hapart
        have hrest : others.Sublist rest := (cons_sublist_cons'.mp hs).elim
          (fun hcons ↦ (sublist_cons_self b others).trans hcons) And.right
        have hstop : stop a ≤ stop b := by
          rcases cons_sublist_cons'.mp hs with hcons | ⟨rfl, -⟩
          · exact hstops b (hcons.subset mem_cons_self)
          · exact le_rfl
        have hafter' : ∀ e ∈ some (stop a), ∀ c ∈ others, e ≤ start c := by
          rintro e he c hc
          cases he
          exact hstop.trans ((h.sublist hs).stop_le_of_apart hc (hb c hc))
        exact Nat.succ_le_succ (ih _ h.tail hrest hafter' hothers)
    · rename_i hbefore
      refine ih _ h.tail ?_ hafter hapart
      match kept with
      | [] => exact nil_sublist _
      | b :: others =>
        refine (cons_sublist_cons'.mp hs).elim id (fun heq ↦ absurd ?_ hbefore)
        obtain ⟨rfl, -⟩ := heq
        rw [Option.all_eq_true]
        intro e he
        exact decide_eq_true (hafter e he b mem_cons_self)

theorem isGreatest_keepApart [DecidableEq α] (h : InOrder start stop l) (hnodup : l.Nodup) :
    IsGreatest {n | ∃ s : Finset α, s ⊆ l.toFinset ∧
        (s : Set α).Pairwise (Apart start stop) ∧ s.card = n}
      (keepApart start stop none l).length := by
  have hsub : (keepApart start stop none l).Sublist l := keepApart_sublist none l
  constructor
  · refine ⟨(keepApart start stop none l).toFinset, ?_, ?_, ?_⟩
    · exact fun a ha ↦ mem_toFinset.mpr (hsub.subset (mem_toFinset.mp ha))
    · rw [pairwise_iff_coe_toFinset_pairwise (hnodup.sublist hsub)]
      exact keepApart_apart none h
    · exact toFinset_card_of_nodup (hnodup.sublist hsub)
  · rintro n ⟨s, hs, hapart, rfl⟩
    have hkept : (l.filter (· ∈ s)).toFinset = s := by
      ext a
      rw [mem_toFinset, mem_filter, decide_eq_true_eq]
      exact ⟨And.right, fun ha ↦ ⟨mem_toFinset.mp (hs ha), ha⟩⟩
    have hnd : (l.filter (· ∈ s)).Nodup := hnodup.filter _
    rw [← hkept, toFinset_card_of_nodup hnd]
    rw [← hkept, pairwise_iff_coe_toFinset_pairwise hnd] at hapart
    exact length_le_keepApart none h filter_sublist (fun e he ↦ nomatch he) hapart

end Ordered

end Intervals

section MaximalRuns

variable {α : Type*}

structure IsMaximalRun (l : List α) (a : α) (first last : ℕ) : Prop where
  le : first ≤ last
  inside : ∀ k, first ≤ k → k ≤ last → l[k]? = some a
  before : ∀ k, k + 1 = first → l[k]? ≠ some a
  after : l[last + 1]? ≠ some a

/-- The places at which a list that goes on from `previous` takes a value up. -/
def entryPoints (a : α) (previous : Option α) (l : List α) : Set ℕ :=
  {i | l[i]? = some a ∧ (i = 0 → previous ≠ some a) ∧ ∀ k, k + 1 = i → l[k]? ≠ some a}

variable {l : List α} {a : α} {previous : Option α} {first last last' : ℕ}

theorem finite_entryPoints : (entryPoints a previous l).Finite := by
  refine (Set.finite_Iio l.length).subset (fun i hi ↦ ?_)
  obtain ⟨hget, -⟩ := List.getElem?_eq_some_iff.mp hi.1
  exact hget

theorem IsMaximalRun.last_le (h : IsMaximalRun l a first last) (h' : IsMaximalRun l a first last') :
    last ≤ last' := by
  refine not_lt.mp (fun hlt ↦ h'.after ?_)
  exact h.inside _ (h'.le.trans (Nat.le_succ _)) hlt

theorem exists_isMaximalRun (h : first ∈ entryPoints a none l) :
    ∃ last, IsMaximalRun l a first last := by
  classical
  obtain ⟨hfirst, -, hbefore⟩ := h
  have hend : ∃ j, first ≤ j ∧ l[j + 1]? ≠ some a := by
    refine ⟨max first l.length, le_max_left _ _, ?_⟩
    rw [getElem?_eq_none (by omega)]
    exact (Option.some_ne_none a).symm
  refine ⟨Nat.find hend, (Nat.find_spec hend).1, fun k hle hge ↦ ?_, hbefore,
    (Nat.find_spec hend).2⟩
  obtain rfl | hlt := hle.eq_or_lt
  · exact hfirst
  · obtain ⟨k, rfl⟩ := Nat.exists_eq_add_of_lt hlt
    by_contra hnot
    exact Nat.find_min hend (by omega) ⟨by omega, hnot⟩

theorem ncard_maximalRuns (l : List α) (a : α) :
    {run : ℕ × ℕ | IsMaximalRun l a run.1 run.2}.ncard = (entryPoints a none l).ncard := by
  refine Set.ncard_congr (fun run _ ↦ run.1) ?_ ?_ ?_
  · rintro ⟨first, last⟩ h
    exact ⟨h.inside first le_rfl h.le, fun _ ↦ (Option.some_ne_none a).symm, h.before⟩
  · rintro ⟨first, last⟩ ⟨first', last'⟩ h h' hfirst
    obtain rfl : first = first' := hfirst
    exact congrArg (Prod.mk first) (le_antisymm (h.last_le h') (h'.last_le h))
  · intro first hfirst
    obtain ⟨last, hlast⟩ := exists_isMaximalRun hfirst
    exact ⟨(first, last), hlast, rfl⟩

/-- How often a list that goes on from `previous` takes a value up. -/
def entries [DecidableEq α] (a : α) (previous : Option α) : List α → ℕ
  | [] => 0
  | b :: rest => (if b = a ∧ previous ≠ some a then 1 else 0) + entries a (some b) rest

theorem entryPoints_cons (b : α) (rest : List α) :
    entryPoints a previous (b :: rest) =
      {i | i = 0 ∧ b = a ∧ previous ≠ some a} ∪ Nat.succ '' entryPoints a (some b) rest := by
  ext i
  cases i with
  | zero => simp [entryPoints]
  | succ i =>
    simp only [entryPoints, Set.mem_ofPred_eq, Set.mem_union, Nat.succ_ne_zero, false_and,
      false_or, Set.mem_image, Nat.succ_eq_add_one, add_left_inj, exists_eq_right,
      getElem?_cons_succ, false_imp_iff, true_and]
    refine and_congr_right (fun _ ↦ ?_)
    cases i with
    | zero => simp
    | succ i => simp

theorem entries_eq_ncard [DecidableEq α] (a : α) (previous : Option α) (l : List α) :
    entries a previous l = (entryPoints a previous l).ncard := by
  induction l generalizing previous with
  | nil => simp [entries, entryPoints]
  | cons b rest ih =>
    have hsucc : (Nat.succ '' entryPoints a (some b) rest).ncard =
        (entryPoints a (some b) rest).ncard :=
      Set.ncard_image_of_injective _ Nat.succ_injective
    rw [entries, ih, entryPoints_cons]
    split
    · rename_i htaken
      have hzero : {i : ℕ | i = 0 ∧ b = a ∧ previous ≠ some a} = {0} := by
        ext i
        simp [htaken]
      rw [hzero, Set.singleton_union, Set.ncard_insert_of_notMem (by simp)
        (finite_entryPoints.image _), hsucc, add_comm]
    · rename_i hnot
      have hempty : {i : ℕ | i = 0 ∧ b = a ∧ previous ≠ some a} = ∅ := by
        ext i
        simp only [Set.mem_ofPred_eq, Set.mem_empty_iff_false, iff_false]
        exact fun h ↦ hnot h.2
      rw [hempty, Set.empty_union, hsucc, Nat.zero_add]

theorem entries_eq_maximalRuns [DecidableEq α] (l : List α) (a : α) :
    entries a none l = {run : ℕ × ℕ | IsMaximalRun l a run.1 run.2}.ncard := by
  rw [ncard_maximalRuns, entries_eq_ncard]

end MaximalRuns

end TalaPala.Library
