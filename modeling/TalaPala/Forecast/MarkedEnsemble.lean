import TalaPala.Forecast.MarkedFolds
import Mathlib.Algebra.BigOperators.Ring.List

namespace TalaPala.Forecast

open Library List

section Ensemble

variable {view view' : String → List Marked} {weights : List (String × ℚ)}

def anyMarked (view : String → List Marked) (weights : List (String × ℚ)) (i : ℕ) : Bool :=
  weights.any (fun m ↦ (markedAt (view m.1) i).any Prod.snd)

def memberPred (view : String → List Marked) (i : ℕ) (name : String) : ℚ :=
  ((markedAt (view name) i).map (·.1.pred)).getD 0

def ensembleMark (view : String → List Marked) (weights : List (String × ℚ)) (first : String)
    (i : ℕ) : Option Marked :=
  (markedAt (view first) i).map (fun x ↦ ({ x.1 with
    pred := combine (weights.map (fun m ↦ (m.1, memberPred view i m.1))) weights },
    anyMarked view weights i))

def markedEnsemble (view : String → List Marked) : List (String × ℚ) → List Marked
  | [] => []
  | weights@((first, _) :: _) =>
    (commonIndices (fun name ↦ (view name).map Prod.fst) weights first).filterMap
      (ensembleMark view weights first)

theorem markedEnsemble_folds (view : String → List Marked) (weights : List (String × ℚ)) :
    (markedEnsemble view weights).map Prod.fst =
      ensembleFolds (fun name ↦ (view name).map Prod.fst) weights := by
  cases weights with
  | nil => rfl
  | cons m rest =>
    rw [markedEnsemble, ensembleFolds, map_filterMap]
    refine filterMap_congr (fun i _ ↦ ?_)
    simp only [ensembleMark, ensembleFold, foldAt_markedAt, Option.map_map, Function.comp_def,
      memberPred]

theorem rel_any {o o' : Option Marked} (h : Option.Rel Varies o o') :
    o.any Prod.snd = o'.any Prod.snd := by
  cases h with
  | none => rfl
  | some h => exact h.1

theorem anyMarked_varies (h : ∀ name, List.Forall₂ Varies (view name) (view' name)) (i : ℕ) :
    anyMarked view weights i = anyMarked view' weights i := by
  rw [anyMarked, anyMarked]
  simp only [fun name ↦ rel_any (markedAt_varies (h name) i)]

theorem memberPred_varies (h : ∀ name, List.Forall₂ Varies (view name) (view' name)) {i : ℕ}
    {name : String} (hmark : (markedAt (view name) i).any Prod.snd = false) :
    memberPred view i name = memberPred view' i name := by
  have hrel := markedAt_varies (h name) i
  rw [memberPred, memberPred]
  generalize markedAt (view name) i = o, markedAt (view' name) i = o' at hrel hmark
  cases hrel with
  | none => rfl
  | some h =>
    rw [Option.map_some, Option.map_some, h.2.2 hmark]

theorem commonIndices_varies (h : ∀ name, List.Forall₂ Varies (view name) (view' name))
    (first : String) : commonIndices (fun name ↦ (view name).map Prod.fst) weights first =
      commonIndices (fun name ↦ (view' name).map Prod.fst) weights first := by
  have hidx : ((view first).map Prod.fst).map Fold.tIndex =
      ((view' first).map Prod.fst).map Fold.tIndex := by
    rw [map_map, map_map]
    exact (map_eq_of_forall₂ (h first) (fun _ _ hx ↦ hx.2.1.symm)).symm
  have hsome (name : String) (i : ℕ) : (foldAt ((view name).map Prod.fst) i).isSome =
      (foldAt ((view' name).map Prod.fst) i).isSome := by
    have hrel := markedAt_varies (h name) i
    rw [foldAt_markedAt, foldAt_markedAt, Option.isSome_map, Option.isSome_map]
    generalize markedAt (view name) i = o, markedAt (view' name) i = o' at hrel
    cases hrel <;> rfl
  simp only [commonIndices, hidx, hsome]

theorem ensembleMark_varies (h : ∀ name, List.Forall₂ Varies (view name) (view' name))
    {first : String} {w : ℚ} (hfirst : (first, w) ∈ weights) (i : ℕ) :
    Option.Rel Varies (ensembleMark view weights first i)
      (ensembleMark view' weights first i) := by
  have hrel := markedAt_varies (h first) i
  have hany : anyMarked view weights i = anyMarked view' weights i := anyMarked_varies h i
  rw [ensembleMark, ensembleMark]
  cases hx : markedAt (view first) i with
  | none =>
    rw [hx] at hrel
    generalize markedAt (view' first) i = o' at hrel ⊢
    cases hrel
    exact .none
  | some x =>
    rw [hx] at hrel
    generalize markedAt (view' first) i = o' at hrel ⊢
    cases hrel with
    | @some _ y hxy =>
      refine .some ⟨hany, hxy.2.1, fun hunmarked ↦ ?_⟩
      have hmember (m : String × ℚ) (hm : m ∈ weights) :
          (markedAt (view m.1) i).any Prod.snd = false :=
        Bool.eq_false_iff.2 (any_eq_false.1 hunmarked m hm)
      have hsame : x.1 = y.1 := hxy.2.2 (by simpa [hx] using hmember _ hfirst)
      have hpreds : weights.map (fun m ↦ (m.1, memberPred view i m.1)) =
          weights.map (fun m ↦ (m.1, memberPred view' i m.1)) :=
        map_congr_left (fun m hm ↦ by rw [memberPred_varies h (hmember m hm)])
      simp only [hsame, hpreds]

theorem markedEnsemble_varies (h : ∀ name, List.Forall₂ Varies (view name) (view' name)) :
    List.Forall₂ Varies (markedEnsemble view weights) (markedEnsemble view' weights) := by
  cases weights with
  | nil => exact .nil
  | cons m rest =>
    rw [markedEnsemble, markedEnsemble, commonIndices_varies h]
    refine forall₂_filterMap (R := Eq) (fun i _ hi ↦ ?_) (List.forall₂_eq_eq_eq ▸ rfl)
    rw [← hi]
    exact ensembleMark_varies h (mem_cons_self ..) i

theorem lookup_of_mem {l : List (String × ℚ)} (hnodup : (l.map Prod.fst).Nodup)
    {m : String × ℚ} (hm : m ∈ l) : l.lookup m.1 = some m.2 := by
  induction l with
  | nil => cases hm
  | cons n l ih =>
    obtain ⟨hn, hl⟩ := nodup_cons.1 hnodup
    rw [lookup_cons]
    rcases mem_cons.1 hm with rfl | hm
    · simp
    · have hne : m.1 ≠ n.1 := fun h ↦ hn (h ▸ mem_map_of_mem hm)
      rw [beq_eq_false_iff_ne.2 hne]
      exact ih hl hm

theorem combine_eq (hnodup : (weights.map Prod.fst).Nodup) (g : String → ℚ) :
    combine (weights.map (fun m ↦ (m.1, g m.1))) weights =
      (weights.map (fun m ↦ g m.1 * m.2)).sum / (weights.map Prod.snd).sum := by
  have hcommon : (weights.map (fun m ↦ (m.1, g m.1))).filterMap (fun p ↦
      (weights.lookup p.1).map (p.2, ·)) = weights.map (fun m ↦ (g m.1, m.2)) := by
    rw [filterMap_map, ← filterMap_eq_map]
    exact filterMap_congr (fun m hm ↦ by simp [lookup_of_mem hnodup hm])
  simp only [combine, hcommon, map_map, Function.comp_def]

theorem total_pos (hpos : ∀ m ∈ weights, 0 < m.2) (hne : ∃ m, m ∈ weights) :
    0 < (weights.map Prod.snd).sum := by
  obtain ⟨m, hm⟩ := hne
  refine (hpos m hm).trans_le (single_le_sum (fun x hx ↦ ?_) _ (mem_map_of_mem hm))
  obtain ⟨n, hn, rfl⟩ := mem_map.1 hx
  exact (hpos n hn).le

def markedWeight (view : String → List Marked) (weights : List (String × ℚ)) (i : ℕ) : ℚ :=
  (weights.map (fun m ↦ if (markedAt (view m.1) i).any Prod.snd then m.2 else 0)).sum

theorem markedWeight_pos (hpos : ∀ m ∈ weights, 0 < m.2) {i : ℕ}
    (hany : anyMarked view weights i = true) : 0 < markedWeight view weights i := by
  obtain ⟨m, hm, hmark⟩ := any_eq_true.1 hany
  have hterm : 0 < if (markedAt (view m.1) i).any Prod.snd then m.2 else 0 := by
    rw [if_pos hmark]
    exact hpos m hm
  refine hterm.trans_le (single_le_sum (fun x hx ↦ ?_) _ (mem_map_of_mem hm))
  obtain ⟨n, hn, rfl⟩ := mem_map.1 hx
  split_ifs
  · exact (hpos n hn).le
  · exact le_rfl

theorem markedWeight_zero {i : ℕ} (hany : anyMarked view weights i = false) :
    markedWeight view weights i = 0 := by
  refine sum_eq_zero (fun x hx ↦ ?_)
  obtain ⟨m, hm, rfl⟩ := mem_map.1 hx
  exact if_neg (any_eq_false.1 hany m hm)

def shift (δ : ℕ → ℚ) (f : Fold) : ℚ := f.pred + δ f.tIndex

theorem memberPred_shift {δ : ℕ → ℚ} {name : String}
    (h : view' name = (view name).map (edit (shift δ))) (i : ℕ) :
    memberPred view' i name = memberPred view i name +
      δ i * if (markedAt (view name) i).any Prod.snd then 1 else 0 := by
  rw [memberPred, memberPred, h, markedAt_edit]
  cases hx : markedAt (view name) i with
  | none => simp
  | some x =>
    have hidx := markedAt_tIndex hx
    cases hmark : x.2 with
    | false => simp [edit_of_unmarked _ hmark, hmark]
    | true => simp [edit_of_marked _ hmark, hmark, shift, hidx]

theorem combine_shift {δ : ℕ → ℚ} (hnodup : (weights.map Prod.fst).Nodup)
    (h : ∀ m ∈ weights, view' m.1 = (view m.1).map (edit (shift δ))) (i : ℕ) :
    combine (weights.map (fun m ↦ (m.1, memberPred view' i m.1))) weights =
      combine (weights.map (fun m ↦ (m.1, memberPred view i m.1))) weights +
        δ i * markedWeight view weights i / (weights.map Prod.snd).sum := by
  have hsum : (weights.map (fun m ↦ memberPred view' i m.1 * m.2)).sum =
      (weights.map (fun m ↦ memberPred view i m.1 * m.2)).sum +
        δ i * markedWeight view weights i := by
    rw [markedWeight, ← sum_map_mul_left, ← sum_map_add]
    refine congrArg List.sum (map_congr_left (fun m hm ↦ ?_))
    rw [memberPred_shift (h m hm)]
    split_ifs <;> ring
  rw [combine_eq hnodup, combine_eq hnodup, hsum, add_div]

/-- The shift that gives the marked folds of the ensemble the predictions of `p`. -/
def ensembleShift (view : String → List Marked) (weights : List (String × ℚ)) (first : String)
    (p : Fold → ℚ) (i : ℕ) : ℚ :=
  match ensembleMark view weights first i with
  | some e => (p e.1 - e.1.pred) * (weights.map Prod.snd).sum / markedWeight view weights i
  | none => 0

theorem ensembleMark_edit {first : String} {w : ℚ} (hfirst : (first, w) ∈ weights)
    (hnodup : (weights.map Prod.fst).Nodup) (hpos : ∀ m ∈ weights, 0 < m.2) (p : Fold → ℚ)
    (hvary : ∀ name, List.Forall₂ Varies (view name) (view' name))
    (h : ∀ m ∈ weights, view' m.1 =
      (view m.1).map (edit (shift (ensembleShift view weights first p)))) (i : ℕ) :
    ensembleMark view' weights first i = (ensembleMark view weights first i).map (edit p) := by
  have hcombine := combine_shift hnodup h i
  have hany : anyMarked view weights i = anyMarked view' weights i := anyMarked_varies hvary i
  have hdef : ensembleShift view weights first p i = match ensembleMark view weights first i with
    | some e => (p e.1 - e.1.pred) * (weights.map Prod.snd).sum / markedWeight view weights i
    | none => 0 := rfl
  rw [ensembleMark, h _ hfirst, markedAt_edit, hcombine, ← hany]
  rw [ensembleMark] at hdef ⊢
  cases hx : markedAt (view first) i with
  | none => rfl
  | some x =>
    rw [hx] at hdef
    have hpred (c : ℚ) : { (edit (shift (ensembleShift view weights first p)) x).1 with pred := c }
        = { x.1 with pred := c } := by
      rw [edit]
      split_ifs <;> rfl
    simp only [Option.map_some, hpred, Option.some.injEq] at hdef ⊢
    cases hmark : anyMarked view weights i with
    | false =>
      rw [markedWeight_zero hmark, mul_zero, zero_div, add_zero, edit_of_unmarked _ rfl]
    | true =>
      have hmoved := markedWeight_pos hpos hmark
      have htotal : 0 < (weights.map Prod.snd).sum := total_pos hpos ⟨_, hfirst⟩
      rw [edit_of_marked _ rfl, hdef, div_mul_cancel₀ _ hmoved.ne',
        mul_div_cancel_right₀ _ htotal.ne', add_sub_cancel]

theorem markedEnsemble_edit {first : String} {w : ℚ} {rest : List (String × ℚ)}
    (hnodup : (((first, w) :: rest).map Prod.fst).Nodup) (hpos : ∀ m ∈ (first, w) :: rest, 0 < m.2)
    (p : Fold → ℚ) (hvary : ∀ name, List.Forall₂ Varies (view name) (view' name))
    (h : ∀ m ∈ (first, w) :: rest, view' m.1 =
      (view m.1).map (edit (shift (ensembleShift view ((first, w) :: rest) first p)))) :
    markedEnsemble view' ((first, w) :: rest) =
      (markedEnsemble view ((first, w) :: rest)).map (edit p) := by
  rw [markedEnsemble, markedEnsemble, ← commonIndices_varies hvary, map_filterMap]
  exact filterMap_congr (fun i _ ↦
    ensembleMark_edit (mem_cons_self ..) hnodup hpos p hvary h i)

end Ensemble

end TalaPala.Forecast
