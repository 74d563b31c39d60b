import TalaPala.Forecast.Tournament
import TalaPala.Library.Checked

namespace TalaPala.Forecast

open Library List

abbrev Marked := Fold × Bool

/-- The folds beyond the first `selected` are marked. -/
def mark (selected : ℕ) (folds : List Fold) : List Marked :=
  (folds.take selected).map (·, false) ++ (folds.drop selected).map (·, true)

def Varies (x y : Marked) : Prop :=
  x.2 = y.2 ∧ x.1.tIndex = y.1.tIndex ∧ (x.2 = false → x.1 = y.1)

/-- The marked folds take the predictions of `p`. -/
def edit (p : Fold → ℚ) (x : Marked) : Marked :=
  if x.2 then ({ x.1 with pred := p x.1 }, true) else x

def markedAt (v : List Marked) (i : ℕ) : Option Marked := v.find? (·.1.tIndex = i)

@[simp]
theorem mark_nil (selected : ℕ) : mark selected [] = [] := by simp [mark]

@[simp]
theorem mark_zero_cons (f : Fold) (folds : List Fold) :
    mark 0 (f :: folds) = (f, true) :: mark 0 folds := rfl

@[simp]
theorem mark_succ_cons (selected : ℕ) (f : Fold) (folds : List Fold) :
    mark (selected + 1) (f :: folds) = (f, false) :: mark selected folds := rfl

theorem mark_folds (selected : ℕ) (folds : List Fold) :
    (mark selected folds).map Prod.fst = folds := by
  simp [mark, Function.comp_def]

theorem mark_length (selected : ℕ) (folds : List Fold) :
    (mark selected folds).length = folds.length := by
  rw [← length_map Prod.fst, mark_folds]

theorem mark_varies {selected : ℕ} {folds folds' : List Fold}
    (hsel : folds.take selected = folds'.take selected)
    (hidx : List.Forall₂ (fun f g ↦ f.tIndex = g.tIndex) folds folds') :
    List.Forall₂ Varies (mark selected folds) (mark selected folds') := by
  refine rel_append ?_ ?_
  · rw [hsel, List.forall₂_same]
    exact fun _ _ ↦ ⟨rfl, rfl, fun _ ↦ rfl⟩
  · rw [List.forall₂_map_left_iff, List.forall₂_map_right_iff]
    exact (List.forall₂_drop selected hidx).imp (fun _ _ h ↦ ⟨rfl, h, nofun⟩)

@[simp]
theorem edit_mark (p : Fold → ℚ) (x : Marked) : (edit p x).2 = x.2 := by
  rw [edit]
  split_ifs with h
  · exact h.symm
  · rfl

@[simp]
theorem edit_tIndex (p : Fold → ℚ) (x : Marked) : (edit p x).1.tIndex = x.1.tIndex := by
  rw [edit]
  split_ifs <;> rfl

theorem edit_of_marked (p : Fold → ℚ) {x : Marked} (h : x.2 = true) :
    edit p x = ({ x.1 with pred := p x.1 }, true) := if_pos h

theorem edit_of_unmarked (p : Fold → ℚ) {x : Marked} (h : x.2 = false) : edit p x = x := by
  rw [edit, h]
  rfl

theorem edit_mark_folds (p : Fold → ℚ) (selected : ℕ) (folds : List Fold) :
    mark selected (((mark selected folds).map (edit p)).map Prod.fst) =
      (mark selected folds).map (edit p) := by
  induction folds generalizing selected with
  | nil => simp
  | cons f folds ih =>
    cases selected with
    | zero => simpa [edit_of_marked] using ih 0
    | succ selected => simpa [edit_of_unmarked] using ih selected

section Lookup

theorem foldAt_markedAt (v : List Marked) (i : ℕ) :
    foldAt (v.map Prod.fst) i = (markedAt v i).map Prod.fst := find?_map ..

theorem markedAt_edit (p : Fold → ℚ) (v : List Marked) (i : ℕ) :
    markedAt (v.map (edit p)) i = (markedAt v i).map (edit p) := by
  rw [markedAt, find?_map, markedAt]
  congr 2
  funext x
  simp

theorem markedAt_tIndex {v : List Marked} {i : ℕ} {x : Marked} (h : markedAt v i = some x) :
    x.1.tIndex = i := by
  simpa using find?_some h

theorem markedAt_varies {v v' : List Marked} (h : List.Forall₂ Varies v v') (i : ℕ) :
    Option.Rel Varies (markedAt v i) (markedAt v' i) :=
  forall₂_find? (fun _ _ hxy ↦ by rw [hxy.2.1]) h

theorem markedAt_of_mem {v : List Marked} (hnodup : (v.map (·.1.tIndex)).Nodup) {x : Marked}
    (hx : x ∈ v) : markedAt v x.1.tIndex = some x := by
  induction v with
  | nil => cases hx
  | cons y v ih =>
    obtain ⟨hy, hv⟩ := nodup_cons.1 hnodup
    rw [markedAt, find?_cons]
    rcases mem_cons.1 hx with rfl | hx
    · simp
    · have hne : y.1.tIndex ≠ x.1.tIndex := fun h ↦ hy (mem_map.2 ⟨x, hx, h.symm⟩)
      rw [decide_eq_false hne]
      exact ih hv hx

end Lookup

section Errors

theorem smapeTerm_nonneg (f : Fold) : 0 ≤ f.smapeTerm := by
  simp only [Fold.smapeTerm]
  split_ifs with h
  · exact div_nonneg (mul_nonneg zero_le_two (abs_nonneg _)) h.le
  · exact le_rfl

theorem smapeTerm_le_two (f : Fold) : f.smapeTerm ≤ 2 := by
  simp only [Fold.smapeTerm]
  split_ifs with h
  · rw [div_le_iff₀ h]
    exact mul_le_mul_of_nonneg_left (abs_sub _ _) zero_le_two
  · exact zero_le_two

def hit (f : Fold) : ℚ := f.actual

def miss (f : Fold) : ℚ := if f.actual = 0 then 1 else -f.actual

theorem smapeTerm_hit (f : Fold) : Fold.smapeTerm { f with pred := hit f } = 0 := by
  simp [Fold.smapeTerm, hit]

theorem smapeTerm_miss (f : Fold) : Fold.smapeTerm { f with pred := miss f } = 2 := by
  by_cases h : f.actual = 0
  · simp [Fold.smapeTerm, miss, h]
  · have hpos : 0 < |f.actual| + |f.actual| := by positivity
    have hdouble : |f.actual - -f.actual| = |f.actual| + |f.actual| := by
      rw [sub_neg_eq_add, ← two_mul, abs_mul, abs_two, two_mul]
    simp only [Fold.smapeTerm, miss, if_neg h, abs_neg, if_pos hpos, hdouble]
    rw [mul_div_assoc, div_self hpos.ne', mul_one]

def termLow (x : Marked) : ℚ := if x.2 then 0 else x.1.smapeTerm

def termHigh (x : Marked) : ℚ := if x.2 then 2 else x.1.smapeTerm

theorem termLow_le {x y : Marked} (h : Varies x y) : termLow x ≤ y.1.smapeTerm := by
  rw [termLow]
  split_ifs with hx
  · exact smapeTerm_nonneg _
  · rw [h.2.2 (by simpa using hx)]

theorem le_termHigh {x y : Marked} (h : Varies x y) : y.1.smapeTerm ≤ termHigh x := by
  rw [termHigh]
  split_ifs with hx
  · exact smapeTerm_le_two _
  · rw [h.2.2 (by simpa using hx)]

theorem smapeTerm_edit_hit (x : Marked) : (edit hit x).1.smapeTerm = termLow x := by
  rw [edit, termLow]
  split_ifs
  · exact smapeTerm_hit _
  · rfl

theorem smapeTerm_edit_miss (x : Marked) : (edit miss x).1.smapeTerm = termHigh x := by
  rw [edit, termHigh]
  split_ifs
  · exact smapeTerm_miss _
  · rfl

def smapeLow (v : List Marked) : ℚ := mean (v.map termLow) * 100

def smapeHigh (v : List Marked) : ℚ := mean (v.map termHigh) * 100

theorem smapeLow_le {v v' : List Marked} (h : List.Forall₂ Varies v v') :
    smapeLow v ≤ (foldMetrics (v'.map Prod.fst)).smape := by
  refine mul_le_mul_of_nonneg_right (mean_mono ?_) (by norm_num)
  rw [map_map, List.forall₂_map_left_iff, List.forall₂_map_right_iff]
  exact h.imp (fun _ _ ↦ termLow_le)

theorem le_smapeHigh {v v' : List Marked} (h : List.Forall₂ Varies v v') :
    (foldMetrics (v'.map Prod.fst)).smape ≤ smapeHigh v := by
  refine mul_le_mul_of_nonneg_right (mean_mono ?_) (by norm_num)
  rw [map_map, List.forall₂_map_left_iff, List.forall₂_map_right_iff]
  exact h.flip.imp (fun _ _ ↦ le_termHigh)

theorem smape_edit_hit (v : List Marked) :
    (foldMetrics ((v.map (edit hit)).map Prod.fst)).smape = smapeLow v := by
  simp only [foldMetrics, smapeLow, map_map, Function.comp_def, smapeTerm_edit_hit]

theorem smape_edit_miss (v : List Marked) :
    (foldMetrics ((v.map (edit miss)).map Prod.fst)).smape = smapeHigh v := by
  simp only [foldMetrics, smapeHigh, map_map, Function.comp_def, smapeTerm_edit_miss]

end Errors

section Pairs

abbrev MarkedPair := Marked × Marked

def MarkedPair.folds (q : MarkedPair) : Fold × Fold := (q.1.1, q.2.1)

def MarkedPair.marked (q : MarkedPair) : Bool := q.1.2 || q.2.2

def markedPairs (v u : List Marked) : List MarkedPair :=
  v.filterMap (fun x ↦ (markedAt u x.1.tIndex).map (x, ·))

def PairVaries (q q' : MarkedPair) : Prop := Varies q.1 q'.1 ∧ Varies q.2 q'.2

theorem paired_marked (v u : List Marked) :
    paired (v.map Prod.fst) (u.map Prod.fst) = (markedPairs v u).map MarkedPair.folds := by
  rw [paired, markedPairs, filterMap_map, map_filterMap]
  refine filterMap_congr (fun x _ ↦ ?_)
  rw [Function.comp_apply, foldAt_markedAt, Option.map_map, Option.map_map]
  rfl

theorem markedPairs_varies {v v' u u' : List Marked} (hv : List.Forall₂ Varies v v')
    (hu : List.Forall₂ Varies u u') :
    List.Forall₂ PairVaries (markedPairs v u) (markedPairs v' u') := by
  refine forall₂_filterMap (fun x y hxy ↦ ?_) hv
  rw [← hxy.2.1]
  exact rel_map (fun _ _ hz ↦ ⟨hxy, hz⟩) (markedAt_varies hu x.1.tIndex)

theorem markedPairs_edit (p r : Fold → ℚ) (v u : List Marked) :
    markedPairs (v.map (edit p)) (u.map (edit r)) =
      (markedPairs v u).map (Prod.map (edit p) (edit r)) := by
  rw [markedPairs, markedPairs, filterMap_map, map_filterMap]
  refine filterMap_congr (fun x _ ↦ ?_)
  rw [Function.comp_apply, edit_tIndex, markedAt_edit, Option.map_map, Option.map_map]
  rfl

theorem mem_markedPairs {v u : List Marked} {q : MarkedPair} (hq : q ∈ markedPairs v u) :
    q.1 ∈ v ∧ markedAt u q.1.1.tIndex = some q.2 := by
  obtain ⟨x, hx, hmap⟩ := mem_filterMap.1 hq
  obtain ⟨y, hy, rfl⟩ := Option.map_eq_some_iff.1 hmap
  exact ⟨hx, hy⟩

end Pairs

end TalaPala.Forecast
