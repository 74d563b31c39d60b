import TalaPala.Forecast.MarkedFolds

namespace TalaPala.Forecast

open Library List

section Reproduced

theorem reproduces_of_eq {p : Fold × Fold} (h : p.1.pred = p.2.pred) : reproduces p = true := by
  have hnonneg : 0 ≤ degenerateFoldTolerance * max 1 |p.2.pred| :=
    mul_nonneg (by norm_num [degenerateFoldTolerance]) (zero_le_one.trans (le_max_left _ _))
  rw [reproduces, h, sub_self, abs_zero]
  exact decide_eq_true hnonneg

def away (x : ℚ) : ℚ := x + (1 + |x|)

theorem not_reproduces_of_far {p : Fold × Fold} {x : ℚ}
    (hfar : |p.1.pred - p.2.pred| = 1 + |x|) (hnear : |p.2.pred| ≤ 1 + 2 * |x|) :
    reproduces p = false := by
  have hx := abs_nonneg x
  have hmax : max 1 |p.2.pred| ≤ 1 + 2 * |x| := max_le (by linarith) hnear
  have hlt : degenerateFoldTolerance * max 1 |p.2.pred| < 1 + |x| := by
    have := mul_le_mul_of_nonneg_left hmax
      (show 0 ≤ degenerateFoldTolerance by norm_num [degenerateFoldTolerance])
    rw [degenerateFoldTolerance] at *
    linarith
  rw [reproduces, hfar]
  exact decide_eq_false (not_le.2 hlt)

theorem not_reproduces_away_left {p : Fold × Fold} (h : p.1.pred = away p.2.pred) :
    reproduces p = false := by
  have hx := abs_nonneg p.2.pred
  refine not_reproduces_of_far (x := p.2.pred) ?_ (by linarith)
  rw [h, away, add_sub_cancel_left, abs_of_nonneg (by linarith)]

theorem not_reproduces_away_right {p : Fold × Fold} (h : p.2.pred = away p.1.pred) :
    reproduces p = false := by
  have hx := abs_nonneg p.1.pred
  refine not_reproduces_of_far (x := p.1.pred) ?_ ?_
  · rw [h, away, sub_add_cancel_left, abs_neg, abs_of_nonneg (by linarith)]
  · rw [h, away]
    have hsum := abs_add_le p.1.pred (1 + |p.1.pred|)
    rw [abs_of_nonneg (add_nonneg zero_le_one hx)] at hsum
    linarith

def certain (pairs : List MarkedPair) : ℕ :=
  pairs.countP (fun q ↦ !q.marked && reproduces q.folds)

def undecided (pairs : List MarkedPair) : ℕ := pairs.countP MarkedPair.marked

theorem PairVaries.folds_eq {q q' : MarkedPair} (h : PairVaries q q') (hq : q.marked = false) :
    q.folds = q'.folds := by
  obtain ⟨hleft, hright⟩ := Bool.or_eq_false_iff.1 hq
  exact Prod.ext (h.1.2.2 hleft) (h.2.2.2 hright)

theorem certain_le {pairs pairs' : List MarkedPair} (h : List.Forall₂ PairVaries pairs pairs') :
    certain pairs ≤ (pairs'.map MarkedPair.folds).countP reproduces := by
  rw [countP_map]
  refine forall₂_countP_le (fun q q' hq hsame ↦ ?_) h
  obtain ⟨hmarked, hsame⟩ := Bool.and_eq_true_iff.1 hsame
  rw [Function.comp_apply, ← hq.folds_eq (by simpa using hmarked), hsame]

theorem le_certain_add {pairs pairs' : List MarkedPair}
    (h : List.Forall₂ PairVaries pairs pairs') :
    (pairs'.map MarkedPair.folds).countP reproduces ≤ certain pairs + undecided pairs := by
  rw [countP_map, certain, undecided, ← countP_or_eq]
  refine forall₂_countP_le (fun q' q hq hsame ↦ ?_) h.flip
  cases hmarked : q.marked with
  | true => rfl
  | false =>
    rw [PairVaries.folds_eq hq hmarked]
    exact hsame

def settledPred (v u : List Marked) (i : ℕ) : ℚ :=
  match markedAt v i, markedAt u i with
  | some (f, false), _ => f.pred
  | _, some (g, false) => g.pred
  | _, _ => 0

def agreeing (v u : List Marked) (f : Fold) : ℚ := settledPred v u f.tIndex

def differing (v u : List Marked) (f : Fold) : ℚ := away (settledPred v u f.tIndex)

def differing' (v u : List Marked) (f : Fold) : ℚ :=
  if (markedAt v f.tIndex).any Prod.snd then settledPred v u f.tIndex
  else away (settledPred v u f.tIndex)

variable {v u : List Marked}

theorem reproduces_agreeing (hv : (v.map (·.1.tIndex)).Nodup) {q : MarkedPair}
    (hq : q ∈ markedPairs v u) :
    reproduces (MarkedPair.folds (Prod.map (edit (agreeing v u)) (edit (agreeing v u)) q)) =
      (q.marked || reproduces q.folds) := by
  obtain ⟨hmem, hu⟩ := mem_markedPairs hq
  have hv := markedAt_of_mem hv hmem
  have hidx := markedAt_tIndex hu
  obtain ⟨⟨f, m⟩, ⟨g, n⟩⟩ := q
  dsimp only at hv hu hidx
  cases m <;> cases n
  · rfl
  · refine reproduces_of_eq ?_
    simp [MarkedPair.folds, edit, agreeing, settledPred, hv, hu, hidx]
  · refine reproduces_of_eq ?_
    simp [MarkedPair.folds, edit, agreeing, settledPred, hv, hu]
  · refine reproduces_of_eq ?_
    simp [MarkedPair.folds, edit, agreeing, settledPred, hv, hu, hidx]

theorem reproduces_differing (hv : (v.map (·.1.tIndex)).Nodup) {q : MarkedPair}
    (hq : q ∈ markedPairs v u) :
    reproduces (MarkedPair.folds (Prod.map (edit (differing v u)) (edit (differing' v u)) q)) =
      (!q.marked && reproduces q.folds) := by
  obtain ⟨hmem, hu⟩ := mem_markedPairs hq
  have hv := markedAt_of_mem hv hmem
  have hidx := markedAt_tIndex hu
  obtain ⟨⟨f, m⟩, ⟨g, n⟩⟩ := q
  dsimp only at hv hu hidx
  cases m <;> cases n
  · rfl
  · refine not_reproduces_away_right ?_
    simp [MarkedPair.folds, edit, differing', settledPred, hv, hu, hidx]
  · refine not_reproduces_away_left ?_
    simp [MarkedPair.folds, edit, differing, settledPred, hv, hu]
  · refine not_reproduces_away_left ?_
    simp [MarkedPair.folds, edit, differing, differing', settledPred, hv, hu, hidx]

def ShareSettled (pairs : List MarkedPair) : Prop :=
  pairs.length < 2 * certain pairs ∨ 2 * (certain pairs + undecided pairs) ≤ pairs.length

def MostlyNaive (pairs : List (Fold × Fold)) : Prop := pairs.length < 2 * pairs.countP reproduces

theorem degenerateShare_lt_iff (candidate naive : List Fold) :
    maxDegenerateShare < degenerateShare candidate naive ↔
      MostlyNaive (paired candidate naive) := by
  simp only [degenerateShare, MostlyNaive, maxDegenerateShare]
  split_ifs with h
  · rw [h]
    norm_num
  · have hpos : 0 < ((paired candidate naive).length : ℚ) := by
      exact_mod_cast length_pos_iff.2 h
    rw [div_lt_div_iff₀ two_pos hpos, one_mul, mul_comm]
    exact_mod_cast Iff.rfl

theorem ShareSettled.iff {pairs pairs' : List MarkedPair} (h : ShareSettled pairs)
    (hvary : List.Forall₂ PairVaries pairs pairs') :
    MostlyNaive (pairs'.map MarkedPair.folds) ↔ pairs.length < 2 * certain pairs := by
  have hlow := certain_le hvary
  have hhigh := le_certain_add hvary
  have hlen := hvary.length_eq
  rw [MostlyNaive, length_map]
  rcases h with h | h <;> omega

theorem mostlyNaive_edit (p r : Fold → ℚ) :
    MostlyNaive (paired ((v.map (edit p)).map Prod.fst) ((u.map (edit r)).map Prod.fst)) ↔
      (markedPairs v u).length < 2 * (markedPairs v u).countP (fun q ↦
        reproduces (MarkedPair.folds (Prod.map (edit p) (edit r) q))) := by
  rw [paired_marked, markedPairs_edit, MostlyNaive, length_map, length_map, countP_map, countP_map]
  rfl

theorem shareSettled_of_edits (hv : (v.map (·.1.tIndex)).Nodup)
    (h : MostlyNaive (paired ((v.map (edit (agreeing v u))).map Prod.fst)
        ((u.map (edit (agreeing v u))).map Prod.fst)) ↔
      MostlyNaive (paired ((v.map (edit (differing v u))).map Prod.fst)
        ((u.map (edit (differing' v u))).map Prod.fst))) :
    ShareSettled (markedPairs v u) := by
  have hagree : (markedPairs v u).countP (fun q ↦
      reproduces (MarkedPair.folds (Prod.map (edit (agreeing v u)) (edit (agreeing v u)) q))) =
        certain (markedPairs v u) + undecided (markedPairs v u) := by
    rw [certain, undecided, ← countP_or_eq]
    exact countP_congr (fun q hq ↦ by rw [reproduces_agreeing hv hq])
  have hdiffer : (markedPairs v u).countP (fun q ↦
      reproduces (MarkedPair.folds (Prod.map (edit (differing v u)) (edit (differing' v u)) q))) =
        certain (markedPairs v u) :=
    countP_congr (fun q hq ↦ by rw [reproduces_differing hv hq])
  rw [mostlyNaive_edit, mostlyNaive_edit, hagree, hdiffer] at h
  rw [ShareSettled]
  omega

end Reproduced

section Bootstrap

def diffLow (q : MarkedPair) : ℚ := termLow q.1 * 100 - termHigh q.2 * 100

def diffHigh (q : MarkedPair) : ℚ := termHigh q.1 * 100 - termLow q.2 * 100

theorem diffLow_le {q q' : MarkedPair} (h : PairVaries q q') : diffLow q ≤ smapeDiff q'.folds :=
  sub_le_sub (mul_le_mul_of_nonneg_right (termLow_le h.1) (by norm_num))
    (mul_le_mul_of_nonneg_right (le_termHigh h.2) (by norm_num))

theorem le_diffHigh {q q' : MarkedPair} (h : PairVaries q q') : smapeDiff q'.folds ≤ diffHigh q :=
  sub_le_sub (mul_le_mul_of_nonneg_right (le_termHigh h.1) (by norm_num))
    (mul_le_mul_of_nonneg_right (termLow_le h.2) (by norm_num))

theorem bootstrapUpper_mono (resample : ℕ → List (List ℕ)) {diffs diffs' : List ℚ}
    (h : List.Forall₂ (· ≤ ·) diffs diffs') :
    bootstrapUpper resample diffs ≤ bootstrapUpper resample diffs' := by
  have hget (i : ℕ) : diffs.getD i 0 ≤ diffs'.getD i 0 := by
    induction h generalizing i with
    | nil => exact le_rfl
    | cons hd _ ih =>
      cases i with
      | zero => exact hd
      | succ i => exact ih i
  rw [bootstrapUpper, bootstrapUpper, h.length_eq]
  refine quantile_mono (by norm_num [bootstrapConf]) ?_
  rw [List.forall₂_map_left_iff, List.forall₂_map_right_iff, List.forall₂_same]
  intro idx _
  refine mean_mono ?_
  rw [List.forall₂_map_left_iff, List.forall₂_map_right_iff, List.forall₂_same]
  exact fun i _ ↦ hget i

def BootstrapSettled (resample : ℕ → List (List ℕ)) (pairs : List MarkedPair) : Prop :=
  pairs.length < 8 ∨ bootstrapUpper resample (pairs.map diffHigh) < 0 ∨
    0 ≤ bootstrapUpper resample (pairs.map diffLow)

def Unimproved (resample : ℕ → List (List ℕ)) (pairs : List (Fold × Fold)) : Prop :=
  8 ≤ pairs.length ∧ 0 ≤ bootstrapUpper resample (pairs.map smapeDiff)

theorem bootstrapBeats_iff (resample : ℕ → List (List ℕ)) (candidate baseline : List Fold) :
    bootstrapBeats resample candidate baseline = some false ↔
      Unimproved resample (paired candidate baseline) := by
  simp only [bootstrapBeats, Unimproved]
  split_ifs with h
  · simp; omega
  · simp; omega

theorem BootstrapSettled.iff {resample : ℕ → List (List ℕ)} {pairs pairs' : List MarkedPair}
    (h : BootstrapSettled resample pairs) (hvary : List.Forall₂ PairVaries pairs pairs') :
    Unimproved resample (pairs'.map MarkedPair.folds) ↔
      8 ≤ pairs.length ∧ 0 ≤ bootstrapUpper resample (pairs.map diffLow) := by
  have hlow : bootstrapUpper resample (pairs.map diffLow) ≤
      bootstrapUpper resample ((pairs'.map MarkedPair.folds).map smapeDiff) := by
    refine bootstrapUpper_mono resample ?_
    rw [map_map, List.forall₂_map_left_iff, List.forall₂_map_right_iff]
    exact hvary.imp (fun _ _ ↦ diffLow_le)
  have hhigh : bootstrapUpper resample ((pairs'.map MarkedPair.folds).map smapeDiff) ≤
      bootstrapUpper resample (pairs.map diffHigh) := by
    refine bootstrapUpper_mono resample ?_
    rw [map_map, List.forall₂_map_left_iff, List.forall₂_map_right_iff]
    exact hvary.flip.imp (fun _ _ ↦ le_diffHigh)
  rw [Unimproved, length_map, ← hvary.length_eq]
  refine and_congr_right (fun hmany ↦ ?_)
  rcases h with h | h | h
  · exact absurd hmany (not_le.2 h)
  · exact iff_of_false (not_le.2 (hhigh.trans_lt h)) (not_le.2 ((hlow.trans hhigh).trans_lt h))
  · exact iff_of_true (h.trans hlow) h

theorem unimproved_edit {resample : ℕ → List (List ℕ)} {v u : List Marked} {p r : Fold → ℚ}
    (diff : MarkedPair → ℚ)
    (hdiff : ∀ q, smapeDiff (MarkedPair.folds (Prod.map (edit p) (edit r) q)) = diff q) :
    Unimproved resample (paired ((v.map (edit p)).map Prod.fst) ((u.map (edit r)).map Prod.fst)) ↔
      8 ≤ (markedPairs v u).length ∧
        0 ≤ bootstrapUpper resample ((markedPairs v u).map diff) := by
  rw [paired_marked, markedPairs_edit, Unimproved, length_map, length_map, map_map, map_map]
  simp only [Function.comp_def, hdiff]

theorem bootstrapSettled_of_edits {resample : ℕ → List (List ℕ)} {v u : List Marked}
    (h : Unimproved resample
        (paired ((v.map (edit hit)).map Prod.fst) ((u.map (edit miss)).map Prod.fst)) ↔
      Unimproved resample
        (paired ((v.map (edit miss)).map Prod.fst) ((u.map (edit hit)).map Prod.fst))) :
    BootstrapSettled resample (markedPairs v u) := by
  rw [unimproved_edit diffLow, unimproved_edit diffHigh] at h
  · rw [BootstrapSettled]
    by_cases hmany : (markedPairs v u).length < 8
    · exact .inl hmany
    · by_cases hneg : bootstrapUpper resample ((markedPairs v u).map diffHigh) < 0
      · exact .inr (.inl hneg)
      · exact .inr (.inr (h.2 ⟨not_lt.1 hmany, not_lt.1 hneg⟩).2)
  · intro q
    rw [diffHigh, ← smapeTerm_edit_miss, ← smapeTerm_edit_hit]
    rfl
  · intro q
    rw [diffLow, ← smapeTerm_edit_miss, ← smapeTerm_edit_hit]
    rfl

end Bootstrap

end TalaPala.Forecast
