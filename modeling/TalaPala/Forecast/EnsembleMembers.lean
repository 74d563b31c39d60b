import TalaPala.Forecast.HoldoutChange

namespace TalaPala.Forecast

open Library List

section Members

variable {t : Tournament} {walk walk' : String → Walk}

theorem mem_keepMember {folds : String → List Fold} {kept : List (String × ℚ)}
    {m n : String × ℚ} (hn : n ∈ keepMember folds kept m) : n ∈ kept ∨ n = m := by
  rw [keepMember] at hn
  split_ifs at hn
  · exact .inl hn
  · exact (mem_append.1 hn).imp_right mem_singleton.1

theorem foldl_keepMember_congr {folds folds' : String → List Fold} {kept l : List (String × ℚ)}
    (hnodup : (l.map Prod.fst).Nodup) (hkept : ∀ k ∈ kept, ∀ m ∈ l, k.1 ≠ m.1)
    (h : ∀ a ∈ kept ++ l, ∀ b ∈ l, a.1 ≠ b.1 →
      samePredictions (folds a.1) (folds b.1) = samePredictions (folds' a.1) (folds' b.1)) :
    l.foldl (keepMember folds) kept = l.foldl (keepMember folds') kept := by
  induction l generalizing kept with
  | nil => rfl
  | cons m l ih =>
    obtain ⟨hm, hl⟩ := nodup_cons.1 hnodup
    have hstep : keepMember folds kept m = keepMember folds' kept m := by
      have hany : kept.any (fun k ↦ samePredictions (folds k.1) (folds m.1)) =
          kept.any (fun k ↦ samePredictions (folds' k.1) (folds' m.1)) := by
        rw [Bool.eq_iff_iff, any_eq_true, any_eq_true]
        refine exists_congr (fun k ↦ and_congr_right (fun hk ↦ ?_))
        rw [h k (mem_append_left _ hk) m (mem_cons_self ..)
          (hkept k hk m (mem_cons_self ..))]
      rw [keepMember, keepMember, hany]
    rw [foldl_cons, foldl_cons, ← hstep]
    refine ih hl (fun k hk n hn ↦ ?_) (fun a ha b hb ↦ ?_)
    · rcases mem_keepMember hk with hk | rfl
      · exact hkept k hk n (mem_cons_of_mem _ hn)
      · exact fun heq ↦ hm (heq ▸ mem_map_of_mem hn)
    · refine h a ?_ b (mem_cons_of_mem _ hb)
      rcases mem_append.1 ha with ha | ha
      · rcases mem_keepMember ha with ha | rfl
        · exact mem_append_left _ ha
        · exact mem_append_right _ (mem_cons_self ..)
      · exact mem_append_right _ (mem_cons_of_mem _ ha)

theorem dropDuplicateMembers_congr {members : List (String × ℚ)}
    {folds folds' : String → List Fold} (hnodup : (members.map Prod.fst).Nodup)
    (h : ∀ a ∈ members, ∀ b ∈ members, a.1 ≠ b.1 →
      samePredictions (folds a.1) (folds b.1) = samePredictions (folds' a.1) (folds' b.1)) :
    dropDuplicateMembers members folds = dropDuplicateMembers members folds' := by
  have hperm := perm_insertionSort (fun a b : String × ℚ ↦ a.2 ≤ b.2) members
  refine foldl_keepMember_congr ((hperm.map Prod.fst).nodup_iff.2 hnodup) nofun ?_
  intro a ha b hb
  exact h a (hperm.mem_iff.1 ha) b (hperm.mem_iff.1 hb)

theorem samePredictions_take {left right : List Fold} (n : ℕ)
    (h : samePredictions left right = true) :
    samePredictions (left.take n) (right.take n) = true := by
  obtain ⟨hlen, hall⟩ := Bool.and_eq_true_iff.1 h
  have hlen := of_decide_eq_true hlen
  refine Bool.and_eq_true_iff.2 ⟨decide_eq_true ?_, ?_⟩
  · rw [length_take, length_take, hlen]
  · have hzip : (left.take n).zip (right.take n) = (left.zip right).take n :=
      take_zipWith.symm
    rw [hzip, all_eq_true]
    exact fun p hp ↦ all_eq_true.1 hall p (mem_of_mem_take hp)

theorem selection_eq_self {folds : List Fold} (h : ¬ (t.selection folds).length < folds.length) :
    t.selection folds = folds := by
  rw [selection_eq_take, length_take] at h
  rw [selection_eq_take]
  exact take_of_length_le (by omega)

theorem selection_length_congr {left right : List Fold} (h : left.length = right.length) :
    (t.selection left).length = (t.selection right).length := by
  rw [selection_eq_take, selection_eq_take, length_take, length_take, h]

theorem samePredictions_selection {left right : List Fold} (hlen : left.length = right.length)
    (h : samePredictions left right = true) :
    samePredictions (t.selection left) (t.selection right) = true := by
  rw [selection_eq_take, selection_eq_take, hlen]
  exact samePredictions_take _ h

theorem samePredictions_change (h : t.HoldoutChange walk walk') {a b : String}
    (ha : a ∈ t.candidates) (hb : b ∈ t.candidates)
    (hapart : ¬ t.Twins (walk a).folds (walk b).folds) :
    samePredictions (walk a).folds (walk b).folds =
      samePredictions (walk' a).folds (walk' b).folds := by
  have hsel := (h a ha).1
  have hsel' := (h b hb).1
  by_cases hlen : (walk a).folds.length = (walk b).folds.length
  · have hlen' : (walk' a).folds.length = (walk' b).folds.length := by
      rwa [← h.length_eq ha, ← h.length_eq hb]
    by_cases hcut : (t.selection (walk a).folds).length < (walk a).folds.length
    · have hdiffer (hsame : samePredictions (t.selection (walk a).folds)
          (t.selection (walk b).folds) = true) : False := hapart ⟨hlen, hcut, hsame⟩
      have hfalse : samePredictions (walk a).folds (walk b).folds = false :=
        Bool.eq_false_iff.2 (fun hsame ↦ hdiffer (samePredictions_selection hlen hsame))
      have hfalse' : samePredictions (walk' a).folds (walk' b).folds = false :=
        Bool.eq_false_iff.2 (fun hsame ↦
          hdiffer (hsel ▸ hsel' ▸ samePredictions_selection hlen' hsame))
      rw [hfalse, hfalse']
    · have hwhole := selection_eq_self hcut
      have hwhole' : t.selection (walk b).folds = (walk b).folds := by
        rw [selection_length_congr hlen, hlen] at hcut
        exact selection_eq_self hcut
      have hwhole_a : t.selection (walk' a).folds = (walk' a).folds := by
        rw [hsel, h.length_eq ha] at hcut
        exact selection_eq_self hcut
      have hwhole_b : t.selection (walk' b).folds = (walk' b).folds := by
        rw [selection_length_congr hlen, hlen, hsel', h.length_eq hb] at hcut
        exact selection_eq_self hcut
      rw [← hwhole, ← hwhole', hsel, hsel', hwhole_a, hwhole_b]
  · have hlen' : (walk' a).folds.length ≠ (walk' b).folds.length := by
      rwa [← h.length_eq ha, ← h.length_eq hb]
    rw [samePredictions, samePredictions, decide_eq_false hlen, decide_eq_false hlen']
    rfl

theorem Tournament.HoldoutChange.weights_eq (h : t.HoldoutChange walk walk')
    (hapart : t.Apart walk) :
    ensembleWeights (t.candidateResults walk) = ensembleWeights (t.candidateResults walk') := by
  have hsmapes := h.sameBoard.memberSmapes_eq
  have hmembers : members (t.candidateResults walk) = members (t.candidateResults walk') := by
    rw [members, members, ← hsmapes]
    rw [dropDuplicateMembers_congr memberSmapes_nodup (fun a ha b hb hne ↦ ?_)]
    have hacand := (mem_memberSmapes ha).1
    have hbcand := (mem_memberSmapes hb).1
    rw [foldsOf_of_mem hacand, foldsOf_of_mem hbcand, foldsOf_of_mem hacand, foldsOf_of_mem hbcand]
    exact samePredictions_change h hacand hbcand (hapart a ha b hb hne)
  rw [ensembleWeights, ensembleWeights, hmembers]

theorem foldl_keepMember_sublist (folds : String → List Fold) (kept l : List (String × ℚ)) :
    (l.foldl (keepMember folds) kept).Sublist (kept ++ l) := by
  induction l generalizing kept with
  | nil => simp
  | cons m l ih =>
    refine (ih (keepMember folds kept m)).trans ?_
    rw [keepMember]
    split_ifs
    · exact List.Sublist.append_left (sublist_cons_self m l) kept
    · rw [append_assoc, singleton_append]

theorem members_spec {m : String × ℚ} (hm : m ∈ members (t.candidateResults walk)) :
    m ∈ memberSmapes (t.candidateResults walk) := by
  rw [members] at hm
  split_ifs at hm
  · have hsub := foldl_keepMember_sublist (t.candidateResults walk).foldsOf []
      ((memberSmapes (t.candidateResults walk)).insertionSort (fun a b ↦ a.2 ≤ b.2))
    exact (perm_insertionSort _ _).mem_iff.1 (hsub.subset hm)
  · exact hm

theorem members_nodup : ((members (t.candidateResults walk)).map Prod.fst).Nodup := by
  rw [members]
  split_ifs
  · have hsub := foldl_keepMember_sublist (t.candidateResults walk).foldsOf []
      ((memberSmapes (t.candidateResults walk)).insertionSort (fun a b ↦ a.2 ≤ b.2))
    refine (hsub.map Prod.fst).nodup ?_
    exact ((perm_insertionSort _ _).map Prod.fst).nodup_iff.2 memberSmapes_nodup
  · exact memberSmapes_nodup

theorem inverseSmapeWeights_names (smapes : List (String × ℚ)) :
    (inverseSmapeWeights smapes).map Prod.fst = smapes.map Prod.fst := by
  simp only [inverseSmapeWeights]
  split_ifs <;> simp [Function.comp_def]

theorem inverseSmapeWeights_pos {smapes : List (String × ℚ)} {m : String × ℚ}
    (hm : m ∈ inverseSmapeWeights smapes) : 0 < m.2 := by
  simp only [inverseSmapeWeights] at hm
  split_ifs at hm with htotal
  · obtain ⟨r, -, rfl⟩ := mem_map.1 hm
    exact one_div_pos.2 (zero_lt_one.trans_le (le_max_right _ _))
  · obtain ⟨r, hr, rfl⟩ := mem_map.1 hm
    obtain ⟨s, -, rfl⟩ := mem_map.1 hr
    refine div_pos (one_div_pos.2 (lt_max_of_lt_right (by norm_num))) (not_le.1 htotal)

theorem ensembleWeights_spec {weights : List (String × ℚ)}
    (h : ensembleWeights (t.candidateResults walk) = some weights) :
    (weights.map Prod.fst).Nodup ∧ (∀ m ∈ weights, 0 < m.2) ∧ weights ≠ [] ∧
      ∀ m ∈ weights, m.1 ∈ t.candidates ∧ m.1 ≠ "naive" := by
  rw [ensembleWeights] at h
  split_ifs at h with hmany
  cases h
  refine ⟨?_, fun m ↦ inverseSmapeWeights_pos, ?_, fun m hm ↦ ?_⟩
  · rw [inverseSmapeWeights_names]
    exact members_nodup
  · intro hnil
    have hlen := congrArg List.length
      (inverseSmapeWeights_names (members (t.candidateResults walk)))
    rw [length_map, length_map, hnil, length_nil] at hlen
    omega
  · have hname : m.1 ∈ (members (t.candidateResults walk)).map Prod.fst := by
      rw [← inverseSmapeWeights_names]
      exact mem_map_of_mem hm
    obtain ⟨n, hn, hname⟩ := mem_map.1 hname
    rw [← hname]
    exact mem_memberSmapes (members_spec hn)

end Members

end TalaPala.Forecast
