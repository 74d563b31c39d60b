import TalaPala.Forecast.EnsembleMembers

namespace TalaPala.Forecast

open Library List

section Entries

variable {t : Tournament} {walk walk' : String → Walk}

theorem view_folds (name : String) :
    (t.view walk name).map Prod.fst = (t.candidateResults walk).foldsOf name := mark_folds _ _

theorem Tournament.HoldoutChange.ensemble_varies (h : t.HoldoutChange walk walk')
    (hapart : t.Apart walk) :
    List.Forall₂ Varies (t.ensembleView walk) (t.ensembleView walk') := by
  rw [Tournament.ensembleView, Tournament.ensembleView, ← h.weights_eq hapart]
  cases ensembleWeights (t.candidateResults walk) with
  | none => exact .nil
  | some weights => exact markedEnsemble_varies h.varies

def Tournament.ensembleEntry (t : Tournament) (walk : String → Walk) : CandidateResult :=
  { t.entry ((t.ensembleView walk).map Prod.fst) with
    weights := ensembleWeights (t.candidateResults walk) }

theorem evaluateCandidates_eq : evaluateCandidates t walk = t.candidateResults walk ++
    if t.ensembleView walk = [] then [] else [("ensemble", t.ensembleEntry walk)] := by
  have hfolds : (fun name ↦ (t.view walk name).map Prod.fst) =
      (t.candidateResults walk).foldsOf := funext view_folds
  cases hweights : ensembleWeights (t.candidateResults walk) with
  | none =>
    have hview : t.ensembleView walk = [] := by simp only [Tournament.ensembleView, hweights]
    rw [if_pos hview, append_nil]
    simp only [evaluateCandidates, hweights]
  | some weights =>
    have hens : (t.ensembleView walk).map Prod.fst =
        ensembleFolds (t.candidateResults walk).foldsOf weights := by
      simp only [Tournament.ensembleView, hweights, markedEnsemble_folds, hfolds]
    simp only [evaluateCandidates, hweights, ← hens]
    cases hview : t.ensembleView walk with
    | nil => simp
    | cons x v => simp [Tournament.ensembleEntry, hview, hweights]

theorem rank_spec {results : Results} {naiveSel : ℚ} {r : String × CandidateResult}
    (h : rank results naiveSel = some r) :
    r ∈ results ∧ r.1 ≠ "naive" ∧ r.2.selMetrics.smape < naiveSel := by
  revert r
  change ∀ r ∈ rank results naiveSel, _
  rw [rank]
  refine List.foldlRecOn (motive := fun best : Option (String × CandidateResult) ↦ ∀ r ∈ best,
    r ∈ results ∧ r.1 ≠ "naive" ∧ r.2.selMetrics.smape < naiveSel) results _
      (fun r hr ↦ absurd hr (Option.not_mem_none r)) ?_
  intro best hbest a ha r hr
  dsimp only at hr
  split_ifs at hr with hbetter
  · obtain rfl := Option.some.inj hr
    exact ⟨ha, hbetter.1, hbetter.2.2⟩
  · exact hbest r hr

theorem rank_elim_le (results : Results) (naiveSel : ℚ) :
    (rank results naiveSel).elim naiveSel (·.2.selMetrics.smape) ≤ naiveSel := by
  cases h : rank results naiveSel with
  | none => exact le_rfl
  | some r => exact (rank_spec h).2.2.le

theorem rank_append {results : Results} {naiveSel : ℚ} {name : String} {r : CandidateResult}
    (hname : name ≠ "naive") : rank (results ++ [(name, r)]) naiveSel =
      if r.selMetrics.smape < (rank results naiveSel).elim naiveSel (·.2.selMetrics.smape) then
        some (name, r) else rank results naiveSel := by
  have hle := rank_elim_le results naiveSel
  rw [rank, foldl_append, ← rank]
  simp only [foldl_cons, foldl_nil]
  refine if_congr ?_ rfl rfl
  exact ⟨fun h ↦ h.2.1, fun h ↦ ⟨hname, h, h.trans_le hle⟩⟩

theorem rank_evaluateCandidates (naive : CandidateResult) :
    rank (evaluateCandidates t walk) naive.selMetrics.smape =
      if t.ensembleView walk ≠ [] ∧
          (t.ensembleEntry walk).selMetrics.smape < t.leadSmape walk naive then
        some ("ensemble", t.ensembleEntry walk) else t.lead walk naive := by
  rw [evaluateCandidates_eq]
  by_cases hens : t.ensembleView walk = []
  · rw [if_pos hens, append_nil, if_neg (fun h ↦ h.1 hens), Tournament.lead]
  · rw [if_neg hens, rank_append (by decide)]
    exact if_congr (by simp [hens, Tournament.leadSmape, Tournament.lead]) rfl rfl

theorem lookup_naive_evaluateCandidates :
    (evaluateCandidates t walk).lookup "naive" = (t.candidateResults walk).lookup "naive" := by
  rw [evaluateCandidates_eq, lookup_append]
  split_ifs
  · exact Option.or_none
  · exact Option.or_none

theorem evaluateCandidates_of_no_naive (h : (t.candidateResults walk).lookup "naive" = none) :
    evaluateCandidates t walk = t.candidateResults walk := by
  have hweights : ensembleWeights (t.candidateResults walk) = none := by
    simp [ensembleWeights, members, memberSmapes, h]
  simp only [evaluateCandidates, hweights]

structure Tournament.Enters (t : Tournament) (r : CandidateResult) (v : List Marked) : Prop where
  folds : r.folds = v.map Prod.fst
  selFolds : r.selFolds = none
  selMetrics : r.selMetrics = foldMetrics ((t.block v).map Prod.fst)

theorem entry_enters (v : List Marked) : t.Enters (t.entry (v.map Prod.fst)) v := by
  refine ⟨rfl, rfl, ?_⟩
  have hsel : t.selection (v.map Prod.fst) = (t.block v).map Prod.fst := by
    rw [selection_eq_take, length_map, Tournament.block, map_take]
  exact congrArg foldMetrics hsel

theorem ensembleEntry_enters : t.Enters (t.ensembleEntry walk) (t.ensembleView walk) :=
  ⟨rfl, rfl, (entry_enters _).selMetrics⟩

theorem candidate_enters {r : String × CandidateResult} (hr : r ∈ t.candidateResults walk) :
    t.Enters r.2 (t.view walk r.1) := by
  obtain ⟨hname, -, hentry⟩ := mem_candidateResults hr
  rw [hentry, ← foldsOf_of_mem hname, ← view_folds]
  exact entry_enters _

theorem block_varies {v v' : List Marked} (h : List.Forall₂ Varies v v') :
    List.Forall₂ Varies (t.block v) (t.block v') := by
  rw [Tournament.block, Tournament.block, h.length_eq]
  exact List.forall₂_take _ h

theorem block_edit (p : Fold → ℚ) (v : List Marked) :
    t.block (v.map (edit p)) = (t.block v).map (edit p) := by
  rw [Tournament.block, Tournament.block, length_map, map_take]

end Entries

section Gates

variable {t : Tournament} {walk walk' : String → Walk}

theorem Tournament.Enters.gateFolds {r : CandidateResult} {v : List Marked} (h : t.Enters r v) :
    r.gateFolds = v.map Prod.fst := by
  rw [CandidateResult.gateFolds, h.selFolds, h.folds]

theorem exerciseGate_iff {best naive : CandidateResult} {v u : List Marked} (hb : t.Enters best v)
    (hn : t.Enters naive u) :
    (exerciseGate best naive).isSome ↔ MostlyNaive (paired (v.map Prod.fst) (u.map Prod.fst)) := by
  rw [exerciseGate, hb.gateFolds, hn.gateFolds, ← degenerateShare_lt_iff]
  simp

theorem edgeGate_iff (best naive : CandidateResult) :
    (edgeGate best naive).isSome ↔ ThinEdge best.selMetrics.smape naive.selMetrics.smape := by
  simp only [edgeGate, ThinEdge]
  split_ifs with h
  · exact iff_of_true rfl h
  · exact iff_of_false Bool.false_ne_true h

theorem bootstrapGate_iff {best naive : CandidateResult} {v u : List Marked}
    (hb : t.Enters best v) (hn : t.Enters naive u) :
    (bootstrapGate t.resample best naive).isSome ↔
      Unimproved t.resample (paired (v.map Prod.fst) (u.map Prod.fst)) := by
  rw [bootstrapGate, hb.gateFolds, hn.gateFolds, ← bootstrapBeats_iff]
  simp

theorem thinEdge_mono {low high naiveSel : ℚ} (h : low ≤ high) (hthin : ThinEdge low naiveSel) :
    ThinEdge high naiveSel := by
  refine ⟨hthin.1, lt_of_le_of_lt ?_ hthin.2⟩
  exact div_le_div_of_nonneg_right (sub_le_sub_left h _) hthin.1.le

theorem Tournament.Settled.edge_iff {naive r : CandidateResult} {v u v' : List Marked}
    (hs : t.Settled naive v u) (hv : List.Forall₂ Varies v v') (hr : t.Enters r v') :
    ThinEdge r.selMetrics.smape naive.selMetrics.smape ↔
      ThinEdge (smapeLow (t.block v)) naive.selMetrics.smape := by
  rw [hr.selMetrics]
  exact ⟨fun h ↦ hs.edge (thinEdge_mono (le_smapeHigh (block_varies hv)) h),
    thinEdge_mono (smapeLow_le (block_varies hv))⟩

theorem varies_self (v : List Marked) : List.Forall₂ Varies v v :=
  List.forall₂_same.2 (fun _ _ ↦ ⟨rfl, rfl, fun _ ↦ rfl⟩)

theorem rejections_eq {naive naive' best best' : CandidateResult} {v v' u u' : List Marked}
    (hs : t.Settled naive v u) (hv : List.Forall₂ Varies v v') (hu : List.Forall₂ Varies u u')
    (hb : t.Enters best v) (hb' : t.Enters best' v') (hn : t.Enters naive u)
    (hn' : t.Enters naive' u') (hsel : naive.selMetrics = naive'.selMetrics) :
    t.rejections best' naive' = t.rejections best naive := by
  have hpairs := markedPairs_varies hv hu
  have hself := markedPairs_varies (varies_self v) (varies_self u)
  refine Prod.ext ?_ (Prod.ext ?_ ?_)
  · change (exerciseGate best' naive').isSome = (exerciseGate best naive).isSome
    rw [Bool.eq_iff_iff, exerciseGate_iff hb' hn', exerciseGate_iff hb hn, paired_marked,
      paired_marked, hs.share.iff hpairs, hs.share.iff hself]
  · change (edgeGate best' naive').isSome = (edgeGate best naive).isSome
    rw [Bool.eq_iff_iff, edgeGate_iff, edgeGate_iff, ← hsel, hs.edge_iff hv hb',
      hs.edge_iff (varies_self v) hb]
  · change (bootstrapGate t.resample best' naive').isSome =
      (bootstrapGate t.resample best naive).isSome
    rw [Bool.eq_iff_iff, bootstrapGate_iff hb' hn', bootstrapGate_iff hb hn, paired_marked,
      paired_marked, hs.bootstrap.iff hpairs, hs.bootstrap.iff hself]

end Gates

section Blind

variable {t : Tournament} {walk walk' : String → Walk} {naive naive' : CandidateResult}

theorem Tournament.HoldoutChange.leadSmape_eq (h : t.HoldoutChange walk walk')
    (hsel : naive.selMetrics = naive'.selMetrics) :
    t.leadSmape walk naive = t.leadSmape walk' naive' := by
  have hrel := h.sameBoard.rank_rel naive.selMetrics.smape
  rw [Tournament.leadSmape, Tournament.leadSmape, Tournament.lead, Tournament.lead, ← hsel]
  generalize rank (t.candidateResults walk) naive.selMetrics.smape = o,
    rank (t.candidateResults walk') naive.selMetrics.smape = o' at hrel
  cases hrel with
  | none => rfl
  | some hr => exact congrArg Metrics.smape hr.2

theorem rank_change (h : t.HoldoutChange walk walk') (hapart : t.Apart walk)
    (hranked : t.Ranked walk naive) (hsel : naive.selMetrics = naive'.selMetrics) :
    rank (evaluateCandidates t walk') naive'.selMetrics.smape =
      if t.EnsembleLeads walk naive then some ("ensemble", t.ensembleEntry walk')
      else t.lead walk' naive' := by
  have hvary := h.ensemble_varies hapart
  have hempty : t.ensembleView walk' ≠ [] ↔ t.ensembleView walk ≠ [] := by
    rw [← length_pos_iff, ← length_pos_iff, hvary.length_eq]
  have hlow := smapeLow_le (block_varies (t := t) hvary)
  have hhigh := le_smapeHigh (block_varies (t := t) hvary)
  rw [rank_evaluateCandidates, ensembleEntry_enters.selMetrics, ← h.leadSmape_eq hsel]
  refine if_congr ⟨fun hleads ↦ ?_, fun hleads ↦ ?_⟩ rfl rfl
  · rcases hranked (hempty.1 hleads.1) with hens | hle
    · exact hens
    · exact absurd hleads.2 (not_lt.2 (hle.trans hlow))
  · exact ⟨hempty.2 hleads.1, hhigh.trans_lt hleads.2⟩

theorem gates_eq (hnaive : (t.candidateResults walk).lookup "naive" = some naive) :
    t.gates (evaluateCandidates t walk) =
      (rank (evaluateCandidates t walk) naive.selMetrics.smape).map
        (fun r ↦ t.rejections r.2 naive) := by
  rw [Tournament.gates, lookup_naive_evaluateCandidates, hnaive]
  rfl

theorem bestRanked_eq (hnaive : (t.candidateResults walk).lookup "naive" = some naive) :
    bestRanked (evaluateCandidates t walk) =
      ((rank (evaluateCandidates t walk) naive.selMetrics.smape).map Prod.fst).getD "naive" := by
  rw [bestRanked, lookup_naive_evaluateCandidates, hnaive]

theorem naive_enters (hnaive : (t.candidateResults walk).lookup "naive" = some naive) :
    t.Enters naive (t.view walk "naive") := candidate_enters (mem_of_lookup hnaive)

theorem best_change (hsealed : t.Sealed walk) (h : t.HoldoutChange walk walk')
    (hnaive : (t.candidateResults walk).lookup "naive" = some naive)
    (hnaive' : (t.candidateResults walk').lookup "naive" = some naive')
    (hsel : naive.selMetrics = naive'.selMetrics) :
    Option.Rel (fun r r' ↦ r.1 = r'.1 ∧ t.rejections r'.2 naive' = t.rejections r.2 naive)
      (rank (evaluateCandidates t walk) naive.selMetrics.smape)
      (rank (evaluateCandidates t walk') naive'.selMetrics.smape) := by
  have hranked := hsealed.ranked naive hnaive
  have hsettled := hsealed.settled naive
  rw [rank_change h hsealed.apart hranked hsel, rank_change .refl hsealed.apart hranked rfl]
  rw [Tournament.contender] at hsettled
  have hnaives := h.varies "naive"
  split_ifs at hsettled ⊢ with hleads
  · exact .some ⟨rfl, rejections_eq (hsettled _ hnaive rfl) (h.ensemble_varies hsealed.apart)
      hnaives ensembleEntry_enters ensembleEntry_enters (naive_enters hnaive)
      (naive_enters hnaive') hsel⟩
  · have hrel := h.sameBoard.rank_rel naive.selMetrics.smape
    rw [Tournament.lead] at hsettled
    rw [Tournament.lead, Tournament.lead, ← hsel]
    generalize hlead : rank (t.candidateResults walk) naive.selMetrics.smape = o,
      hlead' : rank (t.candidateResults walk') naive.selMetrics.smape = o' at hrel hsettled ⊢
    cases hrel with
    | none => exact .none
    | @some r r' hr =>
      have henters := candidate_enters (rank_spec hlead).1
      have henters' := candidate_enters (rank_spec hlead').1
      rw [← hr.1] at henters'
      exact .some ⟨hr.1, rejections_eq (hsettled _ hnaive rfl) (h.varies r.1) hnaives henters
        henters' (naive_enters hnaive) (naive_enters hnaive') hsel⟩

theorem blind_of_sealed (hsealed : t.Sealed walk) : t.Blind walk := by
  intro walk' h
  have hlookup := SameBoard.lookup h.sameBoard "naive"
  have hweights := h.weights_eq hsealed.apart
  have hbest : bestRanked (evaluateCandidates t walk') = bestRanked (evaluateCandidates t walk) ∧
      t.gates (evaluateCandidates t walk') = t.gates (evaluateCandidates t walk) := by
    generalize hnaive : (t.candidateResults walk).lookup "naive" = o,
      hnaive' : (t.candidateResults walk').lookup "naive" = o' at hlookup
    cases hlookup with
    | none =>
      have hargmin := SameBoard.argmin_rel h.sameBoard
      rw [evaluateCandidates_of_no_naive hnaive, evaluateCandidates_of_no_naive hnaive',
        bestRanked, bestRanked, Tournament.gates, Tournament.gates, hnaive, hnaive']
      generalize (t.candidateResults walk).argmin (·.2.selMetrics.smape) = o,
        (t.candidateResults walk').argmin (·.2.selMetrics.smape) = o' at hargmin
      cases hargmin with
      | none => exact ⟨rfl, rfl⟩
      | some hr => exact ⟨hr.1.symm, rfl⟩
    | @some naive naive' hsel =>
      have hrel := best_change hsealed h hnaive hnaive' hsel
      rw [bestRanked_eq hnaive, bestRanked_eq hnaive', gates_eq hnaive, gates_eq hnaive']
      generalize rank (evaluateCandidates t walk) naive.selMetrics.smape = o,
        rank (evaluateCandidates t walk') naive'.selMetrics.smape = o' at hrel
      cases hrel with
      | none => exact ⟨rfl, rfl⟩
      | some hr => exact ⟨hr.1.symm, congrArg some hr.2⟩
  rw [Tournament.outcome, Tournament.outcome, ← hweights, hbest.1, hbest.2]

end Blind

section Winner

variable {results : Results} {naive best : CandidateResult} {resample : ℕ → List (List ℕ)}

theorem rank_least (results : Results) (naiveSel : ℚ) : ∀ r ∈ results, r.1 ≠ "naive" →
    (rank results naiveSel).elim naiveSel (·.2.selMetrics.smape) ≤ r.2.selMetrics.smape := by
  induction results using List.reverseRecOn with
  | nil => exact fun _ hr ↦ absurd hr not_mem_nil
  | append_singleton results x ih =>
    by_cases hx : x.1 = "naive"
    · have hsame : rank (results ++ [x]) naiveSel = rank results naiveSel := by
        rw [rank, foldl_append, foldl_cons, foldl_nil, ← rank]
        exact if_neg (fun h ↦ h.1 hx)
      rw [hsame, forall_mem_append, forall_mem_singleton]
      exact ⟨ih, fun h ↦ absurd hx h⟩
    · rw [rank_append hx, forall_mem_append, forall_mem_singleton]
      split_ifs with hlt
      · exact ⟨fun r hr hne ↦ hlt.le.trans (ih r hr hne), fun _ ↦ le_rfl⟩
      · exact ⟨ih, fun _ ↦ not_lt.mp hlt⟩

theorem edge_le_of_not_lt {low naiveSmape : ℚ} (hpos : 0 < naiveSmape)
    (h : ¬ (naiveSmape - low) / naiveSmape < minEdgePct) : low ≤ (1 - minEdgePct) * naiveSmape := by
  rw [not_lt, le_div_iff₀ hpos] at h
  linarith

theorem holdout_of_gate (h : holdoutGate best naive = none) : ∃ hold naiveHold,
    best.holdoutMetrics = some hold ∧ naive.holdoutMetrics = some naiveHold ∧
      hold.smape ≤ (1 - minEdgePct) * naiveHold.smape := by
  rw [holdoutGate] at h
  split at h
  · rename_i hold naiveHold hhold hnaive
    refine ⟨hold, naiveHold, hhold, hnaive, ?_⟩
    dsimp only at h
    split_ifs at h with hpos hedge hedge
    · exact edge_le_of_not_lt hpos hedge
    · exact absurd (by norm_num [minEdgePct]) hedge
  · cases h

/-- What replaces naive leads the candidates on the selection folds and beats naive by the
material edge there and on the holdout, where its absolute errors are less as well. -/
theorem winner_beats_naive (hnaive : results.lookup "naive" = some naive)
    (hwinner : (selectWinner resample results).winner ≠ "naive") :
    ∃ best hold naiveHold, ((selectWinner resample results).winner, best) ∈ results ∧
      (∀ r ∈ results, r.1 ≠ "naive" → best.selMetrics.smape ≤ r.2.selMetrics.smape) ∧
      (0 < naive.selMetrics.smape →
        best.selMetrics.smape ≤ (1 - minEdgePct) * naive.selMetrics.smape) ∧
      best.holdoutMetrics = some hold ∧ naive.holdoutMetrics = some naiveHold ∧
      hold.smape ≤ (1 - minEdgePct) * naiveHold.smape ∧ ∀ mase ∈ hold.mase, mase < 1 := by
  have hleast := rank_least results naive.selMetrics.smape
  simp only [selectWinner, hnaive] at hwinner ⊢
  cases hrank : rank results naive.selMetrics.smape with
  | none =>
    rw [hrank] at hwinner
    exact absurd rfl hwinner
  | some leader =>
    rw [hrank] at hwinner hleast
    dsimp only at hwinner ⊢
    split_ifs at hwinner ⊢ with hreasons
    · have hpassed := filterMap_eq_nil_iff.mp hreasons
      simp only [forall_mem_cons, id_eq] at hpassed
      obtain ⟨-, hedge, -, hhold, hmase, -⟩ := hpassed
      obtain ⟨hold, naiveHold, hbest, hnaiveHold, hbeats⟩ := holdout_of_gate hhold
      refine ⟨leader.2, hold, naiveHold, (rank_spec hrank).1, hleast, fun hpos ↦ ?_, hbest,
        hnaiveHold, hbeats, fun mase hmem ↦ ?_⟩
      · exact edge_le_of_not_lt hpos (fun hlt ↦ by simp [edgeGate, hpos, hlt] at hedge)
      · simpa [maseGate, hbest, Option.mem_def.mp hmem] using hmase
    · exact absurd rfl hwinner

def scored (smape : ℚ) : CandidateResult :=
  ⟨[], ⟨smape, none⟩, ⟨smape, none⟩, some ⟨smape, some (smape / 10)⟩, none, none⟩

def board : Results := [("naive", scored 10), ("lasso", scored 6), ("ridge", scored 5)]

theorem ridge_beats_naive :
    ∃ best : CandidateResult, ("ridge", best) ∈ board ∧ best.selMetrics.smape ≤ 6 := by
  have hwinner : (selectWinner (fun _ ↦ []) board).winner = "ridge" := by decide +kernel
  have hlead := @winner_beats_naive board (scored 10) (fun _ ↦ []) rfl (by rw [hwinner]; decide)
  rw [hwinner] at hlead
  obtain ⟨best, -, -, hmem, hleast, -⟩ := hlead
  exact ⟨best, hmem, hleast ("lasso", scored 6) (by simp [board]) (by decide)⟩

end Winner

end TalaPala.Forecast
