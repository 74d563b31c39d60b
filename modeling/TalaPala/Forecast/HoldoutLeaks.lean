import TalaPala.Forecast.HoldoutBlindness
import Mathlib.Data.List.Zip

namespace TalaPala.Forecast

open Library List

variable {t : Tournament} {walk : String → Walk}

section Edits

theorem edit_folds (p : Fold → ℚ) (selected : ℕ) (folds : List Fold) :
    ((mark selected folds).map (edit p)).map Prod.fst =
      folds.take selected ++ (folds.drop selected).map (fun f ↦ { f with pred := p f }) := by
  simp [mark, edit, Function.comp_def]

theorem take_map_drop (f : Fold → Fold) (n : ℕ) (folds : List Fold) :
    (folds.take n ++ (folds.drop n).map f).take n = folds.take n := by
  rcases Nat.le_total n folds.length with h | h
  · exact take_left' (length_take_of_le h)
  · rw [drop_eq_nil_of_le h, map_nil, append_nil, take_take, min_self]

/-- The walks whose folds outside the selection block predict what `p` says. -/
def Tournament.editWalk (t : Tournament) (walk : String → Walk) (p : String → Fold → ℚ)
    (name : String) : Walk where
  folds := t.selection (walk name).folds ++
    ((walk name).folds.drop (t.selected (walk name).folds.length)).map
      (fun f ↦ { f with pred := p name f })
  ascending := by
    rw [selection_eq_take, map_append, map_map]
    change (_ ++ List.map Fold.tIndex _).Pairwise _
    rw [← map_append, take_append_drop]
    exact (walk name).ascending

theorem editWalk_split (p : String → Fold → ℚ) (name : String) :
    (t.editWalk walk p name).folds = t.selection (walk name).folds ++
      ((walk name).folds.drop (t.selected (walk name).folds.length)).map
        (fun f ↦ { f with pred := p name f }) := rfl

theorem editWalk_folds (p : String → Fold → ℚ) (name : String) :
    (t.editWalk walk p name).folds =
      ((mark (t.selected (walk name).folds.length) (walk name).folds).map (edit (p name))).map
        Prod.fst := by
  rw [edit_folds, ← selection_eq_take, editWalk_split]

theorem editWalk_length (p : String → Fold → ℚ) (name : String) :
    (t.editWalk walk p name).folds.length = (walk name).folds.length := by
  rw [editWalk_folds, length_map, length_map, mark_length]

theorem editWalk_change (p : String → Fold → ℚ) : t.HoldoutChange walk (t.editWalk walk p) := by
  intro name _
  constructor
  · rw [selection_eq_take (t.editWalk walk p name).folds, editWalk_length, editWalk_split,
      selection_eq_take, take_map_drop]
  · have hsame : List.Forall₂ (fun f g : Fold ↦
        f.tIndex = g.tIndex ∧ f.tTime = g.tTime ∧ f.base = g.base)
        ((mark (t.selected (walk name).folds.length) (walk name).folds).map Prod.fst)
        (t.editWalk walk p name).folds := by
      rw [editWalk_folds, map_map, List.forall₂_map_left_iff, List.forall₂_map_right_iff,
        List.forall₂_same]
      intro x _
      rw [Function.comp_apply, edit]
      split_ifs <;> exact ⟨rfl, rfl, rfl⟩
    rwa [mark_folds] at hsame

theorem view_editWalk (p : String → Fold → ℚ) (name : String) :
    t.view (t.editWalk walk p) name = (t.view walk name).map (edit (p name)) := by
  rw [Tournament.view, Tournament.view]
  by_cases hname : name ∈ t.candidates
  · rw [foldsOf_of_mem hname, foldsOf_of_mem hname, editWalk_length, editWalk_folds,
      edit_mark_folds]
  · rw [foldsOf_of_notMem hname, foldsOf_of_notMem hname, mark_nil, map_nil]

end Edits

section Twins

theorem two_le_length {α : Type*} {l : List α} {a b : α} (ha : a ∈ l) (hb : b ∈ l)
    (hne : a ≠ b) : 2 ≤ l.length := by
  match l with
  | [c] => exact absurd ((mem_singleton.1 ha).trans (mem_singleton.1 hb).symm) hne
  | _ :: _ :: l => exact Nat.le_add_left 2 l.length

theorem samePredictions_symm (left right : List Fold) :
    samePredictions left right = samePredictions right left := by
  have hlen : decide (left.length = right.length) = decide (right.length = left.length) :=
    decide_eq_decide.2 eq_comm
  rw [samePredictions, samePredictions, hlen, ← zip_swap, all_map]
  simp only [Function.comp_def, Prod.fst_swap, Prod.snd_swap, abs_sub_comm]

theorem Tournament.Twins.symm {left right : List Fold} (h : t.Twins left right) :
    t.Twins right left := by
  obtain ⟨hlen, hcut, hsame⟩ := h
  refine ⟨hlen.symm, ?_, ?_⟩
  · rwa [← selection_length_congr hlen, ← hlen]
  · rwa [samePredictions_symm]

theorem drop_selected_ne_nil {folds : List Fold}
    (hcut : (t.selection folds).length < folds.length) :
    folds.drop (t.selected folds.length) ≠ [] := by
  rw [selection_eq_take, length_take] at hcut
  rw [Ne, drop_eq_nil_iff]
  omega

def byName (c : String → ℚ) (name : String) (_ : Fold) : ℚ := c name

theorem samePredictions_far {c : String → ℚ} {a b : String}
    (hcut : (t.selection (walk b).folds).length < (walk b).folds.length)
    (hfar : 1 ≤ |c a - c b|) :
    samePredictions (t.editWalk walk (byName c) a).folds
      (t.editWalk walk (byName c) b).folds = false := by
  rw [samePredictions, editWalk_length, editWalk_length]
  by_cases hlen : (walk a).folds.length = (walk b).folds.length
  · have hcut' : (t.selection (walk a).folds).length < (walk a).folds.length := by
      rwa [selection_length_congr hlen, hlen]
    obtain ⟨f, fs, hf⟩ := exists_cons_of_ne_nil (drop_selected_ne_nil hcut')
    obtain ⟨g, gs, hg⟩ := exists_cons_of_ne_nil (drop_selected_ne_nil hcut)
    have htolerance : ¬ |c a - c b| ≤ 1 / 1000000000000 :=
      not_le.2 (lt_of_lt_of_le (by norm_num) hfar)
    rw [editWalk_split, editWalk_split, zip_append (selection_length_congr hlen), hf, hg,
      all_append]
    simp only [map_cons, zip_cons_cons, all_cons, byName, decide_eq_false htolerance,
      Bool.false_and, Bool.and_false]
  · rw [decide_eq_false hlen]
    rfl

theorem samePredictions_twins {c : String → ℚ} {a b : String}
    (htwins : t.Twins (walk a).folds (walk b).folds) (hc : c a = c b) :
    samePredictions (t.editWalk walk (byName c) a).folds
      (t.editWalk walk (byName c) b).folds = true := by
  obtain ⟨hlen, -, hsame⟩ := htwins
  obtain ⟨-, hall⟩ := Bool.and_eq_true_iff.1 hsame
  rw [samePredictions, editWalk_length, editWalk_length, decide_eq_true hlen, Bool.true_and,
    editWalk_split, editWalk_split, zip_append (selection_length_congr hlen),
    all_append, hall, Bool.true_and, zip_map, all_map, all_eq_true]
  intro p _
  simp [byName, hc]

theorem mem_foldl_keepMember {folds : String → List Fold} {kept l : List (String × ℚ)}
    {m : String × ℚ} (hm : m ∈ kept ∨ m ∈ l) (hnodup : (kept ++ l).Nodup)
    (hapart : ∀ k ∈ kept ++ l, k ≠ m → samePredictions (folds k.1) (folds m.1) = false) :
    m ∈ l.foldl (keepMember folds) kept := by
  induction l generalizing kept with
  | nil => exact hm.resolve_right not_mem_nil
  | cons n l ih =>
    have hstep : m ∈ keepMember folds kept n ∨ m ∈ l := by
      rw [keepMember]
      rcases hm with hm | hm
      · split_ifs
        · exact .inl hm
        · exact .inl (mem_append_left _ hm)
      · rcases mem_cons.1 hm with rfl | hm
        · rw [if_neg]
          · exact .inl (mem_append_right _ (mem_singleton_self m))
          · rw [any_eq_true]
            rintro ⟨k, hk, hsame⟩
            have hne : k ≠ m := fun h ↦
              (nodup_append.1 hnodup).2.2 k hk m (mem_cons_self ..) h
            rw [hapart k (mem_append_left _ hk) hne] at hsame
            cases hsame
        · exact .inr hm
    have hsub : (keepMember folds kept n ++ l).Sublist (kept ++ n :: l) := by
      have hkept : (keepMember folds kept n).Sublist (kept ++ [n]) :=
        foldl_keepMember_sublist folds kept [n]
      simpa using hkept.append_right l
    exact ih hstep (hsub.nodup hnodup) (fun k hk ↦ hapart k (hsub.subset hk))

theorem notMem_foldl_keepMember {folds : String → List Fold} {kept l : List (String × ℚ)}
    {a b : String × ℚ} (ha : a ∈ kept) (hb : b ∉ kept)
    (hsame : samePredictions (folds a.1) (folds b.1) = true) :
    b ∉ l.foldl (keepMember folds) kept := by
  induction l generalizing kept with
  | nil => exact hb
  | cons m l ih =>
    refine ih ?_ ?_
    · rw [keepMember]
      split_ifs
      · exact ha
      · exact mem_append_left _ ha
    · rw [keepMember]
      split_ifs with hany
      · exact hb
      · intro hmem
        rcases mem_append.1 hmem with hmem | hmem
        · exact hb hmem
        · obtain rfl := mem_singleton.1 hmem
          exact hany (any_eq_true.2 ⟨a, ha, hsame⟩)

theorem ensembleWeights_names {results : Results} {weights : List (String × ℚ)}
    (h : ensembleWeights results = some weights) :
    weights.map Prod.fst = (members results).map Prod.fst := by
  rw [ensembleWeights] at h
  split_ifs at h
  rw [← Option.some.inj h, inverseSmapeWeights_names]

def Tournament.byScore (t : Tournament) (walk : String → Walk) : List (String × ℚ) :=
  (memberSmapes (t.candidateResults walk)).insertionSort (fun a b ↦ a.2 ≤ b.2)

theorem mem_byScore {m : String × ℚ} :
    m ∈ t.byScore walk ↔ m ∈ memberSmapes (t.candidateResults walk) :=
  (perm_insertionSort _ _).mem_iff

theorem byScore_names : ((t.byScore walk).map Prod.fst).Nodup :=
  ((perm_insertionSort _ _).map Prod.fst).nodup_iff.2 memberSmapes_nodup

theorem eq_of_name {m n : String × ℚ} (hm : m ∈ t.byScore walk) (hn : n ∈ t.byScore walk)
    (h : m.1 = n.1) : m = n := inj_on_of_nodup_map byScore_names hm hn h

theorem members_editWalk (hmany : 2 ≤ (t.byScore walk).length) (p : String → Fold → ℚ) :
    members (t.candidateResults (t.editWalk walk p)) = (t.byScore walk).foldl
      (keepMember (t.candidateResults (t.editWalk walk p)).foldsOf) [] := by
  have hchange : t.HoldoutChange walk (t.editWalk walk p) := editWalk_change p
  have hsmapes := hchange.sameBoard.memberSmapes_eq
  rw [Tournament.byScore, length_insertionSort] at hmany
  rw [members, ← hsmapes, if_pos hmany, dropDuplicateMembers, Tournament.byScore]

theorem foldsOf_editWalk {m : String × ℚ} (hm : m ∈ t.byScore walk) (p : String → Fold → ℚ) :
    (t.candidateResults (t.editWalk walk p)).foldsOf m.1 = (t.editWalk walk p m.1).folds :=
  foldsOf_of_mem (mem_memberSmapes (mem_byScore.1 hm)).1

def Tournament.place (t : Tournament) (name : String) : ℚ := t.candidates.idxOf name

theorem place_far {m n : String × ℚ} (hm : m ∈ t.byScore walk) (hne : m.1 ≠ n.1) :
    1 ≤ |t.place m.1 - t.place n.1| := by
  have hidx : (t.candidates.idxOf m.1 : ℤ) - t.candidates.idxOf n.1 ≠ 0 := by
    have hmem := (mem_memberSmapes (mem_byScore.1 hm)).1
    rw [sub_ne_zero, Ne, Nat.cast_inj, idxOf_inj hmem]
    exact hne
  have habs := Int.one_le_abs hidx
  rw [Tournament.place, Tournament.place]
  exact_mod_cast habs

/-- The places with `b` moved to that of `a`. -/
def Tournament.merged (t : Tournament) (a b name : String) : ℚ :=
  t.place (if name = b then a else name)

theorem kept_of_spread (hmany : 2 ≤ (t.byScore walk).length) {m : String × ℚ}
    (hm : m ∈ t.byScore walk)
    (hcut : (t.selection (walk m.1).folds).length < (walk m.1).folds.length) :
    m ∈ members (t.candidateResults (t.editWalk walk (byName t.place))) := by
  rw [members_editWalk hmany]
  refine mem_foldl_keepMember (.inr hm) (List.Nodup.of_map Prod.fst byScore_names)
    (fun k hk hkm ↦ ?_)
  have hname : k.1 ≠ m.1 := fun h ↦ hkm (eq_of_name hk hm h)
  rw [foldsOf_editWalk hk, foldsOf_editWalk hm]
  exact samePredictions_far hcut (place_far hk hname)

theorem dropped_of_merged {a b : String × ℚ} {s r : List (String × ℚ)}
    (hsplit : t.byScore walk = s ++ a :: r) (hb : b ∈ r)
    (htwins : t.Twins (walk a.1).folds (walk b.1).folds) :
    b ∉ members (t.candidateResults (t.editWalk walk (byName (t.merged a.1 b.1)))) := by
  have hlist : (s ++ a :: r).Nodup := hsplit ▸ List.Nodup.of_map Prod.fst byScore_names
  obtain ⟨-, hrest, hdisjoint⟩ := nodup_append.1 hlist
  have hmem (m : String × ℚ) (hm : m ∈ s ∨ m ∈ a :: r) : m ∈ t.byScore walk := by
    rw [hsplit]
    exact mem_append.2 hm
  have hmema := hmem a (.inr (mem_cons_self ..))
  have hmemb := hmem b (.inr (mem_cons_of_mem _ hb))
  have hne : a ≠ b := fun h ↦ (nodup_cons.1 hrest).1 (h ▸ hb)
  have hab : a.1 ≠ b.1 := fun h ↦ hne (eq_of_name hmema hmemb h)
  have hbefore := foldl_keepMember_sublist
    (t.candidateResults (t.editWalk walk (byName (t.merged a.1 b.1)))).foldsOf [] s
  rw [members_editWalk (two_le_length hmema hmemb hne), hsplit, foldl_append, foldl_cons]
  refine notMem_foldl_keepMember (a := a) ?_ ?_ ?_
  · rw [keepMember, if_neg]
    · exact mem_append_right _ (mem_singleton_self a)
    · rw [any_eq_true]
      rintro ⟨k, hk, hsame⟩
      have hks := hbefore.subset hk
      have hkmem := hmem k (.inl hks)
      have hka : k.1 ≠ a.1 := fun h ↦
        hdisjoint k hks a (mem_cons_self ..) (eq_of_name hkmem hmema h)
      have hkb : k.1 ≠ b.1 := fun h ↦
        hdisjoint k hks b (mem_cons_of_mem _ hb) (eq_of_name hkmem hmemb h)
      have hfar : 1 ≤ |t.merged a.1 b.1 k.1 - t.merged a.1 b.1 a.1| := by
        rw [Tournament.merged, Tournament.merged, if_neg hkb, if_neg hab]
        exact place_far hkmem hka
      rw [foldsOf_editWalk hkmem, foldsOf_editWalk hmema] at hsame
      exact Bool.false_ne_true ((samePredictions_far htwins.2.1 hfar).symm.trans hsame)
  · intro hkept
    rcases mem_keepMember hkept with hkept | hkept
    · exact hdisjoint b (hbefore.subset hkept) b (mem_cons_of_mem _ hb) rfl
    · exact hne hkept.symm
  · have hplace : t.merged a.1 b.1 a.1 = t.merged a.1 b.1 b.1 := by
      rw [Tournament.merged, Tournament.merged, if_neg hab, if_pos rfl]
    rw [foldsOf_editWalk hmema, foldsOf_editWalk hmemb]
    exact samePredictions_twins htwins hplace

theorem apart_of_split (hblind : t.Blind walk) {a b : String × ℚ} {s r : List (String × ℚ)}
    (hsplit : t.byScore walk = s ++ a :: r) (hb : b ∈ r) (hne : a ≠ b) :
    ¬ t.Twins (walk a.1).folds (walk b.1).folds := by
  intro htwins
  have hmema : a ∈ t.byScore walk := hsplit ▸ mem_append_right _ (mem_cons_self ..)
  have hmemb : b ∈ t.byScore walk :=
    hsplit ▸ mem_append_right _ (mem_cons_of_mem _ hb)
  have hscored := two_le_length hmema hmemb hne
  have hkepta := kept_of_spread hscored hmema htwins.2.1
  have hkeptb := kept_of_spread hscored hmemb htwins.symm.2.1
  have hsame : ensembleWeights (t.candidateResults (t.editWalk walk (byName t.place))) =
      ensembleWeights (t.candidateResults (t.editWalk walk (byName (t.merged a.1 b.1)))) :=
    congrArg Outcome.weights ((hblind _ (editWalk_change _)).trans
      (hblind _ (editWalk_change _)).symm)
  have hfitted : ensembleWeights (t.candidateResults (t.editWalk walk (byName t.place))) = some
      (inverseSmapeWeights (members (t.candidateResults (t.editWalk walk (byName t.place))))) :=
    if_pos (two_le_length hkepta hkeptb hne)
  have hnames := (ensembleWeights_names hfitted).symm.trans
    (ensembleWeights_names (hsame ▸ hfitted))
  have hname := mem_map_of_mem (f := Prod.fst) hkeptb
  rw [hnames] at hname
  obtain ⟨m, hm, hmb⟩ := mem_map.1 hname
  have hmem : m ∈ t.byScore walk := by
    rw [members_editWalk hscored] at hm
    exact (foldl_keepMember_sublist _ [] _).subset hm
  exact dropped_of_merged hsplit hb htwins (eq_of_name hmem hmemb hmb ▸ hm)

theorem apart_of_blind (hblind : t.Blind walk) : t.Apart walk := by
  intro a ha b hb hne htwins
  have ha := mem_byScore.2 ha
  have hb := mem_byScore.2 hb
  obtain ⟨s, r, hsplit⟩ := append_of_mem ha
  rw [hsplit] at hb
  rcases mem_append.1 hb with hbs | hbr
  · obtain ⟨s', r', rfl⟩ := append_of_mem hbs
    have hmem : a ∈ r' ++ a :: r := mem_append_right _ (mem_cons_self ..)
    rw [append_assoc, cons_append] at hsplit
    exact apart_of_split hblind hsplit hmem (fun h ↦ hne (congrArg Prod.fst h.symm)) htwins.symm
  · rcases mem_cons.1 hbr with rfl | hbr
    · exact hne rfl
    · exact apart_of_split hblind hsplit hbr (fun h ↦ hne (congrArg Prod.fst h)) htwins

end Twins

section Steering

variable {naive : CandidateResult}

theorem exists_ensemble_edit (hapart : t.Apart walk) (p r : Fold → ℚ) :
    ∃ walk', t.HoldoutChange walk walk' ∧
      t.ensembleView walk' = (t.ensembleView walk).map (edit p) ∧
      t.view walk' "naive" = (t.view walk "naive").map (edit r) := by
  cases hweights : ensembleWeights (t.candidateResults walk) with
  | none =>
    have hchange : t.HoldoutChange walk _ := editWalk_change (fun _ ↦ r)
    have hweights' := (hchange.weights_eq hapart).symm.trans hweights
    refine ⟨_, hchange, ?_, view_editWalk (fun _ ↦ r) "naive"⟩
    simp only [Tournament.ensembleView, hweights, hweights', map_nil]
  | some weights =>
    obtain ⟨hnodup, hpos, hne, hnames⟩ := ensembleWeights_spec hweights
    obtain ⟨⟨first, w⟩, rest, rfl⟩ := exists_cons_of_ne_nil hne
    let moved : String → Fold → ℚ := fun name ↦ if name = "naive" then r
      else shift (ensembleShift (t.view walk) ((first, w) :: rest) first p)
    have hchange : t.HoldoutChange walk (t.editWalk walk moved) := editWalk_change moved
    have hweights' := (hchange.weights_eq hapart).symm.trans hweights
    refine ⟨_, hchange, ?_, view_editWalk moved "naive"⟩
    simp only [Tournament.ensembleView, hweights, hweights']
    refine markedEnsemble_edit hnodup hpos p hchange.varies (fun m hm ↦ ?_)
    rw [view_editWalk]
    exact congrArg (fun q ↦ (t.view walk m.1).map (edit q)) (if_neg (hnames m hm).2)

theorem ensemble_best_iff (hnaive : (t.candidateResults walk).lookup "naive" = some naive) :
    bestRanked (evaluateCandidates t walk) = "ensemble" ↔ t.ensembleView walk ≠ [] ∧
      (t.ensembleEntry walk).selMetrics.smape < t.leadSmape walk naive := by
  rw [bestRanked_eq hnaive, rank_evaluateCandidates]
  split_ifs with hleads
  · exact iff_of_true rfl hleads
  · refine iff_of_false (fun h ↦ ?_) hleads
    rw [Tournament.lead] at h
    cases hlead : rank (t.candidateResults walk) naive.selMetrics.smape with
    | none =>
      rw [hlead] at h
      exact absurd h (by decide)
    | some r =>
      rw [hlead] at h
      have hmem := (mem_candidateResults (rank_spec hlead).1).1
      exact t.plain (h ▸ hmem)

theorem naive_change {walk' : String → Walk} (h : t.HoldoutChange walk walk')
    (hnaive : (t.candidateResults walk).lookup "naive" = some naive) :
    ∃ naive', (t.candidateResults walk').lookup "naive" = some naive' ∧
      naive.selMetrics = naive'.selMetrics := by
  have hrel := SameBoard.lookup h.sameBoard "naive"
  rw [hnaive] at hrel
  generalize (t.candidateResults walk').lookup "naive" = o' at hrel
  cases hrel with
  | some hsel => exact ⟨_, rfl, hsel⟩

theorem leads_of_blind {walk' : String → Walk} (hblind : t.Blind walk)
    (h : t.HoldoutChange walk walk')
    (hnaive : (t.candidateResults walk).lookup "naive" = some naive) :
    (t.ensembleView walk' ≠ [] ∧
      (foldMetrics ((t.block (t.ensembleView walk')).map Prod.fst)).smape <
        t.leadSmape walk naive) ↔ bestRanked (evaluateCandidates t walk) = "ensemble" := by
  obtain ⟨naive', hnaive', hsel⟩ := naive_change h hnaive
  have hbest : bestRanked (evaluateCandidates t walk') = bestRanked (evaluateCandidates t walk) :=
    congrArg Outcome.best (hblind walk' h)
  rw [← hbest, h.leadSmape_eq hsel, ← ensembleEntry_enters.selMetrics]
  exact (ensemble_best_iff hnaive').symm

theorem ranked_of_blind (hblind : t.Blind walk) (hapart : t.Apart walk)
    (hnaive : (t.candidateResults walk).lookup "naive" = some naive) : t.Ranked walk naive := by
  intro hens
  obtain ⟨low, hlow, hview, -⟩ := exists_ensemble_edit hapart hit hit
  obtain ⟨high, hhigh, hview', -⟩ := exists_ensemble_edit hapart miss miss
  have hsame := (leads_of_blind hblind hlow hnaive).trans (leads_of_blind hblind hhigh hnaive).symm
  rw [hview, hview', block_edit, block_edit, smape_edit_hit, smape_edit_miss] at hsame
  simp only [ne_eq, map_eq_nil_iff, hens, not_false_eq_true, true_and] at hsame
  by_cases hleads : smapeHigh (t.block (t.ensembleView walk)) < t.leadSmape walk naive
  · exact .inl ⟨hens, hleads⟩
  · exact .inr (not_lt.1 (fun h ↦ hleads (hsame.1 h)))

theorem view_nodup (name : String) : ((t.view walk name).map (·.1.tIndex)).Nodup := by
  have hmap : (t.view walk name).map (·.1.tIndex) =
      ((t.candidateResults walk).foldsOf name).map Fold.tIndex := by
    rw [← view_folds, map_map]
    rfl
  rw [hmap]
  by_cases hname : name ∈ t.candidates
  · rw [foldsOf_of_mem hname]
    exact (walk name).ascending.imp ne_of_lt
  · rw [foldsOf_of_notMem hname]
    exact nodup_nil

theorem ensembleView_nodup : ((t.ensembleView walk).map (·.1.tIndex)).Nodup := by
  rw [Tournament.ensembleView]
  split
  next weights hweights =>
    cases weights with
    | nil => exact nodup_nil
    | cons m rest =>
      rw [markedEnsemble]
      refine (map_filterMap_sublist (fun i e he ↦ ?_) _).nodup ?_
      · obtain ⟨x, hx, rfl⟩ := Option.map_eq_some_iff.1 he
        exact (markedAt_tIndex hx :)
      · refine List.Nodup.filter _ ?_
        rw [map_map]
        exact view_nodup m.1
  next => exact nodup_nil

theorem contender_nodup {v : List Marked} (hv : t.contender walk naive = some v) :
    (v.map (·.1.tIndex)).Nodup := by
  rw [Tournament.contender] at hv
  split_ifs at hv
  · cases hv
    exact ensembleView_nodup
  · obtain ⟨r, -, rfl⟩ := Option.map_eq_some_iff.1 hv
    exact view_nodup r.1

theorem exists_contender_edit (hapart : t.Apart walk) (hranked : t.Ranked walk naive)
    (hnaive : (t.candidateResults walk).lookup "naive" = some naive) {v : List Marked}
    (hv : t.contender walk naive = some v) (p r : Fold → ℚ) :
    ∃ walk' best naive', t.HoldoutChange walk walk' ∧
      t.gates (evaluateCandidates t walk') = some (t.rejections best naive') ∧
      t.Enters best (v.map (edit p)) ∧
      t.Enters naive' ((t.view walk "naive").map (edit r)) ∧
      naive.selMetrics = naive'.selMetrics := by
  rw [Tournament.contender] at hv
  split_ifs at hv with hleads
  · cases hv
    obtain ⟨walk', hchange, hens, hview⟩ := exists_ensemble_edit hapart p r
    obtain ⟨naive', hnaive', hsel⟩ := naive_change hchange hnaive
    refine ⟨walk', t.ensembleEntry walk', naive', hchange, ?_, ?_, ?_, hsel⟩
    · rw [gates_eq hnaive', rank_change hchange hapart hranked hsel, if_pos hleads, Option.map_some]
    · exact hens ▸ ensembleEntry_enters
    · exact hview ▸ naive_enters hnaive'
  · obtain ⟨lead, hlead, rfl⟩ := Option.map_eq_some_iff.1 hv
    let moved : String → Fold → ℚ := fun name ↦ if name = "naive" then r else p
    have hchange : t.HoldoutChange walk (t.editWalk walk moved) := editWalk_change moved
    obtain ⟨naive', hnaive', hsel⟩ := naive_change hchange hnaive
    have hrel := hchange.sameBoard.rank_rel naive.selMetrics.smape
    rw [Tournament.lead] at hlead
    generalize hlead' : rank (t.candidateResults (t.editWalk walk moved)) naive.selMetrics.smape =
      o' at hrel
    rw [hlead] at hrel
    cases hrel with
    | @some _ best hbest =>
      refine ⟨_, best.2, naive', hchange, ?_, ?_, ?_, hsel⟩
      · rw [gates_eq hnaive', rank_change hchange hapart hranked hsel, if_neg hleads,
          Tournament.lead, ← hsel, hlead', Option.map_some]
      · have henters := candidate_enters (rank_spec hlead').1
        rw [← hbest.1, view_editWalk] at henters
        exact (if_neg (rank_spec hlead).2.1 : moved lead.1 = p) ▸ henters
      · have henters := naive_enters hnaive'
        rwa [view_editWalk] at henters

theorem settled_of_blind (hblind : t.Blind walk) (hapart : t.Apart walk)
    (hnaive : (t.candidateResults walk).lookup "naive" = some naive) {v : List Marked}
    (hv : t.contender walk naive = some v) : t.Settled naive v (t.view walk "naive") := by
  have hranked := ranked_of_blind hblind hapart hnaive
  have hgates (p r p' r' : Fold → ℚ) : ∃ best naive₁ best' naive₂,
      t.rejections best naive₁ = t.rejections best' naive₂ ∧
      t.Enters best (v.map (edit p)) ∧ t.Enters naive₁ ((t.view walk "naive").map (edit r)) ∧
      t.Enters best' (v.map (edit p')) ∧ t.Enters naive₂ ((t.view walk "naive").map (edit r')) ∧
      naive.selMetrics = naive₁.selMetrics ∧ naive.selMetrics = naive₂.selMetrics := by
    obtain ⟨walk₁, best, naive₁, hchange, hgates, hb, hn, hsel⟩ :=
      exists_contender_edit hapart hranked hnaive hv p r
    obtain ⟨walk₂, best', naive₂, hchange', hgates', hb', hn', hsel'⟩ :=
      exists_contender_edit hapart hranked hnaive hv p' r'
    refine ⟨best, naive₁, best', naive₂, ?_, hb, hn, hb', hn', hsel, hsel'⟩
    have hsame := (congrArg Outcome.gates (hblind _ hchange)).trans
      (congrArg Outcome.gates (hblind _ hchange')).symm
    exact Option.some.inj (hgates.symm.trans (hsame.trans hgates'))
  refine ⟨?_, ?_, ?_⟩
  · obtain ⟨best, naive₁, best', naive₂, hsame, hb, hn, hb', hn', -⟩ := hgates
      (agreeing v (t.view walk "naive")) (agreeing v (t.view walk "naive"))
      (differing v (t.view walk "naive")) (differing' v (t.view walk "naive"))
    have hsame : (exerciseGate best naive₁).isSome = (exerciseGate best' naive₂).isSome :=
      congrArg Prod.fst hsame
    refine shareSettled_of_edits (contender_nodup hv) ?_
    rw [← exerciseGate_iff hb hn, ← exerciseGate_iff hb' hn', hsame]
  · obtain ⟨best, naive₁, best', naive₂, hsame, hb, hn, hb', hn', hsel, hsel'⟩ :=
      hgates hit hit miss miss
    have hsame : (edgeGate best naive₁).isSome = (edgeGate best' naive₂).isSome :=
      congrArg (fun gates ↦ gates.2.1) hsame
    intro hthin
    have hhigh : (edgeGate best' naive₂).isSome := by
      rw [edgeGate_iff, hb'.selMetrics, block_edit, smape_edit_miss, ← hsel']
      exact hthin
    rw [← hsame, edgeGate_iff, hb.selMetrics, block_edit, smape_edit_hit, ← hsel] at hhigh
    exact hhigh
  · obtain ⟨best, naive₁, best', naive₂, hsame, hb, hn, hb', hn', -⟩ := hgates hit miss miss hit
    have hsame : (bootstrapGate t.resample best naive₁).isSome =
        (bootstrapGate t.resample best' naive₂).isSome := congrArg (fun gates ↦ gates.2.2) hsame
    refine bootstrapSettled_of_edits ?_
    rw [← bootstrapGate_iff hb hn, ← bootstrapGate_iff hb' hn', hsame]

end Steering

/-- The tournament is blind to the holdout exactly when no fold outside the
selection blocks is decisive. -/
theorem blind_iff_sealed (t : Tournament) (walk : String → Walk) :
    t.Blind walk ↔ t.Sealed walk := by
  refine ⟨fun hblind ↦ ?_, blind_of_sealed⟩
  have hapart := apart_of_blind hblind
  exact ⟨hapart, fun naive hnaive ↦ ranked_of_blind hblind hapart hnaive,
    fun naive v hnaive hv ↦ settled_of_blind hblind hapart hnaive hv⟩

section FifteenFolds

def fifteenFolds : Tournament where
  candidates := ["naive", "linear"]
  nodup := by decide
  plain := by decide
  seriesLength := 75
  horizonSteps := 1
  maxFolds := 40
  resample := fun n ↦ [List.range n]

/-- Fifteen folds, on all but the first four of which `linear` halves the error of
naive. -/
def halvedError (name : String) : Walk where
  folds := (List.range 15).map (fun i ↦
    ⟨59 + i, i, 100, if name = "linear" ∧ 4 ≤ i then 105 else 100, 110⟩)
  ascending := by
    rw [map_map]
    exact pairwise_lt_range.map _ (fun _ _ h ↦ Nat.add_lt_add_left h 59)

/-- Five folds of the holdout that reproduce naive take the candidate over the
bound of gate 0. -/
theorem holdout_decides_gate : ¬ ∀ (t : Tournament) (walk : String → Walk), t.Blind walk := by
  intro hall
  have hgates := congrArg Outcome.gates
    (hall fifteenFolds halvedError _ (editWalk_change (fun _ f ↦ f.base)))
  revert hgates
  decide +kernel

end FifteenFolds

end TalaPala.Forecast
