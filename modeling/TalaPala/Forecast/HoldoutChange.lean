import TalaPala.Forecast.GateBounds
import TalaPala.Forecast.MarkedEnsemble

namespace TalaPala.Forecast

open Library List

section Definitions

variable (t : Tournament)

def bestRanked (results : Results) : String :=
  match results.lookup "naive" with
  | none => ((results.argmin (·.2.selMetrics.smape)).map Prod.fst).getD ""
  | some naive => ((rank results naive.selMetrics.smape).map Prod.fst).getD "naive"

def Tournament.rejections (best naive : CandidateResult) : Bool × Bool × Bool :=
  ((exerciseGate best naive).isSome, (edgeGate best naive).isSome,
    (bootstrapGate t.resample best naive).isSome)

def Tournament.gates (results : Results) : Option (Bool × Bool × Bool) :=
  (results.lookup "naive").bind (fun naive ↦
    (rank results naive.selMetrics.smape).map (fun r ↦ t.rejections r.2 naive))

structure Outcome where
  weights : Option (List (String × ℚ))
  best : String
  gates : Option (Bool × Bool × Bool)

def Tournament.outcome (walk : String → Walk) : Outcome where
  weights := ensembleWeights (t.candidateResults walk)
  best := bestRanked (evaluateCandidates t walk)
  gates := t.gates (evaluateCandidates t walk)

def Tournament.selection (folds : List Fold) : List Fold :=
  (splitFolds folds t.horizonSteps t.step).1

/-- The same folds, up to the predictions and actuals outside the selection block. -/
def Tournament.HoldoutChange (walk walk' : String → Walk) : Prop :=
  ∀ name ∈ t.candidates, t.selection (walk name).folds = t.selection (walk' name).folds ∧
    List.Forall₂ (fun f g ↦ f.tIndex = g.tIndex ∧ f.tTime = g.tTime ∧ f.base = g.base)
      (walk name).folds (walk' name).folds

/-- No change outside the selection blocks is seen. -/
def Tournament.Blind (walk : String → Walk) : Prop :=
  ∀ walk', t.HoldoutChange walk walk' → t.outcome walk' = t.outcome walk

def Tournament.selected (n : ℕ) : ℕ := selectionLength n t.horizonSteps t.step

/-- The folds of a candidate, marked outside its selection block. -/
def Tournament.view (walk : String → Walk) (name : String) : List Marked :=
  mark (t.selected ((t.candidateResults walk).foldsOf name).length)
    ((t.candidateResults walk).foldsOf name)

def Tournament.ensembleView (walk : String → Walk) : List Marked :=
  match ensembleWeights (t.candidateResults walk) with
  | some weights => markedEnsemble (t.view walk) weights
  | none => []

def Tournament.block (v : List Marked) : List Marked := v.take (t.selected v.length)

def Tournament.lead (walk : String → Walk) (naive : CandidateResult) :
    Option (String × CandidateResult) :=
  rank (t.candidateResults walk) naive.selMetrics.smape

def Tournament.leadSmape (walk : String → Walk) (naive : CandidateResult) : ℚ :=
  (t.lead walk naive).elim naive.selMetrics.smape (·.2.selMetrics.smape)

def Tournament.EnsembleLeads (walk : String → Walk) (naive : CandidateResult) : Prop :=
  t.ensembleView walk ≠ [] ∧
    smapeHigh (t.block (t.ensembleView walk)) < t.leadSmape walk naive

instance (walk : String → Walk) (naive : CandidateResult) :
    Decidable (t.EnsembleLeads walk naive) := inferInstanceAs (Decidable (_ ∧ _))

/-- The marked folds of the best candidate, ensemble included; `none` is naive. -/
def Tournament.contender (walk : String → Walk) (naive : CandidateResult) :
    Option (List Marked) :=
  if t.EnsembleLeads walk naive then some (t.ensembleView walk)
  else (t.lead walk naive).map (fun r ↦ t.view walk r.1)

def Tournament.Ranked (walk : String → Walk) (naive : CandidateResult) : Prop :=
  t.ensembleView walk ≠ [] → t.EnsembleLeads walk naive ∨
    t.leadSmape walk naive ≤ smapeLow (t.block (t.ensembleView walk))

/-- Equally many folds, some of them outside the selection block, and the same
predictions inside it. -/
def Tournament.Twins (left right : List Fold) : Prop :=
  left.length = right.length ∧ (t.selection left).length < left.length ∧
    samePredictions (t.selection left) (t.selection right) = true

def Tournament.Apart (walk : String → Walk) : Prop :=
  ∀ a ∈ memberSmapes (t.candidateResults walk), ∀ b ∈ memberSmapes (t.candidateResults walk),
    a.1 ≠ b.1 → ¬ t.Twins (walk a.1).folds (walk b.1).folds

def ThinEdge (bestSel naiveSel : ℚ) : Prop :=
  0 < naiveSel ∧ (naiveSel - bestSel) / naiveSel < minEdgePct

structure Tournament.Settled (naive : CandidateResult) (v u : List Marked) : Prop where
  share : ShareSettled (markedPairs v u)
  edge : ThinEdge (smapeHigh (t.block v)) naive.selMetrics.smape →
    ThinEdge (smapeLow (t.block v)) naive.selMetrics.smape
  bootstrap : BootstrapSettled t.resample (markedPairs v u)

/-- No fold outside the selection blocks decides what enters the ensemble, which
candidate ranks best, or a gate. -/
structure Tournament.Sealed (walk : String → Walk) : Prop where
  apart : t.Apart walk
  ranked : ∀ naive, (t.candidateResults walk).lookup "naive" = some naive → t.Ranked walk naive
  settled : ∀ naive v, (t.candidateResults walk).lookup "naive" = some naive →
    t.contender walk naive = some v → t.Settled naive v (t.view walk "naive")

end Definitions

section Winner

variable {t : Tournament} {results : Results}

end Winner

section Board

variable {t : Tournament} {walk walk' : String → Walk}

theorem lookup_candidateResults {name : String} (hname : name ∈ t.candidates)
    (hfolds : (walk name).folds ≠ []) :
    (t.candidateResults walk).lookup name = some (t.entry (walk name).folds) := by
  rw [Tournament.candidateResults]
  exact lookup_graph (fun name ↦ t.entry (walk name).folds)
    (mem_filter.2 ⟨hname, by simpa using hfolds⟩)

theorem mem_candidateResults {r : String × CandidateResult} (hr : r ∈ t.candidateResults walk) :
    r.1 ∈ t.candidates ∧ (walk r.1).folds ≠ [] ∧ r.2 = t.entry (walk r.1).folds := by
  obtain ⟨name, hname, rfl⟩ := mem_map.1 hr
  obtain ⟨hname, hfolds⟩ := mem_filter.1 hname
  exact ⟨hname, by simpa using hfolds, rfl⟩

theorem mem_of_lookup {results : Results} {name : String} {r : CandidateResult}
    (h : results.lookup name = some r) : (name, r) ∈ results := by
  obtain ⟨before, after, rfl, -⟩ := lookup_eq_some_iff.1 h
  exact mem_append_right _ (mem_cons_self ..)

theorem foldsOf_of_mem {name : String} (hname : name ∈ t.candidates) :
    (t.candidateResults walk).foldsOf name = (walk name).folds := by
  rw [Results.foldsOf]
  cases hlookup : (t.candidateResults walk).lookup name with
  | some r =>
    have hr : r = t.entry (walk name).folds := (mem_candidateResults (mem_of_lookup hlookup)).2.2
    rw [hr]
    rfl
  | none =>
    by_contra hne
    rw [lookup_candidateResults hname (fun hnil ↦ hne hnil.symm)] at hlookup
    cases hlookup

theorem foldsOf_of_notMem {name : String} (hname : name ∉ t.candidates) :
    (t.candidateResults walk).foldsOf name = [] := by
  rw [Results.foldsOf]
  cases hlookup : (t.candidateResults walk).lookup name with
  | some r => exact absurd (mem_candidateResults (mem_of_lookup hlookup)).1 hname
  | none => rfl

def SameScore (r r' : String × CandidateResult) : Prop :=
  r.1 = r'.1 ∧ r.2.selMetrics = r'.2.selMetrics

abbrev SameBoard : Results → Results → Prop := List.Forall₂ SameScore

variable {results results' : Results}

theorem SameBoard.lookup (h : SameBoard results results') (name : String) :
    Option.Rel (fun r r' ↦ r.selMetrics = r'.selMetrics) (results.lookup name)
      (results'.lookup name) := by
  induction h with
  | nil => exact .none
  | @cons r r' _ _ hr _ ih =>
    rw [lookup_cons, lookup_cons, ← hr.1]
    split
    · exact .some hr.2
    · exact ih

theorem SameBoard.memberSmapes_eq (h : SameBoard results results') :
    memberSmapes results = memberSmapes results' := by
  have hnaive := SameBoard.lookup h "naive"
  rw [memberSmapes, memberSmapes]
  generalize results.lookup "naive" = o, results'.lookup "naive" = o' at hnaive
  cases hnaive with
  | none => rfl
  | some hsel =>
    refine (map_eq_of_forall₂ (R := SameScore) ?_ (fun r r' hr ↦ ?_)).symm
    · exact forall₂_filter (fun r r' hr ↦ by rw [hr.1, hr.2, hsel]) h
    · rw [hr.1, hr.2]

theorem SameBoard.rank_rel (h : SameBoard results results') (naiveSel : ℚ) :
    Option.Rel SameScore (rank results naiveSel) (rank results' naiveSel) := by
  refine forall₂_foldl (fun best best' r r' hbest hr ↦ ?_) h .none
  have hsmape : best.elim naiveSel (·.2.selMetrics.smape) =
      best'.elim naiveSel (·.2.selMetrics.smape) := by
    cases hbest with
    | none => rfl
    | some hscore => exact congrArg Metrics.smape hscore.2
  simp only [hr.1, hr.2, hsmape]
  split_ifs
  · exact .some hr
  · exact hbest

theorem SameBoard.argmin_rel (h : SameBoard results results') :
    Option.Rel SameScore (results.argmin (·.2.selMetrics.smape))
      (results'.argmin (·.2.selMetrics.smape)) := by
  refine forall₂_foldl (fun best best' r r' hbest hr ↦ ?_) h .none
  cases hbest with
  | none => exact .some hr
  | some hscore =>
    simp only [List.argAux, hr.2, hscore.2]
    split_ifs
    · exact .some hr
    · exact .some hscore

end Board

section Change

variable {t : Tournament} {walk walk' : String → Walk}

theorem selection_eq_take (folds : List Fold) :
    t.selection folds = folds.take (t.selected folds.length) :=
  splitFolds_selection folds t.horizonSteps t.step

theorem Tournament.HoldoutChange.refl : t.HoldoutChange walk walk := fun _ _ ↦
  ⟨rfl, List.forall₂_same.2 (fun _ _ ↦ ⟨rfl, rfl, rfl⟩)⟩

theorem Tournament.HoldoutChange.length_eq (h : t.HoldoutChange walk walk') {name : String}
    (hname : name ∈ t.candidates) : (walk name).folds.length = (walk' name).folds.length :=
  (h name hname).2.length_eq

theorem Tournament.HoldoutChange.sameBoard (h : t.HoldoutChange walk walk') :
    SameBoard (t.candidateResults walk) (t.candidateResults walk') := by
  have hfilter : t.candidates.filter (fun name ↦ decide ((walk name).folds ≠ [])) =
      t.candidates.filter (fun name ↦ decide ((walk' name).folds ≠ [])) := by
    refine filter_congr (fun name hname ↦ ?_)
    rw [decide_eq_decide, ← length_pos_iff, ← length_pos_iff, h.length_eq hname]
  rw [Tournament.candidateResults, Tournament.candidateResults, ← hfilter]
  rw [SameBoard, List.forall₂_map_left_iff, List.forall₂_map_right_iff, List.forall₂_same]
  intro name hname
  have hsel := (h name (mem_filter.1 hname).1).1
  exact ⟨rfl, congrArg foldMetrics hsel⟩

theorem Tournament.HoldoutChange.varies (h : t.HoldoutChange walk walk') (name : String) :
    List.Forall₂ Varies (t.view walk name) (t.view walk' name) := by
  rw [Tournament.view, Tournament.view]
  by_cases hname : name ∈ t.candidates
  · rw [foldsOf_of_mem hname, foldsOf_of_mem hname, ← h.length_eq hname]
    refine mark_varies ?_ ((h name hname).2.imp (fun _ _ hf ↦ hf.1))
    have hsel := (h name hname).1
    rwa [selection_eq_take, selection_eq_take, ← h.length_eq hname] at hsel
  · rw [foldsOf_of_notMem hname, foldsOf_of_notMem hname]
    exact .nil

theorem mem_memberSmapes {m : String × ℚ} (hm : m ∈ memberSmapes (t.candidateResults walk)) :
    m.1 ∈ t.candidates ∧ m.1 ≠ "naive" := by
  rw [memberSmapes] at hm
  split at hm
  · cases hm
  · obtain ⟨r, hr, rfl⟩ := mem_map.1 hm
    obtain ⟨hr, hbeats⟩ := mem_filter.1 hr
    exact ⟨(mem_candidateResults hr).1, of_decide_eq_true (Bool.and_eq_true_iff.1 hbeats).1⟩

theorem memberSmapes_nodup : ((memberSmapes (t.candidateResults walk)).map Prod.fst).Nodup := by
  rw [memberSmapes]
  split
  · exact nodup_nil
  · have hnames : ((t.candidateResults walk).map Prod.fst).Nodup := by
      rw [Tournament.candidateResults, map_map]
      simpa [Function.comp_def] using t.nodup.filter _
    rw [map_map]
    exact (filter_sublist.map Prod.fst).nodup hnames

end Change

end TalaPala.Forecast
