import TalaPala.Equities.ConcurrentIngest
import TalaPala.Equities.StoredActions

namespace TalaPala.Equities

open Library Pending Transition List

def View.Current (v : View) (d : Derivation) : Prop :=
  v.visibleBars = d.bars ∧ v.visibleAlternatives = d.alternatives

instance (v : View) (d : Derivation) : Decidable (v.Current d) :=
  inferInstanceAs (Decidable (_ ∧ _))

def Shared.upToDate (s : Shared) : Event → Bool
  | .commit w =>
    match s.phase w with
    | .finished d => decide ((s.view w).Current d)
    | _ => true
  | _ => true

def Shared.Caught (s : Shared) : Prop :=
  s.Quiet → 0 < s.staleActions ∨ Described s.bars s.alternatives s.actions

theorem described_iff {bars : List Bar} {alternatives : List AlternativeRow}
    {series : AdjustedSeries}
    (hseries : adjust bars {} (storedAlternatives alternatives) = .ok series)
    (actions : List CorporateAction) :
    Described bars alternatives actions ↔ Describes actions series.actions := by
  obtain ⟨found, hfound, _, hactions, _⟩ := adjust_ok hseries
  rw [hactions]
  constructor
  · intro h
    obtain ⟨found', hfound', hdescribes⟩ := h
    rw [hfound] at hfound'
    obtain rfl := Except.ok.inj hfound'
    exact hdescribes
  · exact fun h ↦ ⟨found, hfound, h⟩

structure View.Read (v : View) (d : Derivation) : Prop where
  bars : ReadOf v.bars v.ownBars d.bars
  alternatives : ReadOf v.alternatives v.ownAlternatives d.alternatives

structure View.Planned (v : View) (d : Derivation) (rest : List ActionStatement) : Prop where
  describes : Describes (applyStatements rest v.visibleActions) d.series.actions
  idle : v.ownBars = [] → v.ownAlternatives = [] → rest = [] ∧ v.ownStatements = []

theorem View.Planned.skip {v : View} {d : Derivation} {statement : ActionStatement}
    {rest : List ActionStatement} (h : v.Planned d (statement :: rest))
    (hsame : statement.apply v.visibleActions = v.visibleActions) : v.Planned d rest := by
  refine ⟨?_, fun hbars halternatives ↦ absurd (h.idle hbars halternatives).1 (by simp)⟩
  have hdescribes := h.describes
  rw [applyStatements, foldl_cons, hsame] at hdescribes
  exact hdescribes

theorem View.Planned.write {v : View} {d : Derivation} {statement : ActionStatement}
    {rest : List ActionStatement} (h : v.Planned d (statement :: rest)) :
    View.Planned { v with ownStatements := v.ownStatements ++ [statement] } d rest := by
  refine ⟨?_, fun hbars halternatives ↦ absurd (h.idle hbars halternatives).1 (by simp)⟩
  rw [View.visibleActions, applyStatements_append]
  exact h.describes

/-- The invariant of a transaction. What it has planned counts only while it is
current: one that is not will never be up to date again. -/
def View.Consistent (v : View) : Phase → Prop
  | .idle => v.ownStatements = []
  | .opened _ => v.ownStatements = []
  | .inserting _ _ => v.ownStatements = []
  | .reread bars => v.ownStatements = [] ∧ ReadOf v.bars v.ownBars bars
  | .derived d => v.ownStatements = [] ∧ v.Read d
  | .writing d rest => v.Read d ∧ (v.Current d → v.Planned d rest)
  | .aiming d statement aim rest => v.Read d ∧ (∀ a, statement ≠ .insert a) ∧
      (v.Current d → v.Planned d (statement :: rest) ∧ aim = v.aim statement.day)
  | .judging d _ => v.Read d ∧ (v.Current d → v.Planned d [])
  | .finished d => v.Read d ∧ (v.Current d → v.Planned d [])

section Published

variable {v : View} {bars : List Bar} {rows : List AlternativeRow}
  {actions : List CorporateAction} {deleted : List Date}

def View.published (v : View) (bars : List Bar) (rows : List AlternativeRow)
    (actions : List CorporateAction) (deleted : List Date) : View :=
  { v with
    bars := v.bars ++ bars
    alternatives := v.alternatives ++ rows
    actions := actions
    deleted := v.deleted ++ deleted }

theorem View.Read.published {d : Derivation} (h : v.Read d) :
    (v.published bars rows actions deleted).Read d :=
  ⟨h.bars.mono (prefix_append _ _), h.alternatives.mono (prefix_append _ _)⟩

theorem View.Read.nothing_published {d : Derivation} (h : v.Read d)
    (hcurrent : (v.published bars rows actions deleted).Current d) : bars = [] ∧ rows = [] :=
  ⟨h.bars.published_eq_nil hcurrent.1, h.alternatives.published_eq_nil hcurrent.2⟩

theorem View.Consistent.published {phase : Phase} (h : v.Consistent phase)
    (hidle : bars = [] → rows = [] → actions = v.actions ∧ deleted = []) :
    (v.published bars rows actions deleted).Consistent phase := by
  have hlift {d : Derivation} (P : View → Prop) (hread : v.Read d) (hv : v.Current d → P v)
      (hcurrent : (v.published bars rows actions deleted).Current d) :
      P (v.published bars rows actions deleted) := by
    obtain ⟨rfl, rfl⟩ := hread.nothing_published hcurrent
    obtain ⟨rfl, rfl⟩ := hidle rfl rfl
    have hsame : v.published [] [] v.actions [] = v := by simp [View.published]
    rw [hsame] at hcurrent ⊢
    exact hv hcurrent
  cases phase with
  | idle => exact h
  | opened payload => exact h
  | inserting bars rows => exact h
  | reread bars => exact ⟨h.1, h.2.mono (prefix_append _ _)⟩
  | derived d => exact ⟨h.1, h.2.published⟩
  | writing d rest => exact ⟨h.1.published, hlift (fun v ↦ v.Planned d rest) h.1 h.2⟩
  | aiming d statement aim rest =>
    exact ⟨h.1.published, h.2.1,
      hlift (fun v ↦ v.Planned d (statement :: rest) ∧ aim = v.aim statement.day) h.1 h.2.2⟩
  | judging d existing => exact ⟨h.1.published, hlift (fun v ↦ v.Planned d []) h.1 h.2⟩
  | finished d => exact ⟨h.1.published, hlift (fun v ↦ v.Planned d []) h.1 h.2⟩

end Published

structure Shared.Sound (s : Shared) : Prop where
  dates : ((s.bars ++ s.pendingBars.map Prod.snd).map Bar.tradeDate).Nodup
  described : Described s.bars s.alternatives s.actions
  consistent : ∀ w, (s.view w).Consistent (s.phase w)

theorem sound_shared_start (insCode : String) : (Shared.start insCode).Sound where
  dates := nodup_nil
  described := ⟨([], []), rfl, ⟨nodup_nil, by simp [chainFactors], by simp [Shared.start]⟩⟩
  consistent := fun _ ↦ rfl

theorem Shared.Sound.visibleBars_nodup {s : Shared} (h : s.Sound) (w : ℕ) :
    ((s.view w).visibleBars.map Bar.tradeDate).Nodup :=
  h.dates.sublist (((append_sublist_append_left _).mpr (own_sublist _ _)).map _)

theorem Shared.Sound.of_writer {s t : Shared} (h : s.Sound) (w : ℕ) {view : View} {phase : Phase}
    (hbars : t.bars = s.bars) (halternatives : t.alternatives = s.alternatives)
    (hactions : t.actions = s.actions)
    (hdates : ((t.bars ++ t.pendingBars.map Prod.snd).map Bar.tradeDate).Nodup)
    (hothers : ∀ v, v ≠ w → t.view v = s.view v ∧ t.phase v = s.phase v)
    (hview : t.view w = view) (hphase : t.phase w = phase) (hself : view.Consistent phase) :
    t.Sound where
  dates := hdates
  described := by
    rw [hbars, halternatives, hactions]
    exact h.described
  consistent := by
    intro v
    by_cases hvw : v = w
    · rw [hvw, hview, hphase]
      exact hself
    · obtain ⟨hsame, hstill⟩ := hothers v hvw
      rw [hsame, hstill]
      exact h.consistent v

section Step

variable {s : Shared} {w : ℕ} {phase : Phase}

theorem Shared.Sound.setPhase (h : s.Sound) (hphase : (s.view w).Consistent phase) :
    (s.setPhase w phase).Sound :=
  h.of_writer w rfl rfl rfl h.dates (fun _ hvw ↦ ⟨rfl, Function.update_of_ne hvw _ _⟩) rfl
    (Function.update_self _ _ _) hphase

theorem Shared.Sound.discard (h : s.Sound) : (s.discard w).Sound := by
  refine h.of_writer w rfl rfl rfl ?_ (fun v hvw ↦ ⟨?_, Function.update_of_ne hvw _ _⟩) rfl
    (Function.update_self _ _ _) (own_release_self _ _)
  · refine h.dates.sublist (List.Sublist.map _ ?_)
    exact (append_sublist_append_left _).mpr ((release_sublist _ _).map _)
  · simp only [Shared.view, Shared.discard, own_release_other hvw]

theorem Shared.Sound.addBar (h : s.Sound) {bar : Bar}
    (hheld : held s.pendingBars w (fun stored ↦ stored.sameDay bar) = false)
    (hnew : (s.view w).visibleBars.any (fun stored ↦ stored.sameDay bar) = false)
    (hphase : View.Consistent { s.view w with ownBars := (s.view w).ownBars ++ [bar] } phase) :
    ((s.addBar w bar).setPhase w phase).Sound := by
  have hfree : ∀ stored ∈ s.bars ++ s.pendingBars.map Prod.snd, stored.sameDay bar = false := by
    intro stored hstored
    rw [View.visibleBars, any_append, Bool.or_eq_false_iff, any_eq_false, any_eq_false] at hnew
    cases mem_append.mp hstored with
    | inl hold => exact Bool.eq_false_iff.mpr (hnew.1 stored hold)
    | inr hpending =>
      exact not_clashes hheld (fun b hb ↦ Bool.eq_false_iff.mpr (hnew.2 b hb)) hpending
  have hdates : ((s.bars ++ (s.pendingBars ++ [(w, bar)]).map Prod.snd).map
      Bar.tradeDate).Nodup := by
    have hsplit : s.bars ++ (s.pendingBars ++ [(w, bar)]).map Prod.snd =
        (s.bars ++ s.pendingBars.map Prod.snd) ++ [bar] := by simp
    rw [hsplit, map_append, nodup_append]
    refine ⟨h.dates, nodup_singleton _, fun day hday day' hday' heq ↦ ?_⟩
    obtain ⟨stored, hstored, rfl⟩ := mem_map.mp hday
    obtain rfl := mem_singleton.mp hday'
    have hclash := (Bar.sameDay_iff stored bar).mpr heq
    rw [hfree stored hstored] at hclash
    cases hclash
  refine h.of_writer w rfl rfl rfl hdates (fun v hvw ↦ ⟨?_, Function.update_of_ne hvw _ _⟩) ?_
    (Function.update_self _ _ _) hphase
  · simp only [Shared.view, Shared.setPhase, Shared.addBar, own_append_other hvw]
  · simp only [Shared.view, Shared.setPhase, Shared.addBar, own_append_self]

theorem Shared.Sound.addAlternative (h : s.Sound) {row : AlternativeRow}
    (hphase : View.Consistent
      { s.view w with ownAlternatives := (s.view w).ownAlternatives ++ [row] } phase) :
    ((s.addAlternative w row).setPhase w phase).Sound := by
  refine h.of_writer w rfl rfl rfl h.dates (fun v hvw ↦ ⟨?_, Function.update_of_ne hvw _ _⟩) ?_
    (Function.update_self _ _ _) hphase
  · simp only [Shared.view, Shared.setPhase, Shared.addAlternative, own_append_other hvw]
  · simp only [Shared.view, Shared.setPhase, Shared.addAlternative, own_append_self]

theorem Shared.Sound.addStatement (h : s.Sound) {statement : ActionStatement}
    (hphase : View.Consistent
      { s.view w with ownStatements := (s.view w).ownStatements ++ [statement] } phase) :
    ((s.addStatement w statement).setPhase w phase).Sound := by
  refine h.of_writer w rfl rfl rfl h.dates (fun v hvw ↦ ⟨?_, Function.update_of_ne hvw _ _⟩) ?_
    (Function.update_self _ _ _) hphase
  · simp only [Shared.view, Shared.setPhase, Shared.addStatement, own_append_other hvw]
  · simp only [Shared.view, Shared.setPhase, Shared.addStatement, own_append_self]

theorem Shared.Sound.addVerdict (h : s.Sound) (series : AdjustedSeries)
    (hphase : (s.view w).Consistent phase) : ((s.addVerdict w series).setPhase w phase).Sound :=
  h.of_writer w rfl rfl rfl h.dates (fun _ hvw ↦ ⟨rfl, Function.update_of_ne hvw _ _⟩) rfl
    (Function.update_self _ _ _) hphase

theorem Shared.Sound.insertRow {t inserted : Shared} {checked waits conflict : Bool}
    (h : s.Sound) (hstep : s.insertRow w checked waits conflict phase inserted = some t)
    (hconflict : conflict = true → (s.view w).Consistent phase)
    (hinserted : waits = false → conflict = false → (inserted.setPhase w phase).Sound) :
    t.Sound := by
  unfold Shared.insertRow at hstep
  split at hstep
  · obtain rfl := Option.some.inj hstep
    exact h.discard
  · split at hstep
    · cases hstep
    · rename_i hwaits
      split at hstep
      · rename_i hc
        obtain rfl := Option.some.inj hstep
        exact h.setPhase (hconflict hc)
      · rename_i hc
        obtain rfl := Option.some.inj hstep
        exact hinserted (Bool.eq_false_iff.mpr hwaits) (Bool.eq_false_iff.mpr hc)

theorem Shared.Sound.strike {t : Shared} {d : Derivation} {statement : ActionStatement}
    {aim : Option ℕ} {rest : List ActionStatement} (h : s.Sound)
    (hphase : (s.view w).Consistent (.aiming d statement aim rest))
    (hstep : s.strike w statement aim (.writing d rest) = some t) : t.Sound := by
  obtain ⟨hread, hinsert, hplanned⟩ := hphase
  unfold Shared.strike at hstep
  split at hstep
  · rename_i haim
    obtain rfl := Option.some.inj hstep
    refine h.setPhase ⟨hread, fun hcurrent ↦ ?_⟩
    obtain ⟨hplan, hsame⟩ := hplanned hcurrent
    apply hplan.skip
    apply apply_of_absent hinsert
    rw [haim, View.aim] at hsame
    split at hsame
    · cases hsame
    · exact Bool.eq_false_iff.mpr ‹_›
  · split at hstep
    · cases hstep
    · split at hstep
      · rename_i hgone
        obtain rfl := Option.some.inj hstep
        exact h.setPhase ⟨hread, fun hcurrent ↦ absurd (hplanned hcurrent).2.symm hgone⟩
      · split at hstep
        · obtain rfl := Option.some.inj hstep
          exact h.discard
        · obtain rfl := Option.some.inj hstep
          exact h.addStatement ⟨⟨hread.1, hread.2⟩, fun hcurrent ↦ (hplanned hcurrent).1.write⟩

theorem Shared.Sound.planned (h : s.Sound) {d : Derivation} {plan : ActionPlan}
    (hphase : (s.view w).Consistent (.derived d)) (hcurrent : (s.view w).Current d)
    (hplan : planActions s.insCode (s.view w).visibleActions d.series.actions = .ok plan) :
    (s.view w).Planned d plan.statements := by
  obtain ⟨hbars, halternatives⟩ := hcurrent
  have hactions : (s.view w).visibleActions = s.actions := by
    rw [View.visibleActions, hphase.1]
    rfl
  rw [hactions] at hplan
  have hdates : (d.bars.map Bar.tradeDate).Nodup := hbars ▸ h.visibleBars_nodup w
  have hevidenced : ∀ row ∈ s.actions, Evidenced d.bars row := by
    intro row hrow
    refine (h.described.evidenced row hrow).mono ?_
    rw [← hbars]
    exact subset_append_left _ _
  constructor
  · rw [hactions, ← described_iff d.derived]
    exact describes_of_series hdates h.described.nodup hevidenced d.derived
      (planActions_isPlan hplan)
  · intro hnoBars hnoAlternatives
    rw [View.visibleBars, hnoBars, append_nil] at hbars
    rw [View.visibleAlternatives, hnoAlternatives, append_nil] at halternatives
    refine ⟨(planActions_isPlan hplan).statements_eq_nil ?_, hphase.1⟩
    rw [← described_iff d.derived, ← hbars, ← halternatives]
    exact h.described

theorem Shared.Sound.writing {t : Shared} {d : Derivation} {rest : List ActionStatement}
    (h : s.Sound) (hphase : (s.view w).Consistent (.writing d rest))
    (hstep : s.statement w (.writing d rest) = some t) : t.Sound := by
  obtain ⟨hread, hplanned⟩ := hphase
  have haims {statement : ActionStatement} {rest : List ActionStatement}
      (hinsert : ∀ a, statement ≠ .insert a)
      (hplan : (s.view w).Current d → (s.view w).Planned d (statement :: rest)) :
      (s.setPhase w (.aiming d statement ((s.view w).aim statement.day) rest)).Sound :=
    h.setPhase ⟨hread, hinsert, fun hcurrent ↦ ⟨hplan hcurrent, rfl⟩⟩
  cases rest with
  | nil =>
    obtain rfl := Option.some.inj hstep
    exact h.setPhase ⟨hread, hplanned⟩
  | cons statement rest =>
    cases statement with
    | insert action =>
      refine h.insertRow hstep (fun hconflict ↦ ⟨hread, fun hcurrent ↦ ?_⟩)
        (fun _ _ ↦ h.addStatement ⟨⟨hread.1, hread.2⟩, fun hcurrent ↦ (hplanned hcurrent).write⟩)
      exact (hplanned hcurrent).skip (apply_of_conflict hconflict)
    | delete day =>
      obtain rfl := Option.some.inj hstep
      exact haims (by simp) hplanned
    | update action =>
      obtain rfl := Option.some.inj hstep
      exact haims (by simp) hplanned

theorem Shared.Sound.statement {t : Shared} (h : s.Sound)
    (hstep : s.statement w (s.phase w) = some t) : t.Sound := by
  have hconsistent := h.consistent w
  generalize s.phase w = phase at hstep hconsistent
  cases phase with
  | idle => cases hstep
  | opened payload =>
    simp only [Shared.statement] at hstep
    split at hstep
    · obtain rfl := Option.some.inj hstep
      exact h.discard
    · obtain rfl := Option.some.inj hstep
      exact h.setPhase hconsistent
  | inserting bars rows =>
    cases bars with
    | cons bar bars =>
      exact h.insertRow hstep (fun _ ↦ hconsistent)
        (fun hwaits hnew ↦ h.addBar hwaits hnew hconsistent)
    | nil =>
      cases rows with
      | cons row rows =>
        exact h.insertRow hstep (fun _ ↦ hconsistent) (fun _ _ ↦ h.addAlternative hconsistent)
      | nil =>
        obtain rfl := Option.some.inj hstep
        exact h.setPhase ⟨hconsistent, ReadOf.now _ _⟩
  | reread bars =>
    simp only [Shared.statement] at hstep
    split at hstep
    · obtain rfl := Option.some.inj hstep
      exact h.discard
    · rename_i d hd
      obtain rfl := Option.some.inj hstep
      obtain ⟨rfl, hrows⟩ := derive_reads hd
      refine h.setPhase ⟨hconsistent.1, hconsistent.2, ?_⟩
      rw [hrows]
      exact ReadOf.now _ _
  | derived d =>
    simp only [Shared.statement] at hstep
    split at hstep
    · obtain rfl := Option.some.inj hstep
      exact h.discard
    · rename_i plan hplan
      obtain rfl := Option.some.inj hstep
      exact h.setPhase ⟨hconsistent.2, fun hcurrent ↦ h.planned hconsistent hcurrent hplan⟩
  | writing d rest => exact h.writing hconsistent hstep
  | aiming d statement aim rest => exact h.strike hconsistent hstep
  | judging d existing =>
    exact h.insertRow hstep (fun _ ↦ hconsistent) (fun _ _ ↦ h.addVerdict d.series hconsistent)
  | finished d => cases hstep

theorem Shared.Sound.publish (h : s.Sound) {d : Derivation} (hphase : s.phase w = .finished d)
    (hcurrent : (s.view w).Current d) : (s.publish w).Sound := by
  have hplanned : (s.view w).Planned d [] := by
    have hconsistent := h.consistent w
    rw [hphase] at hconsistent
    exact hconsistent.2 hcurrent
  have hperm : ((s.bars ++ own s.pendingBars w) ++
      (release s.pendingBars w).map Prod.snd).Perm (s.bars ++ s.pendingBars.map Prod.snd) := by
    rw [append_assoc]
    exact (own_append_release_perm _ _).append_left _
  refine ⟨?_, ?_, fun v ↦ ?_⟩
  · exact ((hperm.map _).nodup_iff).mpr h.dates
  · have hdescribed : Described d.bars d.alternatives (s.view w).visibleActions :=
      (described_iff d.derived _).mpr hplanned.describes
    rw [← hcurrent.1, ← hcurrent.2] at hdescribed
    exact hdescribed
  · by_cases hvw : v = w
    · have hidle : (s.publish w).phase w = .idle := Function.update_self _ _ _
      rw [hvw, hidle]
      exact own_release_self _ _
    · have hview : (s.publish w).view v = (s.view v).published (s.view w).ownBars
          (s.view w).ownAlternatives (s.view w).visibleActions
          ((s.view w).ownStatements.filterMap ActionStatement.deletedDay) := by
        simp only [Shared.view, Shared.publish, View.published, own_release_other hvw]
        rfl
      have hstill : (s.publish w).phase v = s.phase v := Function.update_of_ne hvw _ _
      rw [hview, hstill]
      apply (h.consistent v).published
      intro hnoBars hnoAlternatives
      obtain ⟨_, hnone⟩ := hplanned.idle hnoBars hnoAlternatives
      rw [View.visibleActions, hnone]
      exact ⟨rfl, rfl⟩

end Step

theorem Shared.Sound.next {s t : Shared} {event : Event} (h : s.Sound)
    (hcurrent : s.upToDate event = true) (hstep : next s event = some t) : t.Sound := by
  cases event with
  | call w call =>
    simp only [Equities.next] at hstep
    split at hstep
    · obtain rfl := Option.some.inj hstep
      exact h
    · rename_i hidle _
      split at hstep
      · obtain rfl := Option.some.inj hstep
        have hconsistent := h.consistent w
        rw [hidle] at hconsistent
        exact h.setPhase hconsistent
      · cases hstep
    · cases hstep
  | statement w => exact h.statement hstep
  | commit w =>
    simp only [Equities.next] at hstep
    split at hstep
    · rename_i d hphase
      obtain rfl := Option.some.inj hstep
      rw [Shared.upToDate, hphase] at hcurrent
      exact h.publish hphase (of_decide_eq_true hcurrent)
    · cases hstep
  | abort w =>
    obtain rfl := Option.some.inj hstep
    exact h.discard

def nextStatements (w n : ℕ) : List Event := List.replicate n (.statement w)

def seeded : List Event :=
  .call 0 ⟨[share 1 0 100, share 2 100 100], ""⟩ :: (nextStatements 0 8 ++ [.commit 0])

def bothCalled : List Event :=
  [.call 0 ⟨[share 1 0 100, share 2 100 100, share 3 100 95], ""⟩,
    .call 1 ⟨[share 1 0 100, share 2 100 100, share 4 100 100], ""⟩]

def crossed : List Event :=
  seeded ++ bothCalled ++ nextStatements 0 3 ++ nextStatements 1 4 ++ nextStatements 0 4 ++
    [.commit 0] ++ nextStatements 1 3 ++ [.commit 1]

def queued : List Event :=
  seeded ++ bothCalled ++ nextStatements 0 3 ++ nextStatements 1 2 ++ nextStatements 0 4 ++
    [.commit 0] ++ nextStatements 1 6 ++ [.commit 1]

end TalaPala.Equities
