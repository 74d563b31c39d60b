import TalaPala.Equities.Ingest
import TalaPala.Library.Checked
import Mathlib.Tactic.Positivity

namespace TalaPala.Equities

open Library SuffixFactor List

section InsertIgnore

variable {α κ : Type*} {sameKey : α → α → Bool} {checked : α → Bool} {key : α → κ}
  {table rows out : List α}

theorem insertIgnore_keeps (h : insertIgnore sameKey checked table rows = some out) :
    table <+: out := by
  induction rows generalizing table with
  | nil => exact Option.some.inj h ▸ prefix_rfl
  | cons row rows ih =>
    rw [insertIgnore] at h
    split at h
    · have hrest := ih h
      split at hrest
      · exact hrest
      · exact (prefix_append _ _).trans hrest
    · cases h

theorem insertIgnore_fresh (hchecked : ∀ row ∈ rows, checked row = true)
    (hfresh : ∀ row ∈ rows, ∀ stored ∈ table, sameKey stored row = false)
    (hapart : rows.Pairwise (fun row row' ↦ sameKey row row' = false)) :
    insertIgnore sameKey checked table rows = some (table ++ rows) := by
  induction rows generalizing table with
  | nil => rw [insertIgnore, append_nil]
  | cons row rows ih =>
    obtain ⟨hrow, hrest⟩ := pairwise_cons.mp hapart
    have hany : table.any (fun stored ↦ sameKey stored row) = false :=
      any_eq_false.mpr (fun stored hstored ↦ by
        rw [hfresh row mem_cons_self stored hstored]
        exact Bool.false_ne_true)
    rw [insertIgnore, if_pos (hchecked row mem_cons_self), hany, if_neg Bool.false_ne_true,
      append_cons table row rows]
    refine ih (fun row' h' ↦ hchecked row' (mem_cons_of_mem _ h')) (fun row' h' stored hs ↦ ?_)
      hrest
    rcases mem_append.mp hs with hs | hs
    · exact hfresh row' (mem_cons_of_mem _ h') stored hs
    · exact mem_singleton.mp hs ▸ hrow row' h'

variable (hkey : ∀ a b, sameKey a b = true ↔ key a = key b)

include hkey

theorem insertIgnore_nodup (h : insertIgnore sameKey checked table rows = some out)
    (hnodup : (table.map key).Nodup) : (out.map key).Nodup := by
  induction rows generalizing table with
  | nil => exact Option.some.inj h ▸ hnodup
  | cons row rows ih =>
    rw [insertIgnore] at h
    split at h
    · refine ih h ?_
      split
      · exact hnodup
      · rename_i hfree
        rw [Bool.not_eq_true, any_eq_false] at hfree
        rw [map_append, nodup_append]
        refine ⟨hnodup, nodup_singleton _, fun k hk k' hk' heq ↦ ?_⟩
        obtain ⟨stored, hstored, rfl⟩ := mem_map.mp hk
        obtain rfl := mem_singleton.mp hk'
        exact hfree stored hstored ((hkey _ _).mpr heq)
    · cases h

end InsertIgnore

theorem Bar.sameDay_iff (bar bar' : Bar) :
    bar.sameDay bar' = true ↔ bar.tradeDate = bar'.tradeDate := decide_eq_true_iff

theorem CorporateAction.sameDay_iff (action action' : CorporateAction) :
    action.sameDay action' = true ↔ action.effectiveDate = action'.effectiveDate :=
  decide_eq_true_iff

theorem closeEnough_self (x : ℚ) : closeEnough x x = true := by
  rw [closeEnough, decide_eq_true_eq, sub_self, abs_zero]
  positivity

def CorporateAction.evidence (action : CorporateAction) : CorporateAction :=
  { action with cumulativeFactor := 1 }

def pairAction (previous current : Bar) : CorporateAction :=
  if current.priceYesterday ≠ previous.finalClose then referenceAction previous current
  else closeAction previous current

theorem pairAction_dates (previous current : Bar) :
    (pairAction previous current).effectiveDate = current.tradeDate ∧
      (pairAction previous current).prevTradeDate = previous.tradeDate := by
  unfold pairAction
  split <;> exact ⟨rfl, rfl⟩

def Evidenced (bars : List Bar) (action : CorporateAction) : Prop :=
  ∃ previous ∈ bars, ∃ current ∈ bars, action.evidence = pairAction previous current

theorem Evidenced.mono {bars bars' : List Bar} {action : CorporateAction}
    (h : Evidenced bars action) (hs : bars ⊆ bars') : Evidenced bars' action := by
  obtain ⟨previous, hp, current, hc, heq⟩ := h
  exact ⟨previous, hs hp, current, hs hc, heq⟩

theorem eq_of_tradeDate {bars : List Bar} (h : (bars.map Bar.tradeDate).Nodup) {bar bar' : Bar}
    (hbar : bar ∈ bars) (hbar' : bar' ∈ bars) (hdate : bar.tradeDate = bar'.tradeDate) :
    bar = bar' := inj_on_of_nodup_map h hbar hbar' hdate

theorem Evidenced.evidence_eq {bars : List Bar} (hbars : (bars.map Bar.tradeDate).Nodup)
    {a b : CorporateAction} (ha : Evidenced bars a) (hb : Evidenced bars b)
    (hdate : a.effectiveDate = b.effectiveDate) (hprev : a.prevTradeDate = b.prevTradeDate) :
    a.evidence = b.evidence := by
  obtain ⟨p, hp, c, hc, hpc⟩ := ha
  obtain ⟨p', hp', c', hc', hpc'⟩ := hb
  have hdates := pairAction_dates p c
  have hdates' := pairAction_dates p' c'
  rw [← hpc] at hdates
  rw [← hpc'] at hdates'
  have hcc : c = c' := eq_of_tradeDate hbars hc hc'
    (hdates.1.symm.trans (Eq.trans hdate hdates'.1))
  have hpp : p = p' := eq_of_tradeDate hbars hp hp'
    (hdates.2.symm.trans (Eq.trans hprev hdates'.2))
  rw [hpc, hpc', hcc, hpp]

theorem detected_evidenced {alternatives : Alternatives} {bars : List Bar}
    {found : List CorporateAction × List ContestedBreak}
    (h : detectActions alternatives bars = .ok found) {a : CorporateAction} (ha : a ∈ found.1) :
    Evidenced bars a := by
  obtain ⟨i, previous, current, finding, hp, hc, hexamine, hmem⟩ := action_of_pair h ha
  refine ⟨previous, mem_of_getElem? hp, current, mem_of_getElem? hc, ?_⟩
  rcases examine_cases hexamine with ⟨_, _, hn⟩ | ⟨hne, _, _, _, rfl⟩ | ⟨heq, _, _, _, rfl⟩ |
    ⟨_, _, rfl⟩
  · rw [hn] at hmem
    cases hmem
  · obtain rfl := mem_singleton.mp hmem
    rw [pairAction, if_pos hne]
    rfl
  · obtain rfl := mem_singleton.mp hmem
    rw [pairAction, if_neg (not_not.mpr heq)]
    rfl
  · cases hmem

theorem chainFactors_evidence (detected : List CorporateAction) :
    (chainFactors detected).map CorporateAction.evidence =
      detected.map CorporateAction.evidence := by
  rw [chainFactors_eq, map_map]
  induction detected with
  | nil => rfl
  | cons a detected ih =>
    rw [chain, map_cons, ih, map_cons]
    rfl

theorem Evidenced.of_evidence {bars : List Bar} {a b : CorporateAction} (h : Evidenced bars a)
    (heq : b.evidence = a.evidence) : Evidenced bars b := by
  obtain ⟨p, hp, c, hc, hpc⟩ := h
  exact ⟨p, hp, c, hc, heq.trans hpc⟩

theorem chained_evidenced {alternatives : Alternatives} {bars : List Bar}
    {found : List CorporateAction × List ContestedBreak}
    (h : detectActions alternatives bars = .ok found) {a : CorporateAction}
    (ha : a ∈ chainFactors found.1) : Evidenced bars a := by
  have hmem : a.evidence ∈ found.1.map CorporateAction.evidence := by
    rw [← chainFactors_evidence]
    exact mem_map_of_mem ha
  obtain ⟨b, hb, heq⟩ := mem_map.mp hmem
  exact (detected_evidenced h hb).of_evidence heq.symm

theorem chainFactors_dates (detected : List CorporateAction) :
    (chainFactors detected).map CorporateAction.effectiveDate =
      detected.map CorporateAction.effectiveDate := by
  have := congrArg (List.map CorporateAction.effectiveDate) (chainFactors_evidence detected)
  rw [map_map, map_map] at this
  exact this

theorem chained_nodup {alternatives : Alternatives} {bars : List Bar} (hs : Ascending bars)
    {found : List CorporateAction × List ContestedBreak}
    (h : detectActions alternatives bars = .ok found) :
    ((chainFactors found.1).map CorporateAction.effectiveDate).Nodup := by
  rw [chainFactors_dates]
  exact pairwise_map.mpr ((detectActions_sorted hs h).imp (fun hlt ↦ hlt.ne))

def CorporateAction.agrees (stored detected : CorporateAction) : Prop :=
  stored.evidence = detected.evidence ∧
    closeEnough stored.cumulativeFactor detected.cumulativeFactor = true

theorem CorporateAction.agrees_self (action : CorporateAction) : action.agrees action :=
  ⟨rfl, closeEnough_self _⟩

structure Describes (table detected : List CorporateAction) : Prop where
  nodup : (table.map CorporateAction.effectiveDate).Nodup
  stored : ∀ a ∈ detected, ∃ row ∈ table, row.agrees a
  detected : ∀ row ∈ table, ∃ a ∈ detected, row.agrees a

theorem evidence_dates {a b : CorporateAction} (h : a.evidence = b.evidence) :
    a.effectiveDate = b.effectiveDate ∧ a.prevTradeDate = b.prevTradeDate ∧ a.ratio = b.ratio :=
  ⟨(congrArg CorporateAction.effectiveDate h :), (congrArg CorporateAction.prevTradeDate h :),
    (congrArg CorporateAction.ratio h :)⟩

theorem storedAction_eq_none {stored : List CorporateAction} {day : Date} :
    storedAction stored day = none ↔ ∀ row ∈ stored, row.effectiveDate ≠ day := by
  simp only [storedAction, find?_eq_none, decide_eq_true_eq, ne_eq]

theorem storedAction_mem {stored : List CorporateAction} {day : Date} {row : CorporateAction}
    (h : storedAction stored day = some row) : row ∈ stored ∧ row.effectiveDate = day := by
  rw [storedAction] at h
  exact ⟨mem_of_find?_eq_some h, by simpa using find?_some h⟩

theorem storedAction_eq_some {stored : List CorporateAction}
    (hnodup : (stored.map CorporateAction.effectiveDate).Nodup) {day : Date}
    {row : CorporateAction} :
    storedAction stored day = some row ↔ row ∈ stored ∧ row.effectiveDate = day := by
  refine ⟨storedAction_mem, fun h ↦ ?_⟩
  cases hfind : storedAction stored day with
  | none => exact absurd h.2 (storedAction_eq_none.mp hfind row h.1)
  | some row' =>
    obtain ⟨hmem, hday⟩ := storedAction_mem hfind
    rw [inj_on_of_nodup_map hnodup hmem h.1 (hday.trans h.2.symm)]

theorem applyStatements_append (first rest : List ActionStatement)
    (table : List CorporateAction) :
    applyStatements (first ++ rest) table = applyStatements rest (applyStatements first table) :=
  foldl_append

theorem mem_applyDeletes {days : List Date} {table : List CorporateAction}
    {row : CorporateAction} :
    row ∈ applyStatements (days.map .delete) table ↔
      row ∈ table ∧ row.effectiveDate ∉ days := by
  induction days generalizing table with
  | nil => simp [applyStatements]
  | cons day days ih =>
    have hstep : applyStatements ((day :: days).map .delete) table =
        applyStatements (days.map .delete) (deleteAction day table) := rfl
    rw [hstep, ih, deleteAction, mem_filter, decide_eq_true_eq, mem_cons, not_or, and_assoc]

theorem applyDeletes_sublist (days : List Date) (table : List CorporateAction) :
    (applyStatements (days.map .delete) table).Sublist table := by
  induction days generalizing table with
  | nil => exact List.Sublist.refl _
  | cons day days ih => exact (ih (deleteAction day table)).trans filter_sublist

theorem applyInserts_of_nodup {pending table : List CorporateAction}
    (hnodup : ((table ++ pending).map CorporateAction.effectiveDate).Nodup) :
    applyStatements (pending.map .insert) table = table ++ pending := by
  induction pending generalizing table with
  | nil => exact (append_nil table).symm
  | cons action pending ih =>
    have hfree : table.any (fun stored ↦ stored.sameDay action) = false := by
      rw [any_eq_false]
      intro stored hstored hsame
      rw [map_append, nodup_append] at hnodup
      exact hnodup.2.2 _ (mem_map_of_mem hstored) _ (mem_map_of_mem mem_cons_self)
        ((CorporateAction.sameDay_iff _ _).mp hsame)
    have hstep : applyStatements ((action :: pending).map .insert) table =
        applyStatements (pending.map .insert) (insertAction action table) := rfl
    rw [hstep, insertAction, hfree, if_neg Bool.false_ne_true,
      ih (by rwa [append_assoc, singleton_append]), append_assoc,
      singleton_append]

structure Refactored (actions : List CorporateAction) (row row' : CorporateAction) : Prop where
  evidence : row'.evidence = row.evidence
  factor : (∃ a ∈ actions, a.effectiveDate = row.effectiveDate ∧
      row'.cumulativeFactor = a.cumulativeFactor) ∨
    ((∀ a ∈ actions, a.effectiveDate ≠ row.effectiveDate) ∧ row' = row)

theorem applyUpdates_forall₂ (actions table : List CorporateAction) :
    List.Forall₂ (Refactored actions) table (applyStatements (actions.map .update) table) := by
  induction actions using List.reverseRecOn with
  | nil => exact List.forall₂_same.mpr (fun row _ ↦ ⟨rfl, .inr ⟨by simp, rfl⟩⟩)
  | append_singleton actions action ih =>
    rw [map_append, applyStatements_append]
    refine List.forall₂_map_right_iff.mpr (ih.imp (fun row row' h ↦ ?_))
    have hday : row'.effectiveDate = row.effectiveDate := (evidence_dates h.evidence).1
    by_cases hsame : row'.effectiveDate = action.effectiveDate
    · rw [if_pos ((CorporateAction.sameDay_iff _ _).mpr hsame)]
      exact ⟨h.evidence, .inl ⟨action, by simp, by rw [← hday, hsame], rfl⟩⟩
    · rw [if_neg (fun hs ↦ hsame ((CorporateAction.sameDay_iff _ _).mp hs))]
      refine ⟨h.evidence, ?_⟩
      cases h.factor with
      | inl hset =>
        obtain ⟨a, ha, hdate, hfactor⟩ := hset
        exact .inl ⟨a, mem_append_left _ ha, hdate, hfactor⟩
      | inr hleft =>
        refine .inr ⟨fun a ha ↦ ?_, hleft.2⟩
        cases mem_append.mp ha with
        | inl hold => exact hleft.1 a hold
        | inr hnew =>
          rw [mem_singleton.mp hnew, ← hday]
          exact fun heq ↦ hsame heq.symm

theorem pending_iff {stored : List CorporateAction} {a : CorporateAction} :
    decideAction stored a = .pending ↔ storedAction stored a.effectiveDate = none := by
  unfold decideAction
  cases storedAction stored a.effectiveDate with
  | none => simp
  | some row =>
    dsimp only
    split
    · simp
    · split <;> simp

section Write

variable {bars : List Bar} {stored detected : List CorporateAction}
  (hbars : (bars.map Bar.tradeDate).Nodup)
  (hstored : (stored.map CorporateAction.effectiveDate).Nodup)
  (hevidenced : ∀ row ∈ stored, Evidenced bars row)
  (hdetected : ∀ a ∈ detected, Evidenced bars a)
  (hnodup : (detected.map CorporateAction.effectiveDate).Nodup)

include hbars hevidenced hdetected

theorem evidence_of_same_prev {a row : CorporateAction} (ha : a ∈ detected)
    (hrow : storedAction stored a.effectiveDate = some row)
    (hprev : row.prevTradeDate = a.prevTradeDate) : row.evidence = a.evidence := by
  obtain ⟨hmem, hday⟩ := storedAction_mem hrow
  exact (hevidenced row hmem).evidence_eq hbars (hdetected a ha) hday hprev

theorem not_disagreeing {a : CorporateAction} (ha : a ∈ detected) :
    decideAction stored a ≠ .disagreeing := by
  unfold decideAction
  cases hrow : storedAction stored a.effectiveDate with
  | none => simp
  | some row =>
    dsimp only
    split
    · simp
    · rename_i hprev
      have heq := evidence_of_same_prev hbars hevidenced hdetected ha hrow (not_not.mp hprev)
      rw [(evidence_dates heq).2.2, closeEnough_self, if_pos rfl]
      simp

theorem kept_iff {a : CorporateAction} (ha : a ∈ detected) :
    decideAction stored a = .kept ↔
      ∃ row, storedAction stored a.effectiveDate = some row ∧ row.evidence = a.evidence := by
  unfold decideAction
  cases hrow : storedAction stored a.effectiveDate with
  | none => simp
  | some row =>
    simp only [Option.some.injEq, exists_eq_left']
    by_cases hprev : row.prevTradeDate = a.prevTradeDate
    · have heq := evidence_of_same_prev hbars hevidenced hdetected ha hrow hprev
      rw [if_neg (not_not.mpr hprev), (evidence_dates heq).2.2, closeEnough_self, if_pos rfl]
      simp [heq]
    · rw [if_pos hprev]
      simp only [reduceCtorEq, false_iff]
      exact fun heq ↦ hprev (evidence_dates heq).2.1

end Write

structure IsPlan (stored detected : List CorporateAction) (plan : ActionPlan) : Prop where
  retired : ∀ day, day ∈ plan.retired ↔ day ∈ stored.map CorporateAction.effectiveDate ∧
    day ∉ detected.map CorporateAction.effectiveDate
  superseded : plan.superseded = detected.filter (fun a ↦ decideAction stored a = .superseded)
  refactored : plan.refactored = detected.filter (refactors stored)
  pending : plan.pending = detected.filter (fun a ↦ decideAction stored a = .pending) ++
    detected.filter (fun a ↦ decideAction stored a = .superseded)

theorem planActions_isPlan {insCode : String} {stored detected : List CorporateAction}
    {plan : ActionPlan} (h : planActions insCode stored detected = .ok plan) :
    IsPlan stored detected plan := by
  unfold planActions at h
  dsimp only at h
  split at h
  · cases h
  · obtain rfl := Except.ok.inj h
    refine ⟨fun day ↦ ?_, rfl, rfl, rfl⟩
    rw [(perm_insertionSort _ _).mem_iff, mem_filter, decide_eq_true_eq]

theorem IsPlan.statements_eq_nil {stored detected : List CorporateAction} {plan : ActionPlan}
    (h : IsPlan stored detected plan) (hdescribes : Describes stored detected) :
    plan.statements = [] := by
  have hfind {a : CorporateAction} (ha : a ∈ detected) :
      ∃ row, storedAction stored a.effectiveDate = some row ∧ row.agrees a := by
    obtain ⟨row, hrow, hagrees⟩ := hdescribes.stored a ha
    refine ⟨row, ?_, hagrees⟩
    exact (storedAction_eq_some hdescribes.nodup).mpr ⟨hrow, (evidence_dates hagrees.1).1⟩
  have hkept {a : CorporateAction} (ha : a ∈ detected) : decideAction stored a = .kept := by
    obtain ⟨row, hrow, hagrees⟩ := hfind ha
    obtain ⟨_, hprev, hratio⟩ := evidence_dates hagrees.1
    simp [decideAction, hrow, hprev, hratio, closeEnough_self]
  have hnone {decision : Decision} (hd : decision ≠ .kept) :
      detected.filter (fun a ↦ decideAction stored a = decision) = [] := by
    rw [filter_eq_nil_iff]
    intro a ha
    rw [hkept ha, decide_eq_true_eq]
    exact hd.symm
  have hretired : plan.retired = [] := by
    apply eq_nil_iff_forall_not_mem.mpr
    intro day hday
    obtain ⟨hstored, hgone⟩ := (h.retired day).mp hday
    obtain ⟨row, hrow, rfl⟩ := mem_map.mp hstored
    obtain ⟨a, ha, hagrees⟩ := hdescribes.detected row hrow
    rw [(evidence_dates hagrees.1).1] at hgone
    exact hgone (mem_map_of_mem ha)
  have hrefactored : detected.filter (refactors stored) = [] := by
    rw [filter_eq_nil_iff]
    intro a ha
    obtain ⟨row, hrow, hagrees⟩ := hfind ha
    simp [refactors, hrow, hagrees.2]
  rw [ActionPlan.statements, ActionPlan.deletes, hretired, h.superseded, h.refactored, h.pending,
    hnone (by simp), hnone (by simp), hrefactored]
  rfl

theorem planActions_ok {bars : List Bar} {stored detected : List CorporateAction}
    (hbars : (bars.map Bar.tradeDate).Nodup) (hevidenced : ∀ row ∈ stored, Evidenced bars row)
    (hdetected : ∀ a ∈ detected, Evidenced bars a) (insCode : String) :
    ∃ plan, planActions insCode stored detected = .ok plan := by
  have hnone : detected.filter (fun a ↦ decideAction stored a = .disagreeing) = [] := by
    rw [filter_eq_nil_iff]
    intro a ha
    rw [decide_eq_true_eq]
    exact not_disagreeing hbars hevidenced hdetected ha
  unfold planActions
  simp only [hnone, ne_eq, not_true_eq_false, if_false]
  exact ⟨_, rfl⟩

section Apply

variable {bars : List Bar} {stored detected : List CorporateAction} {plan : ActionPlan}
  (hbars : (bars.map Bar.tradeDate).Nodup)
  (hstored : (stored.map CorporateAction.effectiveDate).Nodup)
  (hevidenced : ∀ row ∈ stored, Evidenced bars row)
  (hdetected : ∀ a ∈ detected, Evidenced bars a)
  (hnodup : (detected.map CorporateAction.effectiveDate).Nodup)
  (hplan : IsPlan stored detected plan)

include hplan

theorem mem_superseded {a : CorporateAction} :
    a ∈ plan.superseded ↔ a ∈ detected ∧ decideAction stored a = .superseded := by
  rw [hplan.superseded, mem_filter, decide_eq_true_eq]

include hnodup in
theorem survivor_of_kept {a row : CorporateAction} (ha : a ∈ detected)
    (hkept : decideAction stored a = .kept)
    (hfind : storedAction stored a.effectiveDate = some row) :
    row ∈ applyStatements plan.deletes stored := by
  obtain ⟨hmem, hday⟩ := storedAction_mem hfind
  refine mem_applyDeletes.mpr ⟨hmem, fun hdeleted ↦ ?_⟩
  rw [hday] at hdeleted
  cases mem_append.mp hdeleted with
  | inl hretired => exact ((hplan.retired _).mp hretired).2 (mem_map_of_mem ha)
  | inr hsuperseded =>
    obtain ⟨b, hb, hdate⟩ := mem_map.mp hsuperseded
    obtain ⟨hb, hd⟩ := (mem_superseded hplan).mp hb
    obtain rfl := inj_on_of_nodup_map hnodup hb ha hdate
    rw [hkept] at hd
    cases hd

include hstored hbars hevidenced hdetected

theorem kept_of_survivor {row : CorporateAction}
    (hrow : row ∈ applyStatements plan.deletes stored) :
    ∃ a ∈ detected, decideAction stored a = .kept ∧
      storedAction stored a.effectiveDate = some row ∧ row.evidence = a.evidence := by
  obtain ⟨hmem, hday⟩ := mem_applyDeletes.mp hrow
  rw [mem_append, not_or] at hday
  obtain ⟨a, ha, hdate⟩ : ∃ a ∈ detected, a.effectiveDate = row.effectiveDate := by
    by_contra hgone
    refine hday.1 ((hplan.retired _).mpr ⟨mem_map_of_mem hmem, fun hagain ↦ hgone ?_⟩)
    exact mem_map.mp hagain
  have hfind := (storedAction_eq_some hstored).mpr ⟨hmem, hdate.symm⟩
  have hkept : decideAction stored a = .kept := by
    cases hd : decideAction stored a with
    | kept => rfl
    | disagreeing => exact absurd hd (not_disagreeing hbars hevidenced hdetected ha)
    | pending =>
      rw [pending_iff, hfind] at hd
      cases hd
    | superseded =>
      refine absurd ?_ hday.2
      rw [← hdate]
      exact mem_map_of_mem ((mem_superseded hplan).mpr ⟨ha, hd⟩)
  obtain ⟨row', hfind', hevidence⟩ := (kept_iff hbars hevidenced hdetected ha).mp hkept
  rw [hfind, Option.some.injEq] at hfind'
  exact ⟨a, ha, hkept, hfind, hfind' ▸ hevidence⟩

include hnodup

theorem agrees_of_refactored {row row' : CorporateAction}
    (hrow : row ∈ applyStatements plan.deletes stored)
    (hupdate : Refactored plan.refactored row row') : ∃ a ∈ detected, row'.agrees a := by
  obtain ⟨a, ha, hkept, hfind, hevidence⟩ :=
    kept_of_survivor hbars hstored hevidenced hdetected hplan hrow
  have hdate := (evidence_dates hevidence).1
  refine ⟨a, ha, hupdate.evidence.trans hevidence, ?_⟩
  cases hupdate.factor with
  | inl hset =>
    obtain ⟨b, hb, hday, hfactor⟩ := hset
    rw [hplan.refactored] at hb
    obtain rfl := inj_on_of_nodup_map hnodup (mem_of_mem_filter hb) ha
      (hday.trans hdate)
    rw [hfactor]
    exact closeEnough_self _
  | inr hleft =>
    obtain ⟨hleft, rfl⟩ := hleft
    by_contra hfar
    refine hleft a ?_ hdate.symm
    rw [hplan.refactored]
    refine mem_filter.mpr ⟨ha, ?_⟩
    simpa [refactors, hkept, hfind] using hfar

theorem pending_nodup (refactored : List CorporateAction)
    (hupdates : List.Forall₂ (Refactored plan.refactored)
      (applyStatements plan.deletes stored) refactored) :
    ((refactored ++ plan.pending).map CorporateAction.effectiveDate).Nodup := by
  have hdates : refactored.map CorporateAction.effectiveDate =
      (applyStatements plan.deletes stored).map CorporateAction.effectiveDate :=
    map_eq_of_forall₂ hupdates (fun row row' hrow ↦ (evidence_dates hrow.evidence).1)
  have hinj {a b : CorporateAction} (ha : a ∈ detected) (hb : b ∈ detected)
      (hdate : a.effectiveDate = b.effectiveDate) : a = b :=
    inj_on_of_nodup_map hnodup ha hb hdate
  rw [map_append, hdates, nodup_append, hplan.pending]
  refine ⟨hstored.sublist ((applyDeletes_sublist _ _).map _), ?_, fun day hday day' hday' heq ↦ ?_⟩
  · rw [map_append, nodup_append]
    refine ⟨hnodup.sublist (filter_sublist.map _), hnodup.sublist (filter_sublist.map _),
      fun day hday day' hday' heq ↦ ?_⟩
    obtain ⟨a, ha, rfl⟩ := mem_map.mp hday
    obtain ⟨b, hb, rfl⟩ := mem_map.mp hday'
    obtain ⟨ha, hpending⟩ := mem_filter.mp ha
    obtain ⟨hb, hsuperseded⟩ := mem_filter.mp hb
    rw [hinj ha hb heq, decide_eq_true_eq] at hpending
    rw [hpending] at hsuperseded
    cases of_decide_eq_true hsuperseded
  · obtain ⟨row, hrow, rfl⟩ := mem_map.mp hday
    obtain ⟨b, hb, rfl⟩ := mem_map.mp hday'
    obtain ⟨a, ha, hkept, hfind, hevidence⟩ :=
      kept_of_survivor hbars hstored hevidenced hdetected hplan hrow
    have hdate := (evidence_dates hevidence).1
    rw [mem_append, mem_filter, mem_filter] at hb
    obtain ⟨hb, hd⟩ : b ∈ detected ∧ decideAction stored b ≠ .kept := by
      cases hb with
      | inl hb => exact ⟨hb.1, by rw [of_decide_eq_true hb.2]; simp⟩
      | inr hb => exact ⟨hb.1, by rw [of_decide_eq_true hb.2]; simp⟩
    exact hd (hinj ha hb (hdate.symm.trans heq) ▸ hkept)

theorem applyStatements_describes :
    Describes (applyStatements plan.statements stored) detected := by
  have hupdates := applyUpdates_forall₂ plan.refactored (applyStatements plan.deletes stored)
  have hnodup' := pending_nodup hbars hstored hevidenced hdetected hnodup hplan _ hupdates
  rw [ActionPlan.statements, applyStatements_append, applyStatements_append,
    applyInserts_of_nodup hnodup']
  refine ⟨hnodup', fun a ha ↦ ?_, fun row' hrow' ↦ ?_⟩
  · cases hd : decideAction stored a with
    | kept =>
      obtain ⟨row, hfind, _⟩ := (kept_iff hbars hevidenced hdetected ha).mp hd
      have hrow := survivor_of_kept hnodup hplan ha hd hfind
      obtain ⟨row', hrow', hupdate⟩ := exists_of_mem_left hupdates hrow
      obtain ⟨b, hb, hagrees⟩ :=
        agrees_of_refactored hbars hstored hevidenced hdetected hnodup hplan hrow hupdate
      have hsame : b.effectiveDate = a.effectiveDate := by
        rw [← (evidence_dates hagrees.1).1, (evidence_dates hupdate.evidence).1]
        exact (storedAction_mem hfind).2
      obtain rfl := inj_on_of_nodup_map hnodup hb ha hsame
      exact ⟨row', mem_append_left _ hrow', hagrees⟩
    | disagreeing => exact absurd hd (not_disagreeing hbars hevidenced hdetected ha)
    | pending =>
      refine ⟨a, mem_append_right _ ?_, a.agrees_self⟩
      rw [hplan.pending]
      exact mem_append_left _ (mem_filter.mpr ⟨ha, decide_eq_true hd⟩)
    | superseded =>
      refine ⟨a, mem_append_right _ ?_, a.agrees_self⟩
      rw [hplan.pending]
      exact mem_append_right _ (mem_filter.mpr ⟨ha, decide_eq_true hd⟩)
  · cases mem_append.mp hrow' with
    | inl hkept =>
      obtain ⟨row, hrow, hupdate⟩ := exists_of_mem_right hupdates hkept
      exact agrees_of_refactored hbars hstored hevidenced hdetected hnodup hplan hrow hupdate
    | inr hnew =>
      rw [hplan.pending] at hnew
      cases mem_append.mp hnew with
      | inl hnew => exact ⟨row', mem_of_mem_filter hnew, row'.agrees_self⟩
      | inr hnew => exact ⟨row', mem_of_mem_filter hnew, row'.agrees_self⟩

end Apply

end TalaPala.Equities
