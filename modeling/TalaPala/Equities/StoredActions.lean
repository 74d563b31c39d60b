import TalaPala.Equities.ActionPlans

namespace TalaPala.Equities

open Library

def Described (bars : List Bar) (alternatives : List AlternativeRow)
    (actions : List CorporateAction) : Prop :=
  ∃ found, detectActions (storedAlternatives alternatives) (byTradeDate bars) = .ok found ∧
    Describes actions (chainFactors found.1)

theorem Described.evidenced {bars : List Bar} {alternatives : List AlternativeRow}
    {actions : List CorporateAction} (h : Described bars alternatives actions) :
    ∀ row ∈ actions, Evidenced bars row := by
  obtain ⟨found, hfound, hdescribes⟩ := h
  intro row hrow
  obtain ⟨a, ha, hagrees⟩ := hdescribes.detected row hrow
  exact ((chained_evidenced hfound ha).of_evidence hagrees.1).mono
    (byTradeDate_perm bars).subset

theorem Described.nodup {bars : List Bar} {alternatives : List AlternativeRow}
    {actions : List CorporateAction} (h : Described bars alternatives actions) :
    (actions.map CorporateAction.effectiveDate).Nodup := by
  obtain ⟨_, _, hdescribes⟩ := h
  exact hdescribes.nodup

theorem describes_of_series {bars : List Bar} {alternatives : List AlternativeRow}
    {stored : List CorporateAction} {series : AdjustedSeries} {plan : ActionPlan}
    (hbars : (bars.map Bar.tradeDate).Nodup)
    (hstored : (stored.map CorporateAction.effectiveDate).Nodup)
    (hevidenced : ∀ row ∈ stored, Evidenced bars row)
    (hseries : adjust bars {} (storedAlternatives alternatives) = .ok series)
    (hplan : IsPlan stored series.actions plan) :
    Described bars alternatives (applyStatements plan.statements stored) := by
  obtain ⟨found, hfound, _, hactions, _⟩ := adjust_ok hseries
  refine ⟨found, hfound, ?_⟩
  rw [← hactions]
  refine applyStatements_describes hbars hstored hevidenced (fun a ha ↦ ?_) ?_ hplan
  · rw [hactions] at ha
    exact (chained_evidenced hfound ha).mono (byTradeDate_perm bars).subset
  · rw [hactions]
    exact chained_nodup (byTradeDate_ascending hbars) hfound

theorem planActions_of_series {bars : List Bar} {alternatives : List AlternativeRow}
    {stored : List CorporateAction} {series : AdjustedSeries}
    (hbars : (bars.map Bar.tradeDate).Nodup) (hevidenced : ∀ row ∈ stored, Evidenced bars row)
    (hseries : adjust bars {} (storedAlternatives alternatives) = .ok series) (insCode : String) :
    ∃ plan, planActions insCode stored series.actions = .ok plan := by
  obtain ⟨found, hfound, _, hactions, _⟩ := adjust_ok hseries
  refine planActions_ok hbars hevidenced (fun a ha ↦ ?_) insCode
  rw [hactions] at ha
  exact (chained_evidenced hfound ha).mono (byTradeDate_perm bars).subset

structure Holding.Sound (holding : Holding) : Prop where
  bars : (holding.bars.map Bar.tradeDate).Nodup
  described : Described holding.bars holding.alternatives holding.actions

theorem writeBars_ok {insCode : String} {holding written : Holding} {bars : List Bar}
    {report : BarsReport} (h : writeBars insCode holding bars = .ok (written, report)) :
    refusedBars insCode holding.bars bars = none ∧
      insertIgnore Bar.sameDay Bar.checked holding.bars (pendingBars holding.bars bars) =
        some written.bars ∧
      insertIgnore (fun row row' ↦ decide (row = row')) AlternativeRow.checked
        holding.alternatives ((restatedBars holding.bars bars).map alternativeOf) =
        some written.alternatives ∧
      written.actions = holding.actions := by
  unfold writeBars at h
  split at h
  · cases h
  · rename_i haccepted
    dsimp only at h
    split at h
    · rename_i stored alternatives hstored halternatives
      obtain ⟨rfl, _⟩ := Prod.mk.inj (Except.ok.inj h)
      exact ⟨haccepted, hstored, halternatives, rfl⟩
    · cases h

theorem writeActions_ok {insCode : String} {stored table : List CorporateAction}
    {series : AdjustedSeries} {report : ActionsReport}
    (h : writeActions insCode stored series = .ok (table, report)) :
    ∃ plan, planActions insCode stored series.actions = .ok plan ∧
      plan.statements.all ActionStatement.checked = true ∧
      table = applyStatements plan.statements stored := by
  unfold writeActions at h
  split at h
  · cases h
  · rename_i plan hplan
    split at h
    · rename_i hchecked
      obtain ⟨rfl, _⟩ := Prod.mk.inj (Except.ok.inj h)
      exact ⟨plan, hplan, hchecked, rfl⟩
    · cases h

theorem ingestHolding_ok {insCode : String} {holding after : Holding} {bars : List Bar}
    {report : IngestReport} (h : ingestHolding insCode holding bars = .ok (after, report)) :
    ∃ written barsReport series plan, writeBars insCode holding bars = .ok (written, barsReport) ∧
      adjust written.bars {} (storedAlternatives written.alternatives) = .ok series ∧
      planActions insCode written.actions series.actions = .ok plan ∧
      plan.statements.all ActionStatement.checked = true ∧
      after.bars = written.bars ∧ after.alternatives = written.alternatives ∧
      after.actions = applyStatements plan.statements written.actions ∧
      after.verdict = some series := by
  unfold ingestHolding at h
  split at h
  · cases h
  · rename_i written barsReport hwritten
    split at h
    · cases h
    · rename_i series hseries
      split at h
      · cases h
      · rename_i table actionsReport htable
        obtain ⟨rfl, _⟩ := Prod.mk.inj (Except.ok.inj h)
        obtain ⟨plan, hplan, hchecked, rfl⟩ := writeActions_ok htable
        exact ⟨written, barsReport, series, plan, hwritten, hseries, hplan, hchecked, rfl, rfl,
          rfl, rfl⟩

theorem writeActions_error {insCode : String} {stored : List CorporateAction}
    {series : AdjustedSeries} {plan : ActionPlan} {e : IngestError}
    (hplan : planActions insCode stored series.actions = .ok plan)
    (h : writeActions insCode stored series = .error e) : e = .checkViolation := by
  unfold writeActions at h
  rw [hplan] at h
  dsimp only at h
  split at h
  · cases h
  · exact (Except.error.inj h).symm

theorem joinRefusal_error {insCode : String} {stored bars : List Bar} {join : Date × Date}
    {e : IngestError} (h : joinRefusal insCode stored bars join = some e) (code : String)
    (disagreeing : List (Date × ℚ × ℚ)) : e ≠ .storeDisagrees code disagreeing := by
  unfold joinRefusal at h
  split at h
  · dsimp only at h
    split at h
    · rw [← Option.some.inj h]
      simp
    · cases h
  · cases h

theorem refusedBars_error {insCode : String} {stored bars : List Bar} {e : IngestError}
    (h : refusedBars insCode stored bars = some e) (code : String)
    (disagreeing : List (Date × ℚ × ℚ)) : e ≠ .storeDisagrees code disagreeing := by
  unfold refusedBars at h
  dsimp only at h
  split at h
  · rw [← Option.some.inj h]
    simp
  · obtain ⟨join, _, hjoin⟩ := List.exists_of_findSome?_eq_some h
    exact joinRefusal_error hjoin code disagreeing

section Call

variable {insCode : String} {holding written : Holding} {bars : List Bar}

theorem Holding.Sound.barsWritten (h : holding.Sound) {report : BarsReport}
    (hwritten : writeBars insCode holding bars = .ok (written, report)) :
    (written.bars.map Bar.tradeDate).Nodup ∧
      (written.actions.map CorporateAction.effectiveDate).Nodup ∧
      ∀ row ∈ written.actions, Evidenced written.bars row := by
  obtain ⟨_, hbars, _, hactions⟩ := writeBars_ok hwritten
  rw [hactions]
  refine ⟨insertIgnore_nodup Bar.sameDay_iff hbars h.bars, h.described.nodup, fun row hrow ↦ ?_⟩
  exact (h.described.evidenced row hrow).mono (insertIgnore_keeps hbars).subset

theorem ingestHolding_sound (h : holding.Sound) {after : Holding} {report : IngestReport}
    (hcall : ingestHolding insCode holding bars = .ok (after, report)) :
    after.Sound ∧ holding.bars <+: after.bars ∧ holding.alternatives <+: after.alternatives := by
  obtain ⟨written, _, series, plan, hwritten, hseries, hplan, _, hbars, halternatives, hactions,
    _⟩ := ingestHolding_ok hcall
  obtain ⟨_, hkept, hrecorded, _⟩ := writeBars_ok hwritten
  obtain ⟨hdates, hnodup, hevidenced⟩ := h.barsWritten hwritten
  rw [hbars, halternatives]
  refine ⟨⟨hbars ▸ hdates, ?_⟩, insertIgnore_keeps hkept, insertIgnore_keeps hrecorded⟩
  rw [hbars, halternatives, hactions]
  exact describes_of_series hdates hnodup hevidenced hseries (planActions_isPlan hplan)

theorem writeBars_error {e : IngestError} (h : writeBars insCode holding bars = .error e)
    (code : String) (disagreeing : List (Date × ℚ × ℚ)) : e ≠ .storeDisagrees code disagreeing := by
  unfold writeBars at h
  split at h
  · rename_i hrefused
    obtain rfl := Except.error.inj h
    exact refusedBars_error hrefused code disagreeing
  · dsimp only at h
    split at h
    · cases h
    · rw [← Except.error.inj h]
      simp

theorem ingestHolding_error (h : holding.Sound) (code : String)
    (disagreeing : List (Date × ℚ × ℚ)) :
    ingestHolding insCode holding bars ≠ .error (.storeDisagrees code disagreeing) := by
  intro hcall
  unfold ingestHolding at hcall
  split at hcall
  · rename_i e he
    exact writeBars_error he code disagreeing (Except.error.inj hcall)
  · rename_i written barsReport hwritten
    obtain ⟨hdates, _, hevidenced⟩ := h.barsWritten hwritten
    split at hcall
    · cases hcall
    · rename_i series hseries
      split at hcall
      · rename_i e he
        obtain rfl := Except.error.inj hcall
        obtain ⟨plan, hplan⟩ := planActions_of_series hdates hevidenced hseries insCode
        cases writeActions_error hplan he
      · cases hcall

end Call

def Store.start (roster : String → Option (String × Bool)) : Store := fun code ↦
  (roster code).map (fun instrument ↦
    { symbolFa := instrument.1
      enabled := instrument.2
      bars := []
      alternatives := []
      actions := []
      verdict := none
      firstBar := none
      lastBar := none
      barCount := 0 })

def Store.Sound (store : Store) : Prop :=
  ∀ code holding, store code = some holding → holding.Sound

theorem sound_start (roster : String → Option (String × Bool)) : (Store.start roster).Sound := by
  intro code holding h
  obtain ⟨instrument, _, rfl⟩ := Option.map_eq_some_iff.mp h
  exact ⟨List.nodup_nil, ([], []), rfl, ⟨List.nodup_nil, by simp [chainFactors], by simp⟩⟩

theorem ingest_cases (store : Store) (call : IngestCall) : store.ingest call = store ∨
    ∃ parsed series holding after report,
      parseDailyList call.payload call.insCode = .ok parsed ∧ adjust parsed {} [] = .ok series ∧
      store series.insCode = some holding ∧
      ingestHolding series.insCode holding series.bars = .ok (after, report) ∧
      store.ingest call = Function.update store series.insCode (some after) := by
  unfold Store.ingest
  cases hcall : ingestPayload store call with
  | error e => exact .inl rfl
  | ok result =>
    right
    obtain ⟨tables, report⟩ := result
    unfold ingestPayload at hcall
    split at hcall
    · cases hcall
    · rename_i parsed hparsed
      split at hcall
      · cases hcall
      · rename_i series hseries
        split at hcall
        · cases hcall
        · rename_i holding hholding
          split at hcall
          · cases hcall
          · rename_i after ingested hingest
            obtain ⟨rfl, _⟩ := Prod.mk.inj (Except.ok.inj hcall)
            exact ⟨parsed, series, holding, after, ingested, hparsed, hseries, hholding, hingest,
              rfl⟩

theorem Store.Sound.ingest {store : Store} (h : store.Sound) (call : IngestCall) :
    (store.ingest call).Sound := by
  cases ingest_cases store call with
  | inl hsame => rw [hsame]; exact h
  | inr hwritten =>
    obtain ⟨_, series, holding, after, report, _, _, hholding, hingest, htables⟩ := hwritten
    intro code holding' hholding'
    rw [htables] at hholding'
    by_cases hcode : code = series.insCode
    · subst hcode
      rw [Function.update_self, Option.some.injEq] at hholding'
      exact hholding' ▸ (ingestHolding_sound (h _ _ hholding) hingest).1
    · rw [Function.update_of_ne hcode] at hholding'
      exact h _ _ hholding'

theorem sound_after (roster : String → Option (String × Bool)) (calls : List IngestCall) :
    ((Store.start roster).after calls).Sound := by
  induction calls using List.reverseRecOn with
  | nil => exact sound_start roster
  | append_singleton calls call ih =>
    rw [Store.after, List.foldl_append]
    exact ih.ingest call

theorem bars_kept {store : Store} (h : store.Sound) (call : IngestCall) {code : String}
    {holding : Holding} (hholding : store code = some holding) :
    ∃ after, store.ingest call code = some after ∧ holding.bars <+: after.bars := by
  cases ingest_cases store call with
  | inl hsame =>
    rw [hsame]
    exact ⟨holding, hholding, List.prefix_rfl⟩
  | inr hwritten =>
    obtain ⟨_, series, holding', after, report, _, _, hholding', hingest, htables⟩ := hwritten
    rw [htables]
    by_cases hcode : code = series.insCode
    · subst hcode
      rw [hholding, Option.some.injEq] at hholding'
      subst hholding'
      rw [Function.update_self]
      exact ⟨after, rfl, (ingestHolding_sound (h _ _ hholding) hingest).2.1⟩
    · rw [Function.update_of_ne hcode]
      exact ⟨holding, hholding, List.prefix_rfl⟩

theorem not_storeDisagrees {store : Store} (h : store.Sound) (call : IngestCall) (code : String)
    (disagreeing : List (Date × ℚ × ℚ)) :
    ingestPayload store call ≠ .error (.storeDisagrees code disagreeing) := by
  intro hcall
  unfold ingestPayload at hcall
  split at hcall
  · cases hcall
  · split at hcall
    · cases hcall
    · split at hcall
      · cases hcall
      · rename_i holding hholding
        split at hcall
        · rename_i e he
          obtain rfl := Except.error.inj hcall
          exact ingestHolding_error (h _ _ hholding) _ _ he
        · cases hcall

/-- Whatever was ingested, the stored actions describe the stored bars, each
factor up to the tolerance that the writer leaves alone. -/
theorem stored_actions_describe_bars (roster : String → Option (String × Bool))
    (calls : List IngestCall) :
    let store := (Store.start roster).after calls
    (∀ code holding, store code = some holding →
      Described holding.bars holding.alternatives holding.actions) ∧
    (∀ call code holding, store code = some holding →
      ∃ after, store.ingest call code = some after ∧ holding.bars <+: after.bars) ∧
    (∀ call e, ingestPayload store call = .error e → store.ingest call = store) ∧
    ∀ call code disagreeing,
      ingestPayload store call ≠ .error (.storeDisagrees code disagreeing) := by
  intro store
  have hsound : store.Sound := sound_after roster calls
  refine ⟨fun code holding h ↦ (hsound code holding h).described,
    fun call code holding h ↦ bars_kept hsound call h, fun call e h ↦ ?_, not_storeDisagrees hsound⟩
  rw [Store.ingest, h]

def share (tradeDate : Date) (priceYesterday finalClose : ℚ) : Bar where
  insCode := "46348559193224090"
  tradeDate := tradeDate
  opening := finalClose
  high := finalClose
  low := finalClose
  close := finalClose
  finalClose := finalClose
  priceYesterday := priceYesterday
  volume := 1
  tradeCount := 1
  value := 1

def oneShare (code : String) : Option (String × Bool) :=
  if code = "46348559193224090" then some ("", true) else none

def halved : List Bar := [share 1 0 100, share 2 50 50]

def nudged : List Bar := halved ++ [share 3 (50 + 5 / 1000000000000) 50]

theorem chained_factor_not_stored :
    ¬ ∀ (roster : String → Option (String × Bool)) (calls : List IngestCall) (code : String)
      (holding : Holding) (found : List CorporateAction × List ContestedBreak),
      (Store.start roster).after calls code = some holding →
        detectActions (storedAlternatives holding.alternatives) (byTradeDate holding.bars) =
          .ok found → ∀ a ∈ chainFactors found.1, a ∈ holding.actions := by
  intro hall
  have hkept : ((Store.start oneShare).after [⟨halved, ""⟩, ⟨nudged, ""⟩]
      "46348559193224090").any (fun holding ↦
        (detectActions (storedAlternatives holding.alternatives)
          (byTradeDate holding.bars)).toOption.any (fun found ↦
            !(chainFactors found.1).all (fun a ↦ a ∈ holding.actions))) = true := by
    decide +kernel
  obtain ⟨holding, hholding, hkept⟩ := Option.any_eq_true _ _ |>.mp hkept
  obtain ⟨found, hfound, hkept⟩ := Option.any_eq_true _ _ |>.mp hkept
  have hstored := hall _ _ _ holding found hholding (by
    cases hdetect : detectActions (storedAlternatives holding.alternatives)
        (byTradeDate holding.bars) with
    | error e => rw [hdetect] at hfound; cases hfound
    | ok found' => rw [hdetect] at hfound; exact congrArg _ (Option.some.inj hfound))
  rw [Bool.not_eq_true', List.all_eq_false] at hkept
  obtain ⟨a, ha, hmissing⟩ := hkept
  exact hmissing (decide_eq_true (hstored a ha))

end TalaPala.Equities
