import TalaPala.Economic.VintageOrder
import Mathlib.Data.List.Chain

namespace TalaPala.Economic

open Library Library.Transition List

def Observation.restates (row other : Observation) : Bool :=
  valuesEqual other.value row.value && decide (other.method = row.method)

def freshComparison (s : Store) : Action → Bool
  | .selectBounds w =>
    match s.phase w with
    | .compared request current =>
      current.any (fun row ↦ row.states request) ||
        !(currentRow (s.visibleAt w request.call.period)).any (fun row ↦ row.states request)
    | _ => true
  | _ => true

instance : Std.Total servedBefore where
  total a b := by
    unfold servedBefore Instant
    omega

instance : IsTrans Observation servedBefore where
  trans a b c := by
    unfold servedBefore Instant
    omega

theorem Ordered.currentRow {rows : List Observation} (h : Ordered rows) :
    currentRow rows = rows.getLast? := by
  rcases rows.eq_nil_or_concat with rfl | ⟨init, last, rfl⟩
  · rfl
  rw [concat_eq_append] at h ⊢
  rw [getLast?_concat]
  have hinit (r : Observation) (hr : r ∈ init) :
      r.availableAt ≤ last.availableAt ∧ r.vintage < last.vintage := by
    refine ⟨(pairwise_append.mp h.available).2.2 r hr last mem_cons_self, ?_⟩
    have hp : init <+: init ++ [last] := prefix_append _ _
    have := (((h.of_initial hp).mem_vintages r.vintage).mp ⟨r, hr, rfl⟩).2
    have := h.vintage_cons
    omega
  have hlast (r : Observation) (hr : r ∈ init ++ [last]) : r ∈ init ∨ r = last := by
    simpa using hr
  refine firstBy_eq_some (by simp) (fun r hr ↦ ?_) (fun r hr _ hback ↦ ?_)
  · rcases hlast r hr with hr | rfl
    · have := hinit r hr
      unfold servedBefore Instant at *
      omega
    · exact (Std.Total.total r r).elim id id
  · rcases hlast r hr with hr | rfl
    · have := hinit r hr
      unfold servedBefore Instant at *
      omega
    · rfl

abbrev Distinct (rows : List Observation) : Prop :=
  rows.IsChain (fun a b ↦ b.restates a = false)

theorem Distinct.of_initial {rows rows' : List Observation} (h : Distinct rows)
    (hp : rows' <+: rows) : Distinct rows' := by
  obtain ⟨rest, rfl⟩ := hp
  exact (isChain_append.mp h).1

theorem Distinct.append {rows : List Observation} {row : Observation} (h : Distinct rows)
    (hlast : ∀ last, rows.getLast? = some last → row.restates last = false) :
    Distinct (rows ++ [row]) := by
  refine isChain_append.mpr ⟨h, .singleton _, ?_⟩
  intro last hl first hf
  rw [head?_singleton, Option.mem_some_iff] at hf
  exact hf ▸ hlast last hl

theorem Inv.visibleAt_step {s t : Store} {a : Action} (h : Inv s) (hn : next s a = some t)
    (v : ℕ) (period : Period) :
    (∃ u, t.visibleAt v period <+: s.visibleAt u period) ∨
    (∃ request current bounds status row, s.phase v = .numbered request current bounds ∧
      plan request current bounds = .ok (.insert status row) ∧
      (∀ stored ∈ s.visible v, stored.sameKey row = false) ∧ row.period = period ∧
      t.visibleAt v period = s.visibleAt v period ++ [row]) := by
  rcases next_cases hn with ⟨w, _, _, _, rfl | ⟨_, _, rfl⟩⟩ | ⟨w, request, _, _, rfl⟩ |
    ⟨w, request, current, _, hp, rfl⟩ | ⟨w, _, rfl⟩ |
    ⟨w, request, current, bounds, status, row, _, hp, hplan, _, hfree, rfl⟩ |
    ⟨w, _, hidle, rfl⟩ | ⟨w, _, rfl⟩
  · exact .inl ⟨v, prefix_rfl⟩
  · exact .inl ⟨v, prefix_rfl⟩
  · exact .inl ⟨v, prefix_rfl⟩
  · exact .inl ⟨v, prefix_rfl⟩
  · exact .inl ⟨v, prefix_rfl⟩
  · by_cases hvw : v = w
    · subst hvw
      rw [visibleAt_hold_self]
      by_cases hperiod : row.period = period
      · refine .inr ⟨request, current, bounds, status, row, hp, hplan, hfree, hperiod, ?_⟩
        simp [periodRows, hperiod]
      · refine .inl ⟨v, ?_⟩
        simp [periodRows, hperiod]
    · exact .inl ⟨v, by rw [visibleAt_hold_other s hvw]⟩
  · by_cases hvw : v = w
    · subst hvw
      exact .inl ⟨v, by rw [visibleAt_publish_self]⟩
    · obtain ⟨u, hu⟩ := (h.visibleAt_publish hvw period).2
      exact .inl ⟨u, hu ▸ prefix_rfl⟩
  · by_cases hvw : v = w
    · subst hvw
      refine .inl ⟨v, ?_⟩
      rw [visibleAt_discard_self]
      exact s.committed_prefix_visibleAt v period
    · exact .inl ⟨v, by rw [visibleAt_discard_other s hvw]⟩

theorem Inv.numbered_step {s t : Store} {a : Action} (h : Inv s) (hn : next s a = some t)
    {v : ℕ} {request : Request} {current : Option Observation} {bounds : PeriodBounds}
    (hphase : t.phase v = .numbered request current bounds) :
    (a = .selectBounds v ∧ s.phase v = .compared request current ∧
      bounds = periodBounds (s.visibleAt v request.call.period) ∧
      t.visibleAt v request.call.period = s.visibleAt v request.call.period) ∨
    (s.phase v = .numbered request current bounds ∧
      s.visibleAt v request.call.period <+: t.visibleAt v request.call.period) := by
  have hset {w : ℕ} {phase : Phase} (hne : phase ≠ .numbered request current bounds)
      (hp : (s.setPhase w phase).phase v = .numbered request current bounds) :
      s.phase v = .numbered request current bounds := by
    by_cases hvw : v = w
    · subst hvw
      exact absurd ((setPhase_phase_self s v phase).symm.trans hp) hne
    · exact (setPhase_phase_other s hvw phase).symm.trans hp
  rcases next_cases hn with ⟨w, _, _, _, rfl | ⟨_, _, rfl⟩⟩ | ⟨w, request', _, _, rfl⟩ |
    ⟨w, request', current', rfl, hp, rfl⟩ | ⟨w, _, rfl⟩ |
    ⟨w, _, _, _, _, row, _, _, _, _, _, rfl⟩ | ⟨w, _, hidle, rfl⟩ | ⟨w, _, rfl⟩
  · exact .inr ⟨hphase, prefix_rfl⟩
  · exact .inr ⟨hset (by simp) hphase, prefix_rfl⟩
  · exact .inr ⟨hset (by simp) hphase, prefix_rfl⟩
  · by_cases hvw : v = w
    · subst hvw
      cases (setPhase_phase_self s v _).symm.trans hphase
      exact .inl ⟨rfl, hp, rfl, rfl⟩
    · exact .inr ⟨(setPhase_phase_other s hvw _).symm.trans hphase, prefix_rfl⟩
  · exact .inr ⟨hset (by simp) hphase, prefix_rfl⟩
  · have hvw : v ≠ w := by
      rintro rfl
      cases (hold_phase_self s v row).symm.trans hphase
    refine .inr ⟨(hold_phase_other s hvw row).symm.trans hphase, ?_⟩
    rw [visibleAt_hold_other s hvw]
  · have hvw : v ≠ w := by
      rintro rfl
      cases hidle.symm.trans hphase
    exact .inr ⟨hphase, (h.visibleAt_publish hvw request.call.period).1⟩
  · have hvw : v ≠ w := by
      rintro rfl
      cases (discard_phase_self s v).symm.trans hphase
    refine .inr ⟨(discard_phase_other s hvw).symm.trans hphase, ?_⟩
    rw [visibleAt_discard_other s hvw]

structure Real (s : Store) : Prop where
  inv : Inv s
  distinct : ∀ w period, Distinct (s.visibleAt w period)
  numbered : ∀ w request current bounds, s.phase w = .numbered request current bounds →
    current.any (fun row ↦ row.states request) = false →
    ∃ known, known <+: s.visibleAt w request.call.period ∧ bounds = periodBounds known ∧
      (currentRow known).any (fun row ↦ row.states request) = false

theorem Real.empty : Real Store.empty :=
  ⟨.empty, fun _ _ ↦ .nil, fun _ _ _ _ hp ↦ Phase.noConfusion hp⟩

theorem Ordered.eq_of_maxVintage {rows known : List Observation} (h : Ordered rows)
    (hk : known <+: rows) (hmax : (periodBounds known).maxVintage.getD 0 = rows.length) :
    known = rows := by
  rw [(h.of_initial hk).maxVintage] at hmax
  exact hk.eq_of_length hmax

theorem Real.next_row {s : Store} (h : Real s) {w : ℕ} {request : Request}
    {current : Option Observation} {bounds : PeriodBounds} {status : WriteStatus}
    {row last : Observation} (hphase : s.phase w = .numbered request current bounds)
    (hplan : plan request current bounds = .ok (.insert status row))
    (hfree : ∀ stored ∈ s.visible w, stored.sameKey row = false)
    (hlast : (s.visibleAt w row.period).getLast? = some last) : row.restates last = false := by
  obtain ⟨hperiod, hvintage, _⟩ := h.inv.next_row hphase hplan hfree
  rw [hperiod] at hvintage hlast
  obtain ⟨hstates, hrow, _⟩ := plan_insert hplan
  obtain ⟨known, hk, rfl, hknown⟩ := h.numbered w request current bounds hphase hstates
  have hordered := h.inv.ordered w request.call.period
  have hpos : 0 < (s.visibleAt w request.call.period).length :=
    length_pos_of_mem (mem_of_getLast? hlast)
  have hall : known = s.visibleAt w request.call.period := by
    apply hordered.eq_of_maxVintage hk
    rw [hrow, Request.row] at hvintage
    split at hvintage
    · simp only at hvintage; omega
    · simpa using hvintage
  rw [hall, hordered.currentRow, hlast, Option.any_some] at hknown
  rw [hrow]
  exact hknown

theorem Real.step {s t : Store} {a : Action} (h : Real s) (ha : freshComparison s a = true)
    (hn : next s a = some t) : Real t := by
  refine ⟨h.inv.step hn, ?_, ?_⟩
  · intro v period
    rcases h.inv.visibleAt_step hn v period with ⟨u, hu⟩ |
      ⟨request, current, bounds, status, row, hp, hplan, hfree, rfl, ht⟩
    · exact (h.distinct u period).of_initial hu
    · rw [ht]
      exact (h.distinct v row.period).append (fun last hl ↦ h.next_row hp hplan hfree hl)
  · intro v request current bounds hphase hstates
    rcases h.inv.numbered_step hn hphase with ⟨rfl, hp, rfl, hsame⟩ | ⟨hp, hgrowth⟩
    · refine ⟨s.visibleAt v request.call.period, hsame ▸ prefix_rfl, rfl, ?_⟩
      simpa [freshComparison, hp, hstates] using ha
    · obtain ⟨known, hk, hb, hc⟩ := h.numbered v request current bounds hp hstates
      exact ⟨known, hk.trans hgrowth, hb, hc⟩

theorem Real.of_run {s : Store} {actions : List Action}
    (h : Run next (fun s a ↦ freshComparison s a = true) Store.empty actions s) : Real s :=
  h.preserves (fun _ _ _ hr ha hn ↦ hr.step ha hn) .empty

/-- As long as no second statement finds a served row stating the call's value when the
row compared did not, consecutive vintages are real revisions. -/
theorem consecutive_vintages_differ {s : Store} {actions : List Action}
    (h : Run next (fun s a ↦ freshComparison s a = true) Store.empty actions s) (period : Period) :
    ∀ r ∈ periodRows period s.committed, ∀ r' ∈ periodRows period s.committed,
      r'.vintage = r.vintage + 1 → r.method ≠ r'.method ∨ valuesEqual r.value r'.value = false := by
  intro r hr r' hr' hnext
  have hreal := Real.of_run h
  have hordered := hreal.inv.committed_ordered period
  have hdistinct : Distinct (periodRows period s.committed) :=
    (hreal.distinct 0 period).of_initial (s.committed_prefix_visibleAt 0 period)
  obtain ⟨i, hi, rfl⟩ := getElem_of_mem hr
  obtain ⟨j, hj, rfl⟩ := getElem_of_mem hr'
  rw [hordered.vintage_getElem hi, hordered.vintage_getElem hj] at hnext
  obtain rfl : j = i + 1 := by omega
  have hne := isChain_iff_getElem.mp hdistinct i hj
  rw [Observation.restates, Bool.and_eq_false_iff, decide_eq_false_iff_not] at hne
  exact hne.symm

def interrupted : List Action :=
  pass 0 (statement 1 10) ++ [.call 0 (statement 2 20), .selectCurrent 0] ++
  pass 1 (statement 2 20) ++ [.selectBounds 0, .insert 0, .commit 0]

theorem revision_manufactured : ¬ ∀ s, Reachable next Store.empty s → ∀ period,
    ∀ r ∈ periodRows period s.committed, ∀ r' ∈ periodRows period s.committed,
      r'.vintage = r.vintage + 1 →
        r.method ≠ r'.method ∨ valuesEqual r.value r'.value = false := by
  intro hall
  have hv : (execute next (fun _ _ ↦ true) Store.empty interrupted).map
      (fun s : Store ↦ decide (∃ r ∈ periodRows (1, 0) s.committed,
        ∃ r' ∈ periodRows (1, 0) s.committed, r'.vintage = r.vintage + 1 ∧
          ¬ (r.method ≠ r'.method ∨ valuesEqual r.value r'.value = false))) = some true := by
    decide +kernel
  obtain ⟨s, hs, hv⟩ := Option.map_eq_some_iff.mp hv
  obtain ⟨r, hr, r', hr', hnext, hsame⟩ := of_decide_eq_true hv
  exact hsame (hall s (run_of_execute hs).reachable (1, 0) r hr r' hr' hnext)

theorem overlapping_revision_real : ∃ s,
    Run next (fun s a ↦ freshComparison s a = true) Store.empty overlapping s ∧
    s.committed.map Observation.vintage = [1, 2] ∧
    ∀ r ∈ periodRows (1, 0) s.committed, ∀ r' ∈ periodRows (1, 0) s.committed,
      r'.vintage = r.vintage + 1 →
        r.method ≠ r'.method ∨ valuesEqual r.value r'.value = false := by
  have hv : (execute next freshComparison Store.empty overlapping).map
      (fun s : Store ↦ s.committed.map Observation.vintage) = some [1, 2] := by decide +kernel
  obtain ⟨s, hs, hv⟩ := Option.map_eq_some_iff.mp hv
  exact ⟨s, run_of_execute hs, hv, consecutive_vintages_differ (run_of_execute hs) (1, 0)⟩

end TalaPala.Economic
