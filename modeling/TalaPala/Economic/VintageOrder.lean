import TalaPala.Economic.Writers

namespace TalaPala.Economic

open Library.Transition List

structure Ordered (rows : List Observation) : Prop where
  vintages : rows.map Observation.vintage = List.range' 1 rows.length
  available : rows.Pairwise (fun a b ↦ a.availableAt ≤ b.availableAt)

theorem Ordered.nil : Ordered [] := ⟨rfl, .nil⟩

theorem Ordered.of_initial {rows rows' : List Observation} (h : Ordered rows)
    (hp : rows' <+: rows) : Ordered rows' := by
  obtain ⟨rest, rfl⟩ := hp
  refine ⟨?_, (pairwise_append.mp h.available).1⟩
  have hv := h.vintages
  rw [map_append, length_append, ← range'_append_1] at hv
  exact (append_inj hv (by simp)).1

theorem Ordered.append {rows : List Observation} {row : Observation} (h : Ordered rows)
    (hv : row.vintage = rows.length + 1)
    (ha : ∀ r ∈ rows, r.availableAt ≤ row.availableAt) : Ordered (rows ++ [row]) := by
  constructor
  · rw [map_append, h.vintages, length_append, length_singleton, range'_concat]
    simp [hv, Nat.add_comm]
  · rw [pairwise_append]
    exact ⟨h.available, pairwise_singleton _ _, fun r hr r' hr' ↦
      mem_singleton.mp hr' ▸ ha r hr⟩

theorem Ordered.vintage_cons {rows rest : List Observation} {row : Observation}
    (h : Ordered (rows ++ row :: rest)) : row.vintage = rows.length + 1 := by
  have hp : rows ++ [row] <+: rows ++ row :: rest := ⟨rest, by simp⟩
  have hv := (h.of_initial hp).vintages
  rw [map_append, length_append, length_singleton, range'_concat] at hv
  have hlast := (append_inj hv (by simp)).2
  simpa [Nat.add_comm] using hlast

theorem Ordered.vintage_getElem {rows : List Observation} (h : Ordered rows) {n : ℕ}
    (hn : n < rows.length) : rows[n].vintage = n + 1 := by
  have hv : (rows.map Observation.vintage)[n]? = (List.range' 1 rows.length)[n]? := by
    rw [h.vintages]
  rw [getElem?_map, getElem?_eq_getElem hn, getElem?_range' hn] at hv
  simpa [Nat.add_comm] using hv

theorem Ordered.mem_vintages {rows : List Observation} (h : Ordered rows) (n : ℕ) :
    (∃ r ∈ rows, r.vintage = n) ↔ 1 ≤ n ∧ n ≤ rows.length := by
  rw [← mem_map, h.vintages, mem_range'_1]
  omega

theorem Ordered.maxVintage {rows : List Observation} (h : Ordered rows) :
    (periodBounds rows).maxVintage.getD 0 = rows.length := by
  simp only [periodBounds, h.vintages]
  cases hn : rows.length with
  | zero => rfl
  | succ n =>
    have hmax : (List.range' 1 (n + 1)).max? = some (n + 1) := by
      rw [max?_eq_some_iff]
      refine ⟨mem_range'_1.mpr (by omega), fun m hm ↦ ?_⟩
      have := mem_range'_1.mp hm
      omega
    rw [hmax, Option.getD_some]

theorem newestAvailableAt_le {rows : List Observation} {row : Observation} (h : row ∈ rows) :
    ∃ newest, (periodBounds rows).newestAvailableAt = some newest ∧ row.availableAt ≤ newest := by
  have hm : row.availableAt ∈ rows.map Observation.availableAt := mem_map_of_mem h
  cases hmax : (rows.map Observation.availableAt).max? with
  | none =>
    rw [max?_eq_none_iff] at hmax
    rw [hmax] at hm
    cases hm
  | some newest => exact ⟨newest, hmax, (max?_eq_some_iff.mp hmax).2 _ hm⟩

structure Inv (s : Store) : Prop where
  ordered : ∀ w period, Ordered (s.visibleAt w period)
  apart : ∀ p ∈ s.pending, ∀ q ∈ s.pending, p.1 ≠ q.1 → p.2.sameKey q.2 = false
  compared : ∀ w request current, s.phase w = .compared request current →
    ∃ seen, seen <+: s.visibleAt w request.call.period ∧ current = currentRow seen
  numbered : ∀ w request current bounds, s.phase w = .numbered request current bounds →
    ∃ seen known, seen <+: known ∧ known <+: s.visibleAt w request.call.period ∧
      current = currentRow seen ∧ bounds = periodBounds known

theorem Inv.empty : Inv Store.empty :=
  ⟨fun _ _ ↦ .nil, fun _ hp ↦ absurd hp not_mem_nil, fun _ _ _ hp ↦ Phase.noConfusion hp,
    fun _ _ _ _ hp ↦ Phase.noConfusion hp⟩

theorem Inv.exclusive {s : Store} (h : Inv s) {v w : ℕ} (hvw : v ≠ w) (period : Period) :
    periodRows period (s.own v) = [] ∨ periodRows period (s.own w) = [] := by
  by_contra hboth
  rw [not_or] at hboth
  obtain ⟨a, as, ha⟩ := exists_cons_of_ne_nil hboth.1
  obtain ⟨b, bs, hb⟩ := exists_cons_of_ne_nil hboth.2
  have hva := h.ordered v period
  have hvb := h.ordered w period
  rw [Store.visibleAt_eq, ha] at hva
  rw [Store.visibleAt_eq, hb] at hvb
  have hma : a ∈ periodRows period (s.own v) := ha ▸ mem_cons_self
  have hmb : b ∈ periodRows period (s.own w) := hb ▸ mem_cons_self
  rw [periodRows, mem_filter, decide_eq_true_eq, mem_own] at hma hmb
  have hk := h.apart _ hma.1 _ hmb.1 hvw
  simp [Observation.sameKey, hma.2, hmb.2, hva.vintage_cons, hvb.vintage_cons] at hk

theorem Inv.visibleAt_publish {s : Store} (h : Inv s) {v w : ℕ} (hvw : v ≠ w) (period : Period) :
    s.visibleAt v period <+: (s.publish w).visibleAt v period ∧
      ∃ u, (s.publish w).visibleAt v period = s.visibleAt u period := by
  rw [visibleAt_publish_other s hvw]
  rcases h.exclusive hvw period with hv | hw
  · rw [hv, append_nil, ← Store.visibleAt_eq, Store.visibleAt_eq, hv, append_nil]
    exact ⟨s.committed_prefix_visibleAt w period, w, rfl⟩
  · rw [hw, nil_append, ← Store.visibleAt_eq]
    exact ⟨prefix_rfl, v, rfl⟩

theorem Inv.of_growth {s t : Store} (h : Inv s) (w : ℕ)
    (hordered : ∀ v period, Ordered (t.visibleAt v period))
    (hapart : ∀ p ∈ t.pending, ∀ q ∈ t.pending, p.1 ≠ q.1 → p.2.sameKey q.2 = false)
    (hphase : ∀ v, v ≠ w → t.phase v = s.phase v)
    (hgrowth : ∀ v period, v ≠ w → s.visibleAt v period <+: t.visibleAt v period)
    (hcompared : ∀ request current, t.phase w = .compared request current →
      ∃ seen, seen <+: t.visibleAt w request.call.period ∧ current = currentRow seen)
    (hnumbered : ∀ request current bounds, t.phase w = .numbered request current bounds →
      ∃ seen known, seen <+: known ∧ known <+: t.visibleAt w request.call.period ∧
        current = currentRow seen ∧ bounds = periodBounds known) : Inv t := by
  refine ⟨hordered, hapart, ?_, ?_⟩
  · intro v request current hv
    by_cases hvw : v = w
    · subst hvw; exact hcompared request current hv
    · obtain ⟨seen, hs, hc⟩ := h.compared v request current (hphase v hvw ▸ hv)
      exact ⟨seen, hs.trans (hgrowth v _ hvw), hc⟩
  · intro v request current bounds hv
    by_cases hvw : v = w
    · subst hvw; exact hnumbered request current bounds hv
    · obtain ⟨seen, known, hsk, hk, hc, hb⟩ :=
        h.numbered v request current bounds (hphase v hvw ▸ hv)
      exact ⟨seen, known, hsk, hk.trans (hgrowth v _ hvw), hc, hb⟩

theorem Inv.setPhase {s : Store} (h : Inv s) (w : ℕ) (phase : Phase)
    (hcompared : ∀ request current, phase = .compared request current →
      ∃ seen, seen <+: s.visibleAt w request.call.period ∧ current = currentRow seen)
    (hnumbered : ∀ request current bounds, phase = .numbered request current bounds →
      ∃ seen known, seen <+: known ∧ known <+: s.visibleAt w request.call.period ∧
        current = currentRow seen ∧ bounds = periodBounds known) : Inv (s.setPhase w phase) := by
  refine h.of_growth w h.ordered h.apart (fun v hvw ↦ setPhase_phase_other s hvw _)
    (fun _ _ _ ↦ prefix_rfl) ?_ ?_
  · intro request current he
    exact hcompared request current ((setPhase_phase_self s w phase).symm.trans he)
  · intro request current bounds he
    exact hnumbered request current bounds ((setPhase_phase_self s w phase).symm.trans he)

theorem Inv.next_row {s : Store} (h : Inv s) {w : ℕ} {request : Request}
    {current : Option Observation} {bounds : PeriodBounds} {status : WriteStatus}
    {row : Observation} (hphase : s.phase w = .numbered request current bounds)
    (hplan : plan request current bounds = .ok (.insert status row))
    (hfree : ∀ stored ∈ s.visible w, stored.sameKey row = false) :
    row.period = request.call.period ∧
    row.vintage = (s.visibleAt w row.period).length + 1 ∧
    (∀ r ∈ s.visibleAt w row.period, r.availableAt ≤ row.availableAt) := by
  obtain ⟨seen, known, hsk, hk, rfl, rfl⟩ := h.numbered w request current bounds hphase
  obtain ⟨_, hrow, hnewest⟩ := plan_insert hplan
  have hperiod : row.period = request.call.period := by rw [hrow]; rfl
  rw [hperiod]
  have hordered := h.ordered w request.call.period
  have hfresh : ¬ ∃ r ∈ s.visibleAt w request.call.period, r.vintage = row.vintage := by
    rintro ⟨r, hr, hrv⟩
    rw [Store.visibleAt, periodRows, mem_filter, decide_eq_true_eq] at hr
    have hsame := hfree r hr.1
    simp [Observation.sameKey, hr.2, hperiod, hrv] at hsame
  rw [hordered.mem_vintages] at hfresh
  have hle := hk.length_le
  -- the reads may be older than what is visible now; the free key says they are not
  have hall : row.vintage = known.length + 1 ∧ known = s.visibleAt w request.call.period := by
    by_cases hnone : (currentRow seen).isNone
    · have hvintage : row.vintage = 1 := by rw [hrow, if_pos hnone]; rfl
      have hnil : s.visibleAt w request.call.period = [] := by
        rw [← length_eq_zero_iff]; omega
      have hknown : known = [] := prefix_nil.mp (hnil ▸ hk)
      exact ⟨by rw [hvintage, hknown]; rfl, hknown.trans hnil.symm⟩
    · have hvintage : row.vintage = known.length + 1 := by
        rw [← (hordered.of_initial hk).maxVintage, hrow, if_neg hnone]; rfl
      exact ⟨hvintage, hk.eq_of_length_le (by omega)⟩
  refine ⟨rfl, hall.2 ▸ hall.1, ?_⟩
  intro r hr
  rw [← hall.2] at hr
  obtain ⟨newest, hn, hle⟩ := newestAvailableAt_le hr
  rw [hrow]
  exact hle.trans (hnewest newest hn)

theorem Inv.hold {s : Store} (h : Inv s) {w : ℕ} {row : Observation}
    (hvintage : row.vintage = (s.visibleAt w row.period).length + 1)
    (havailable : ∀ r ∈ s.visibleAt w row.period, r.availableAt ≤ row.availableAt)
    (hheld : ∀ p ∈ s.pending, p.1 ≠ w → p.2.sameKey row = false) : Inv (s.hold w row) := by
  refine h.of_growth w ?_ ?_ (fun v hvw ↦ hold_phase_other s hvw row)
    (fun v period hvw ↦ by rw [visibleAt_hold_other s hvw]) ?_ ?_
  · intro v period
    by_cases hvw : v = w
    · subst hvw
      rw [visibleAt_hold_self]
      by_cases hp : row.period = period
      · subst hp
        have hrow : periodRows row.period [row] = [row] := by simp [periodRows]
        rw [hrow]
        exact (h.ordered v row.period).append hvintage havailable
      · have hrow : periodRows period [row] = [] := by simp [periodRows, hp]
        rw [hrow, append_nil]
        exact h.ordered v period
    · rw [visibleAt_hold_other s hvw]
      exact h.ordered v period
  · intro p hp q hq hpq
    rcases mem_append.mp hp with hp | hp <;> rcases mem_append.mp hq with hq | hq
    · exact h.apart p hp q hq hpq
    · obtain rfl := mem_singleton.mp hq
      exact hheld p hp hpq
    · obtain rfl := mem_singleton.mp hp
      have hk := hheld q hq hpq.symm
      rw [Observation.sameKey] at hk ⊢
      simpa only [eq_comm] using hk
    · obtain rfl := mem_singleton.mp hp
      obtain rfl := mem_singleton.mp hq
      exact absurd rfl hpq
  · intro request current he
    rw [hold_phase_self] at he; cases he
  · intro request current bounds he
    rw [hold_phase_self] at he; cases he

theorem Inv.publish {s : Store} (h : Inv s) {w : ℕ} (hidle : s.phase w = .idle) :
    Inv (s.publish w) := by
  refine h.of_growth w ?_ ?_ (fun _ _ ↦ rfl) ?_ ?_ ?_
  · intro v period
    by_cases hvw : v = w
    · subst hvw
      rw [visibleAt_publish_self]
      exact h.ordered v period
    · rw [visibleAt_publish_other s hvw]
      rcases h.exclusive hvw period with hv | hw
      · rw [hv, append_nil, ← Store.visibleAt_eq]
        exact h.ordered w period
      · rw [hw, nil_append, ← Store.visibleAt_eq]
        exact h.ordered v period
  · intro p hp q hq
    exact h.apart p (mem_of_mem_filter hp) q (mem_of_mem_filter hq)
  · intro v period hvw
    exact (h.visibleAt_publish hvw period).1
  · intro request current he
    rw [Store.publish, hidle] at he; cases he
  · intro request current bounds he
    rw [Store.publish, hidle] at he; cases he

theorem Inv.discard {s : Store} (h : Inv s) (w : ℕ) : Inv (s.discard w) := by
  refine h.of_growth w ?_ ?_ (fun v hvw ↦ discard_phase_other s hvw)
    (fun v period hvw ↦ by rw [visibleAt_discard_other s hvw]) ?_ ?_
  · intro v period
    by_cases hvw : v = w
    · subst hvw
      rw [visibleAt_discard_self]
      exact (h.ordered v period).of_initial (s.committed_prefix_visibleAt v period)
    · rw [visibleAt_discard_other s hvw]
      exact h.ordered v period
  · intro p hp q hq
    exact h.apart p (mem_of_mem_filter hp) q (mem_of_mem_filter hq)
  · intro request current he
    rw [discard_phase_self] at he; cases he
  · intro request current bounds he
    rw [discard_phase_self] at he; cases he

theorem Inv.step {s t : Store} {a : Action} (h : Inv s) (hn : next s a = some t) : Inv t := by
  rcases next_cases hn with ⟨w, _, _, _, rfl | ⟨_, _, rfl⟩⟩ | ⟨w, request, _, _, rfl⟩ |
    ⟨w, request, current, _, hp, rfl⟩ | ⟨w, _, rfl⟩ |
    ⟨w, request, current, bounds, status, row, _, hp, hplan, hheld, hfree, rfl⟩ |
    ⟨w, _, hidle, rfl⟩ | ⟨w, _, rfl⟩
  · exact h
  · exact h.setPhase w _ (fun _ _ he ↦ by cases he) (fun _ _ _ he ↦ by cases he)
  · refine h.setPhase w _ ?_ (fun _ _ _ he ↦ by cases he)
    intro request' current he
    cases he
    exact ⟨_, prefix_rfl, rfl⟩
  · refine h.setPhase w _ (fun _ _ he ↦ by cases he) ?_
    intro request' current' bounds he
    cases he
    obtain ⟨seen, hs, hc⟩ := h.compared w request current hp
    exact ⟨seen, _, hs, prefix_rfl, hc, rfl⟩
  · exact h.setPhase w _ (fun _ _ he ↦ by cases he) (fun _ _ _ he ↦ by cases he)
  · obtain ⟨_, hv, ha⟩ := h.next_row hp hplan hfree
    exact h.hold hv ha hheld
  · exact h.publish hidle
  · exact h.discard w

theorem Inv.of_reachable {s : Store} (h : Reachable next Store.empty s) : Inv s :=
  h.invariant Inv.empty (fun _ _ _ hi hn ↦ hi.step hn)

theorem Inv.committed_ordered {s : Store} (h : Inv s) (period : Period) :
    Ordered (periodRows period s.committed) :=
  (h.ordered 0 period).of_initial (s.committed_prefix_visibleAt 0 period)

/-- Vintage order is availability order under every interleaving of any number
of writers, and what is committed stays as it was committed. -/
theorem vintage_order_is_availability_order {s : Store} (h : Reachable next Store.empty s) :
    (∀ period : Period, ∃ k,
      ((periodRows period s.committed).map Observation.vintage).Perm (List.range' 1 k)) ∧
    (∀ period : Period, ∀ r ∈ periodRows period s.committed, ∀ r' ∈ periodRows period s.committed,
      r.vintage ≤ r'.vintage → r.availableAt ≤ r'.availableAt) ∧
    (∀ actions t, Run next (fun _ _ ↦ True) s actions t → s.committed <+: t.committed) := by
  have hi := Inv.of_reachable h
  refine ⟨fun period ↦ ?_, fun period r hr r' hr' hle ↦ ?_, fun actions t hrun ↦ ?_⟩
  · exact ⟨_, .of_eq (hi.committed_ordered period).vintages⟩
  · have ho := hi.committed_ordered period
    obtain ⟨i, hi', rfl⟩ := getElem_of_mem hr
    obtain ⟨j, hj, rfl⟩ := getElem_of_mem hr'
    rw [ho.vintage_getElem hi', ho.vintage_getElem hj] at hle
    rcases (Nat.le_of_succ_le_succ hle).lt_or_eq with hlt | rfl
    · exact pairwise_iff_getElem.mp ho.available i j hi' hj hlt
    · exact le_rfl
  · exact hrun.climbs (R := fun s t : Store ↦ s.committed <+: t.committed)
      (fun _ ↦ prefix_rfl) (fun _ _ _ ↦ List.IsPrefix.trans)
      (fun _ _ _ _ hn ↦ committed_prefix hn)

def statement (value : ℚ) (availableAt : Instant) : Call where
  seriesId := 1
  refPeriodStart := 0
  refPeriodEnd := 30
  value := some (.float (.finite value))
  availableAt := some availableAt
  utcnow := availableAt

def pass (w : ℕ) (c : Call) : List Action :=
  [.call w c, .selectCurrent w, .selectBounds w, .insert w, .commit w]

theorem execute_pass {s : Store} {w : ℕ} {c : Call} {request : Request}
    (hidle : s.phase w = .idle) (halone : s.pending = []) (hcheck : c.check = .ok request) :
    ∃ t, execute next (fun _ _ ↦ true) s (pass w c) = some t ∧ t.pending = [] ∧
      t.committed = rowsAfter s.committed c := by
  have hcall := Call.check_call hcheck
  have hown := own_of_no_pending halone w
  have hvisible : s.visibleAt w c.period = periodRows c.period s.committed := by
    rw [Store.visibleAt, Store.visible, hown, append_nil]
  have hreads : execute next (fun _ _ ↦ true) s (pass w c) =
      execute next (fun _ _ ↦ true)
        (s.setPhase w (.numbered request (currentRow (periodRows c.period s.committed))
          (periodBounds (periodRows c.period s.committed)))) [.insert w, .commit w] := by
    simp [pass, execute, next, hidle, hcheck, hcall, hvisible, visibleAt_setPhase]
  have hnothing : ((s.setPhase w .idle).publish w).pending = [] ∧
      ((s.setPhase w .idle).publish w).committed = s.committed := by
    simp [Store.publish, Store.own, Store.setPhase, halone]
  rw [hreads, rowsAfter, recordObservation, hcheck]
  simp only [execute, if_true, next, setPhase_phase_self]
  cases plan request (currentRow (periodRows c.period s.committed))
    (periodBounds (periodRows c.period s.committed)) with
  | error e => exact ⟨(s.setPhase w .idle).publish w, by simp, hnothing⟩
  | ok decided =>
    cases decided with
    | unchanged write => exact ⟨(s.setPhase w .idle).publish w, by simp, hnothing⟩
    | insert status row =>
      simp only
      rw [insertRow_of_no_pending (s := s.setPhase w _) halone]
      by_cases htaken : s.committed.any (fun stored ↦ stored.sameKey row) = true
      · refine ⟨(s.setPhase w .idle).publish w, ?_, ?_⟩
        · simp [Store.setPhase, htaken]
        · rw [if_pos htaken]
          exact hnothing
      · refine ⟨(s.hold w row).publish w, ?_, ?_, ?_⟩
        · simp [Store.setPhase, Store.hold, htaken]
        · simp [Store.publish, Store.hold, halone]
        · rw [if_neg htaken]
          simp [Store.publish, Store.own, Store.hold, halone]

def overlapping : List Action :=
  pass 0 (statement 1 10) ++
  [.call 0 (statement 2 20), .call 1 (statement 2 25), .selectCurrent 0, .selectCurrent 1,
    .selectBounds 1, .selectBounds 0, .insert 0, .commit 0, .insert 1, .commit 1]

theorem overlapping_ordered : ∃ s, Reachable next Store.empty s ∧
    s.committed.map Observation.vintage = [1, 2] ∧
    ∀ r ∈ periodRows (1, 0) s.committed, ∀ r' ∈ periodRows (1, 0) s.committed,
      r.vintage ≤ r'.vintage → r.availableAt ≤ r'.availableAt := by
  have hv : (execute next (fun _ _ ↦ true) Store.empty overlapping).map
      (fun s ↦ s.committed.map Observation.vintage) = some [1, 2] := by decide +kernel
  obtain ⟨s, hs, hv⟩ := Option.map_eq_some_iff.mp hv
  have hr := (run_of_execute hs).reachable
  exact ⟨s, hr, hv, (vintage_order_is_availability_order hr).2.1 (1, 0)⟩

end TalaPala.Economic
