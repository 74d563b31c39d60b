import TalaPala.Economic.PointInTime

namespace TalaPala.Economic

open Library List

section Calls

variable {rows rows' : List Observation} {c : Call} {w : ObservationWrite} {period : Period}

def Stated (rows : List Observation) (c : Call) : Prop :=
  ∃ request, c.check = .ok request ∧
    ∃ row, currentRow (periodRows c.period rows) = some row ∧ row.states request = true

def Call.Sane (c : Call) : Prop := ∀ request, c.check = .ok request → request.value ≠ .nan

abbrev WellKept (rows : List Observation) : Prop := ∀ period, Ordered (periodRows period rows)

def Call.Wrote (c : Call) (r : Observation) : Prop :=
  ∃ request vintage, c.check = .ok request ∧ r = request.row vintage

theorem request_states {request : Request} (h : request.value ≠ .nan) (vintage : ℕ) :
    (request.row vintage).states request = true := by
  rw [Observation.states, Bool.and_eq_true, decide_eq_true_eq]
  exact ⟨valuesEqual_refl h, rfl⟩

theorem nextVintage_free {rows : List Observation} {row : Observation} (hrows : WellKept rows)
    (hv : row.vintage = (periodRows row.period rows).length + 1) :
    rows.any (fun stored ↦ stored.sameKey row) = false := by
  rw [Bool.eq_false_iff]
  intro htaken
  obtain ⟨stored, hstored, hkey⟩ := any_eq_true.mp htaken
  rw [Observation.sameKey, Bool.and_eq_true, decide_eq_true_eq, decide_eq_true_eq] at hkey
  have hmem : stored ∈ periodRows row.period rows :=
    mem_filter.mpr ⟨hstored, decide_eq_true hkey.1⟩
  have hle := (((hrows row.period).mem_vintages stored.vintage).mp ⟨stored, hmem, rfl⟩).2
  omega

theorem plan_status {request : Request} {current : Option Observation} {bounds : PeriodBounds}
    {status : WriteStatus} {row : Observation}
    (h : plan request current bounds = .ok (.insert status row)) :
    status = if current.isNone then .inserted else .revised := by
  rw [plan] at h
  split at h
  · cases h
  · dsimp only at h
    split at h
    · split at h
      · cases h
      · exact (Plan.insert.inj (Except.ok.inj h)).1.symm
    · exact (Plan.insert.inj (Except.ok.inj h)).1.symm

theorem recordObservation_ok (hrows : WellKept rows)
    (h : recordObservation rows c = .ok (rows', w)) :
    (Stated rows c ∧ rows' = rows ∧ w.status = .unchanged) ∨
      ∃ request vintage, c.check = .ok request ∧ rows' = rows ++ [request.row vintage] ∧
        ¬ Stated rows c ∧
        (currentRow (periodRows c.period rows) = none ∧ w.status = .inserted ∨
          ∃ current, currentRow (periodRows c.period rows) = some current ∧
            w.status = .revised ∧ w.previousMethod = current.method ∧
            w.previousVintage = some current.vintage) ∧
        ∀ r ∈ periodRows c.period rows, r.availableAt ≤ request.availableAt := by
  rw [recordObservation] at h
  cases hcheck : c.check with
  | error e =>
    rw [hcheck] at h
    cases h
  | ok request =>
    rw [hcheck] at h
    have hcall := Call.check_call hcheck
    dsimp only at h
    cases hplan : plan request (currentRow (periodRows c.period rows))
        (periodBounds (periodRows c.period rows)) with
    | error e =>
      rw [hplan] at h
      cases h
    | ok planned =>
      rw [hplan] at h
      cases planned with
      | unchanged write =>
        obtain ⟨rfl, rfl⟩ := Prod.mk.inj (Except.ok.inj h)
        rw [plan] at hplan
        split at hplan
        · rename_i hstates
          rw [Option.any_eq_true] at hstates
          obtain ⟨row, hrow, hstates⟩ := hstates
          refine .inl ⟨⟨request, hcheck, row, hrow, hstates⟩, rfl, ?_⟩
          rw [← Plan.unchanged.inj (Except.ok.inj hplan)]
          rfl
        · dsimp only at hplan
          split at hplan
          · split at hplan
            · cases hplan
            · cases hplan
          · cases hplan
      | insert status row =>
        obtain ⟨hstates, hrow, havailable⟩ := plan_insert hplan
        have hperiod : row.period = c.period := by
          rw [hrow, ← hcall]
          rfl
        have hvintage : row.vintage = (periodRows row.period rows).length + 1 := by
          rw [hperiod, hrow, Request.row]
          dsimp only
          split
          · rename_i hnone
            rw [firstBy_eq_none.mp (Option.isNone_iff_eq_none.mp hnone)]
            rfl
          · rw [(hrows c.period).maxVintage]
        dsimp only at h
        rw [nextVintage_free hrows hvintage] at h
        obtain ⟨rfl, rfl⟩ := Prod.mk.inj (Except.ok.inj h)
        refine .inr ⟨request, _, rfl, by rw [hrow], ?_, ?_, fun r hr ↦ ?_⟩
        · rintro ⟨request', hcheck', stored, hstored, hsame⟩
          obtain rfl := Except.ok.inj (hcheck.symm.trans hcheck')
          rw [hstored, Option.any_some, hsame] at hstates
          cases hstates
        · have hstatus := plan_status hplan
          cases hcurrent : currentRow (periodRows c.period rows) with
          | none =>
            rw [hcurrent] at hstatus
            exact .inl ⟨rfl, hstatus⟩
          | some current =>
            rw [hcurrent] at hstatus
            exact .inr ⟨current, rfl, hstatus, rfl, rfl⟩
        · obtain ⟨newest, hnewest, hle⟩ := newestAvailableAt_le hr
          exact hle.trans (havailable newest hnewest)

def recordAll {ε : Type} (guard : List Observation → Call → ObservationWrite → Option ε) :
    List Observation → List Call →
      Except (ε ⊕ RecordError) (List Observation × List ObservationWrite)
  | rows, [] => .ok (rows, [])
  | rows, c :: calls =>
    match recordObservation rows c with
    | .error e => .error (.inr e)
    | .ok (stored, write) =>
      match guard stored c write with
      | some e => .error (.inl e)
      | none =>
        match recordAll guard stored calls with
        | .error e => .error e
        | .ok (final, writes) => .ok (final, write :: writes)

section Batch

variable {ε : Type} {guard : List Observation → Call → ObservationWrite → Option ε}
  {calls : List Call} {writes : List ObservationWrite}

theorem recordAll_cons (h : recordAll guard rows (c :: calls) = .ok (rows', writes)) :
    ∃ stored write rest, recordObservation rows c = .ok (stored, write) ∧
      guard stored c write = none ∧ recordAll guard stored calls = .ok (rows', rest) ∧
        writes = write :: rest := by
  rw [recordAll] at h
  split at h
  · cases h
  · rename_i stored write hrecord
    split at h
    · cases h
    · rename_i hguard
      split at h
      · cases h
      · rename_i final rest hrest
        obtain ⟨rfl, rfl⟩ := Prod.mk.inj (Except.ok.inj h)
        exact ⟨stored, write, rest, hrecord, hguard, hrest, rfl⟩

theorem recordObservation_wellKept (hrows : WellKept rows)
    (h : recordObservation rows c = .ok (rows', w)) : WellKept rows' := by
  have hafter : rowsAfter rows c = rows' := by rw [rowsAfter, h]
  exact hafter ▸ rowsAfter_ordered hrows c

theorem recordAll_wellKept (hrows : WellKept rows)
    (h : recordAll guard rows calls = .ok (rows', writes)) : WellKept rows' := by
  induction calls generalizing rows writes with
  | nil =>
    obtain ⟨rfl, -⟩ := Prod.mk.inj (Except.ok.inj h)
    exact hrows
  | cons c calls ih =>
    obtain ⟨stored, write, rest, hrecord, -, hrest, -⟩ := recordAll_cons h
    exact ih (recordObservation_wellKept hrows hrecord) hrest

theorem recordAll_rows (hrows : WellKept rows)
    (h : recordAll guard rows calls = .ok (rows', writes)) :
    ∃ new, rows' = rows ++ new ∧ ∀ r ∈ new, ∃ c ∈ calls, c.Wrote r := by
  induction calls generalizing rows writes with
  | nil =>
    obtain ⟨rfl, -⟩ := Prod.mk.inj (Except.ok.inj h)
    exact ⟨[], (append_nil _).symm, fun r hr ↦ absurd hr not_mem_nil⟩
  | cons c calls ih =>
    obtain ⟨stored, write, rest, hrecord, -, hrest, -⟩ := recordAll_cons h
    obtain ⟨new, hnew, hwrote⟩ := ih (recordObservation_wellKept hrows hrecord) hrest
    have hlater (r : Observation) (hr : r ∈ new) : ∃ c' ∈ c :: calls, c'.Wrote r := by
      obtain ⟨c', hc', hr⟩ := hwrote r hr
      exact ⟨c', mem_cons_of_mem _ hc', hr⟩
    rcases recordObservation_ok hrows hrecord with ⟨-, rfl, -⟩ |
      ⟨request, vintage, hcheck, rfl, -⟩
    · exact ⟨new, hnew, hlater⟩
    · refine ⟨request.row vintage :: new, by rw [hnew, append_assoc]; rfl,
        fun r hr ↦ ?_⟩
      rcases mem_cons.mp hr with rfl | hr
      · exact ⟨c, mem_cons_self, request, vintage, hcheck, rfl⟩
      · exact hlater r hr

theorem Call.Wrote.period_eq {r : Observation} (h : c.Wrote r) : r.period = c.period := by
  obtain ⟨request, vintage, hcheck, rfl⟩ := h
  rw [← Call.check_call hcheck]
  rfl

theorem recordAll_frame (hrows : WellKept rows)
    (h : recordAll guard rows calls = .ok (rows', writes))
    (hperiod : ∀ c ∈ calls, c.period ≠ period) :
    periodRows period rows' = periodRows period rows := by
  obtain ⟨new, rfl, hwrote⟩ := recordAll_rows hrows h
  have hnone : periodRows period new = [] := by
    refine filter_eq_nil_iff.mpr (fun r hr ↦ ?_)
    obtain ⟨c, hc, hr⟩ := hwrote r hr
    rw [decide_eq_true_eq, hr.period_eq]
    exact hperiod c hc
  rw [periodRows_append, hnone, append_nil]

theorem Stated.congr {rows rows' : List Observation}
    (h : periodRows c.period rows' = periodRows c.period rows) (hs : Stated rows c) :
    Stated rows' c := by
  rw [Stated, h]
  exact hs

theorem recordObservation_stated (hrows : WellKept rows) (hc : c.Sane)
    (h : recordObservation rows c = .ok (rows', w)) : Stated rows' c := by
  rcases recordObservation_ok hrows h with ⟨hs, rfl, -⟩ | ⟨request, vintage, hcheck, rfl, -⟩
  · exact hs
  · have hperiod : (request.row vintage).period = c.period := by
      rw [← Call.check_call hcheck]
      rfl
    have hkept := recordObservation_wellKept hrows h
    refine ⟨request, hcheck, request.row vintage, ?_, request_states (hc request hcheck) vintage⟩
    rw [(hkept c.period).currentRow, periodRows_append]
    simp [periodRows, hperiod]

theorem recordAll_stated (hrows : WellKept rows) (hsane : ∀ c ∈ calls, c.Sane)
    (h : recordAll guard rows calls = .ok (rows', writes))
    (hlast : (calls.filter (fun c' ↦ c'.period = period)).getLast? = some c) :
    Stated rows' c := by
  induction calls generalizing rows writes with
  | nil => cases hlast
  | cons c' calls ih =>
    obtain ⟨stored, write, rest, hrecord, -, hrest, -⟩ := recordAll_cons h
    have hkept := recordObservation_wellKept hrows hrecord
    have hrestsane := fun d hd ↦ hsane d (mem_cons_of_mem _ hd)
    rcases hfilter : calls.filter (fun c' ↦ c'.period = period) with _ | ⟨d, ds⟩
    · have hnone : ∀ d ∈ calls, d.period ≠ period := by
        intro d hd heq
        exact filter_eq_nil_iff.mp hfilter d hd (decide_eq_true heq)
      have hc : c' = c ∧ c'.period = period := by
        by_cases hperiod : c'.period = period
        · rw [filter_cons, if_pos (decide_eq_true hperiod), hfilter] at hlast
          exact ⟨Option.some.inj hlast, hperiod⟩
        · rw [filter_cons, if_neg (by simpa using hperiod), hfilter] at hlast
          cases hlast
      obtain ⟨rfl, hperiod⟩ := hc
      refine (recordObservation_stated hrows (hsane c' mem_cons_self) hrecord).congr ?_
      exact recordAll_frame hkept hrest (fun d hd ↦ hperiod ▸ hnone d hd)
    · refine ih hkept hrestsane hrest ?_
      by_cases hperiod : c'.period = period
      · rw [filter_cons, if_pos (decide_eq_true hperiod), hfilter, getLast?_cons_cons] at hlast
        rw [hfilter]
        exact hlast
      · rwa [filter_cons, if_neg (by simpa using hperiod)] at hlast

theorem recordAll_unchanged (hrows : WellKept rows)
    (hstated : ∀ c ∈ calls, ∀ request, c.check = .ok request → Stated rows c)
    (h : recordAll guard rows calls = .ok (rows', writes)) : rows' = rows := by
  induction calls generalizing writes with
  | nil =>
    obtain ⟨rfl, -⟩ := Prod.mk.inj (Except.ok.inj h)
    rfl
  | cons c calls ih =>
    obtain ⟨stored, write, rest, hrecord, -, hrest, -⟩ := recordAll_cons h
    rcases recordObservation_ok hrows hrecord with ⟨-, rfl, -⟩ |
      ⟨request, _, hcheck, -, hnot, -⟩
    · exact ih (fun d hd ↦ hstated d (mem_cons_of_mem _ hd)) hrest
    · exact absurd (hstated c mem_cons_self request hcheck) hnot

theorem recordAll_stated_of_eq (hrows : WellKept rows)
    (h : recordAll guard rows calls = .ok (rows, writes)) : ∀ c ∈ calls, Stated rows c := by
  induction calls generalizing writes with
  | nil => exact fun c hc ↦ absurd hc not_mem_nil
  | cons c calls ih =>
    obtain ⟨stored, write, rest, hrecord, -, hrest, -⟩ := recordAll_cons h
    rcases recordObservation_ok hrows hrecord with ⟨hstated, rfl, -⟩ |
      ⟨request, vintage, -, rfl, -⟩
    · exact forall_mem_cons.mpr ⟨hstated, ih hrest⟩
    · obtain ⟨new, hnew, -⟩ := recordAll_rows (recordObservation_wellKept hrows hrecord) hrest
      have hlength := congrArg List.length hnew
      simp only [length_append, length_singleton] at hlength
      omega

theorem Call.Wrote.publishedAt_eq {r : Observation} (h : c.Wrote r) :
    r.publishedAt = c.publishedAt := by
  obtain ⟨request, vintage, hcheck, rfl⟩ := h
  rw [← Call.check_call hcheck]
  rfl

theorem Call.Wrote.refPeriodLabel_eq {r : Observation} (h : c.Wrote r) :
    r.refPeriodLabel = c.refPeriodLabel := by
  obtain ⟨request, vintage, hcheck, rfl⟩ := h
  rw [← Call.check_call hcheck]
  rfl

theorem Call.Wrote.sourceDocumentId_eq {r : Observation} (h : c.Wrote r) :
    r.sourceDocumentId = c.sourceDocumentId := by
  obtain ⟨request, vintage, hcheck, rfl⟩ := h
  rw [← Call.check_call hcheck]
  rfl

theorem Call.Wrote.availableAt_eq {r : Observation} (h : c.Wrote r) :
    c.availableAt = some r.availableAt := by
  obtain ⟨request, vintage, hcheck, rfl⟩ := h
  rw [Call.check] at hcheck
  split at hcheck
  · cases hcheck
  · split at hcheck
    · cases hcheck
    · split at hcheck
      · cases hcheck
      · rename_i available havailable
        split at hcheck
        · cases hcheck
        · obtain rfl := Except.ok.inj hcheck
          exact havailable

end Batch

end Calls

end TalaPala.Economic
