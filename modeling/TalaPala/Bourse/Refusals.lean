import TalaPala.Bourse.Ingest
import TalaPala.Library.Checked

namespace TalaPala.Bourse

open Library List

def Corrected (rows : List IndexRow) : Prop :=
  ∃ breaks, scaleExponents ((ascending IndexRow.tradeDate rows).map IndexRow.close) =
    .ok ((ascending IndexRow.tradeDate rows).map IndexRow.scaleExp, breaks)

def IndexCheck.refusesCorrection (check : IndexCheck) (worst : ℕ) : Prop :=
  check.verdict.status = .refused ∧ .correctionBeyond worst ∈ check.verdict.refusalReasons

def Understands (utcOffset : Instant → ℤ) (store : Store) (call : IngestCall) : Prop :=
  ∀ m, mergeHistory utcOffset store call = .ok m →
    Corrected ((store.ingest utcOffset call).values m.history.insCode) ∧
    (maxAbsExp < worstExp m.exps →
      ∃ check, (store.ingest utcOffset call).checks m.history.insCode = some check ∧
        check.refusesCorrection (worstExp m.exps))

/-- The payload is of a registered index and none of the checks before the merge stops it. -/
structure Admitted (utcOffset : Instant → ℤ) (store : Store) (call : IngestCall)
    (history : IndexHistory) : Prop where
  parsed : parseIndexHistory call.payload = .ok history
  settled : settledValues (settledCutoff utcOffset call.now) history ≠ []
  registered : (store.registry history.insCode).isSome
  consistent : refusal history.insCode (store.values history.insCode)
    (settledValues (settledCutoff utcOffset call.now) history) = none

def WithinDecades (utcOffset : Instant → ℤ) (store : Store) (call : IngestCall) : Prop :=
  ∀ history exps breaks, Admitted utcOffset store call history →
    scaleExponents ((mergedSeries (store.values history.insCode)
      (pendingValues (store.values history.insCode)
        (settledValues (settledCutoff utcOffset call.now) history))).map Prod.snd) =
      .ok (exps, breaks) → worstExp exps ≤ maxAbsExp

theorem le_worstExp {exps : List ℤ} {e : ℤ} (h : e ∈ exps) : e.natAbs ≤ worstExp exps := by
  induction exps with
  | nil => cases h
  | cons first exps ih =>
    simp only [worstExp, map_cons, foldr_cons] at ih ⊢
    cases mem_cons.mp h with
    | inl heq => exact heq ▸ le_max_left _ _
    | inr hrest => exact (ih hrest).trans (le_max_right _ _)

theorem worstExp_le {exps : List ℤ} {n : ℕ} (h : ∀ e ∈ exps, e.natAbs ≤ n) :
    worstExp exps ≤ n := by
  induction exps with
  | nil => exact Nat.zero_le n
  | cons first exps ih =>
    simp only [worstExp, map_cons, foldr_cons] at ih ⊢
    exact max_le (h first mem_cons_self)
      (ih (fun e he ↦ h e (mem_cons_of_mem _ he)))

theorem scaleWalk_length (k : ℤ) (i : ℕ) (previous : ℚ) (closes : List ℚ) :
    (scaleWalk k i previous closes).1.length = closes.length := by
  induction closes generalizing k i previous with
  | nil => rfl
  | cons close closes ih => rw [scaleWalk_cons, length_cons, ih, length_cons]

theorem scaleExponents_length {closes : List ℚ} {exps : List ℤ} {breaks : List ℕ}
    (h : scaleExponents closes = .ok (exps, breaks)) : exps.length = closes.length := by
  cases closes with
  | nil =>
    obtain ⟨rfl, _⟩ := Prod.mk.inj (Except.ok.inj h)
    rfl
  | cons first rest =>
    rw [scaleExponents] at h
    split at h
    · cases h
    · obtain ⟨rfl, _⟩ := Prod.mk.inj (Except.ok.inj h)
      rw [length_map, length_cons, length_cons, scaleWalk_length]

theorem map_expOf {dates : List Date} {exps : List ℤ} (hnodup : dates.Nodup)
    (hlen : exps.length = dates.length) : dates.map (expOf dates exps) = exps := by
  induction dates generalizing exps with
  | nil => exact (eq_nil_of_length_eq_zero hlen).symm
  | cons d dates ih =>
    cases exps with
    | nil => cases hlen
    | cons e exps =>
      obtain ⟨hd, hnodup⟩ := nodup_cons.mp hnodup
      have hfirst : expOf (d :: dates) (e :: exps) d = e := by simp [expOf]
      have hrest : dates.map (expOf (d :: dates) (e :: exps)) = dates.map (expOf dates exps) := by
        refine map_congr_left (fun d' hd' ↦ ?_)
        have hne : d ≠ d' := fun heq ↦ hd (heq ▸ hd')
        simp [expOf, hne]
      rw [map_cons, hfirst, hrest, ih hnodup (Nat.succ.inj hlen)]

structure IsMerge (store : Store) (m : Merged) : Prop where
  dates : m.dates = (mergedSeries (store.values m.history.insCode) m.pending).map Prod.fst
  closes : m.closes = (mergedSeries (store.values m.history.insCode) m.pending).map Prod.snd
  exps : scaleExponents m.closes = .ok (m.exps, m.breaks)
  pending_nodup : (m.pending.map IndexValue.tradeDate).Nodup
  pending_new : ∀ v ∈ m.pending, ∀ r ∈ store.values m.history.insCode,
    r.tradeDate ≠ v.tradeDate
  pending_pos : ∀ v ∈ m.pending, 0 < v.close

theorem mergeHistory_ok {utcOffset : Instant → ℤ} {store : Store} {call : IngestCall} {m : Merged}
    (h : mergeHistory utcOffset store call = .ok m) :
    Admitted utcOffset store call m.history ∧ m.pending = pendingValues
      (store.values m.history.insCode)
        (settledValues (settledCutoff utcOffset call.now) m.history) ∧ IsMerge store m := by
  unfold mergeHistory at h
  split at h
  · cases h
  · rename_i history hparse
    dsimp only at h
    split at h
    · cases h
    · rename_i hsettled
      split at h
      · cases h
      · rename_i registration hregistry
        split at h
        · cases h
        · rename_i hrefusal
          split at h
          · cases h
          · rename_i hexps
            obtain rfl := Except.ok.inj h
            refine ⟨⟨hparse, hsettled, by rw [hregistry]; rfl, hrefusal⟩, rfl, rfl, rfl, hexps, ?_,
              fun v hv r hr heq ↦ ?_, fun v hv ↦ ?_⟩
            · have hasc := (history.ascending.filter (fun v ↦
                v.tradeDate < settledCutoff utcOffset call.now)).filter (fun v ↦
                  !isStored (store.values history.insCode) v)
              exact pairwise_map.mpr (hasc.imp (fun hlt ↦ hlt.ne))
            · obtain ⟨_, hnew⟩ := mem_filter.mp hv
              rw [Bool.not_eq_true', isStored, any_eq_false] at hnew
              exact hnew r hr (decide_eq_true heq)
            · exact history.positive v (mem_of_mem_filter (mem_of_mem_filter hv))

theorem mergeHistory_of_admitted {utcOffset : Instant → ℤ} {store : Store} {call : IngestCall}
    {history : IndexHistory} {exps : List ℤ} {breaks : List ℕ}
    (h : Admitted utcOffset store call history)
    (hexps : scaleExponents ((mergedSeries (store.values history.insCode)
      (pendingValues (store.values history.insCode)
        (settledValues (settledCutoff utcOffset call.now) history))).map Prod.snd) =
      .ok (exps, breaks)) :
    ∃ m, mergeHistory utcOffset store call = .ok m ∧ m.exps = exps := by
  obtain ⟨registration, hregistry⟩ := Option.isSome_iff_exists.mp h.registered
  unfold mergeHistory
  rw [h.parsed]
  dsimp only
  rw [if_neg h.settled, hregistry]
  dsimp only
  rw [h.consistent]
  dsimp only
  rw [hexps]
  exact ⟨_, rfl, rfl⟩

structure Rewritten (store : Store) (m : Merged) (rows : List IndexRow) : Prop where
  series : rows.map (fun r ↦ (r.tradeDate, r.close)) =
    (store.values m.history.insCode).map (fun r ↦ (r.tradeDate, r.close)) ++
      m.pending.map (fun v ↦ (v.tradeDate, v.close))
  exps : ∀ r ∈ rows, r.scaleExp = expOf m.dates m.exps r.tradeDate

theorem insertRow_ok {exp : Date → ℤ} {collectedAt : Instant} {v : IndexValue} {r : IndexRow}
    (h : insertRow exp collectedAt v = .ok r) :
    (r.tradeDate, r.close) = (v.tradeDate, v.close) ∧ r.scaleExp = exp r.tradeDate := by
  unfold insertRow at h
  split at h
  · obtain rfl := Except.ok.inj h
    exact ⟨rfl, rfl⟩
  · cases h

theorem rescaleRow_ok {exp : Date → ℤ} {r r' : IndexRow} (h : rescaleRow exp r = .ok r') :
    (r'.tradeDate, r'.close) = (r.tradeDate, r.close) ∧ r'.scaleExp = exp r'.tradeDate := by
  unfold rescaleRow at h
  split at h
  · rename_i hsame
    obtain rfl := Except.ok.inj h
    exact ⟨rfl, hsame⟩
  · split at h
    · obtain rfl := Except.ok.inj h
      exact ⟨rfl, rfl⟩
    · cases h

theorem writeHistory_ok {store after : Store} {call : IngestCall} {m : Merged} {report : Report}
    (h : writeHistory store call m = .ok (after, report)) :
    ∃ rows check, Rewritten store m rows ∧
      check.verdict = verdict m.dates m.closes m.exps m.breaks m.history.droppedNonpositive
        (call.live m.history.insCode) ∧
      after.values = Function.update store.values m.history.insCode rows ∧
      after.checks = Function.update store.checks m.history.insCode (some check) := by
  obtain ⟨inserted, hinserted, h⟩ := bind_eq_ok.mp h
  obtain ⟨updated, hupdated, h⟩ := bind_eq_ok.mp h
  obtain ⟨rfl, _⟩ := Prod.mk.inj (Except.ok.inj h)
  refine ⟨updated ++ inserted, _, ⟨?_, fun r hr ↦ ?_⟩, rfl, rfl, rfl⟩
  · rw [map_append]
    congr 1
    · exact map_eq_of_forall₂ (forall₂_of_mapM hupdated) (fun r r' hr ↦ (rescaleRow_ok hr).1)
    · exact map_eq_of_forall₂ (forall₂_of_mapM hinserted) (fun v r hr ↦ (insertRow_ok hr).1)
  · cases mem_append.mp hr with
    | inl hr =>
      obtain ⟨_, _, hok⟩ := exists_of_mem_right (forall₂_of_mapM hupdated) hr
      exact (rescaleRow_ok hok).2
    | inr hr =>
      obtain ⟨_, _, hok⟩ := exists_of_mem_right (forall₂_of_mapM hinserted) hr
      exact (insertRow_ok hok).2

section Write

variable {store : Store} {m : Merged} (hm : IsMerge store m)
  (hstored : ((store.values m.history.insCode).map IndexRow.tradeDate).Nodup)

include hm hstored

theorem IsMerge.dates_nodup :
    ((store.values m.history.insCode).map IndexRow.tradeDate ++
      m.pending.map IndexValue.tradeDate).Nodup := by
  refine nodup_append.mpr ⟨hstored, hm.pending_nodup, fun d hd d' hd' ↦ ?_⟩
  obtain ⟨r, hr, rfl⟩ := mem_map.mp hd
  obtain ⟨v, hv, rfl⟩ := mem_map.mp hd'
  exact hm.pending_new v hv r hr

theorem IsMerge.map_expOf : m.dates.map (expOf m.dates m.exps) = m.exps := by
  have hperm : (mergedSeries (store.values m.history.insCode) m.pending).Perm _ :=
    ascending_perm _
  have hdates : m.dates.Perm ((store.values m.history.insCode).map IndexRow.tradeDate ++
      m.pending.map IndexValue.tradeDate) := by
    have := hperm.map Prod.fst
    rw [map_append, map_map, map_map] at this
    rw [hm.dates]
    exact this
  refine Bourse.map_expOf (hdates.nodup_iff.mpr (hm.dates_nodup hstored)) ?_
  rw [scaleExponents_length hm.exps, hm.closes, hm.dates, length_map, length_map]

variable {rows : List IndexRow} (hrows : Rewritten store m rows)

include hrows

theorem Rewritten.ascending_exps :
    (ascending IndexRow.tradeDate rows).map IndexRow.close = m.closes ∧
      (ascending IndexRow.tradeDate rows).map IndexRow.scaleExp = m.exps := by
  have hseries : (ascending IndexRow.tradeDate rows).map (fun r ↦ (r.tradeDate, r.close)) =
      mergedSeries (store.values m.history.insCode) m.pending := by
    have hmap : ascending Prod.fst (rows.map (fun r ↦ (r.tradeDate, r.close))) =
        (ascending IndexRow.tradeDate rows).map (fun r ↦ (r.tradeDate, r.close)) :=
      ascending_map (fun _ ↦ rfl) rows
    rw [mergedSeries, ← hrows.series, hmap]
  refine ⟨by rw [hm.closes, ← hseries, map_map]; rfl, ?_⟩
  have hdates : (ascending IndexRow.tradeDate rows).map IndexRow.tradeDate = m.dates := by
    rw [hm.dates, ← hseries, map_map]
    rfl
  calc (ascending IndexRow.tradeDate rows).map IndexRow.scaleExp
      = (ascending IndexRow.tradeDate rows).map
          (fun r ↦ expOf m.dates m.exps r.tradeDate) :=
        map_congr_left (fun r hr ↦ hrows.exps r ((ascending_perm rows).mem_iff.mp hr))
    _ = m.dates.map (expOf m.dates m.exps) := by
        rw [← hdates, map_map]
        rfl
    _ = m.exps := hm.map_expOf hstored

theorem Rewritten.corrected : Corrected rows := by
  obtain ⟨hcloses, hexps⟩ := hrows.ascending_exps hm hstored
  exact ⟨m.breaks, by rw [hcloses, hexps]; exact hm.exps⟩

theorem Rewritten.within : worstExp m.exps ≤ maxAbsExp := by
  obtain ⟨_, hexps⟩ := hrows.ascending_exps hm hstored
  refine worstExp_le (fun e he ↦ ?_)
  rw [← hexps] at he
  obtain ⟨r, _, rfl⟩ := mem_map.mp he
  have := r.scaleExp_between
  rw [maxAbsExp]
  omega

theorem Rewritten.nodup : (rows.map IndexRow.tradeDate).Nodup := by
  have hdates : rows.map IndexRow.tradeDate =
      (store.values m.history.insCode).map IndexRow.tradeDate ++
        m.pending.map IndexValue.tradeDate := by
    have := congrArg (List.map Prod.fst) hrows.series
    rw [map_append, map_map, map_map, map_map] at this
    exact this
  rw [hdates]
  exact hm.dates_nodup hstored

end Write

theorem insertRow_of_between {exp : Date → ℤ} (collectedAt : Instant) {v : IndexValue}
    (hpos : 0 < v.close) (h : -3 ≤ exp v.tradeDate ∧ exp v.tradeDate ≤ 3) :
    ∃ r, insertRow exp collectedAt v = .ok r :=
  ⟨_, dif_pos ⟨hpos, h⟩⟩

theorem rescaleRow_of_between {exp : Date → ℤ} {r : IndexRow}
    (h : -3 ≤ exp r.tradeDate ∧ exp r.tradeDate ≤ 3) : ∃ r', rescaleRow exp r = .ok r' := by
  unfold rescaleRow
  split
  · exact ⟨r, rfl⟩
  · exact ⟨_, rfl⟩

theorem writeHistory_iff {store : Store} (call : IngestCall) {m : Merged} (hm : IsMerge store m)
    (hstored : ((store.values m.history.insCode).map IndexRow.tradeDate).Nodup) :
    (∃ result, writeHistory store call m = .ok result) ↔ worstExp m.exps ≤ maxAbsExp := by
  constructor
  · intro h
    obtain ⟨⟨after, report⟩, h⟩ := h
    obtain ⟨rows, _, hrows, _⟩ := writeHistory_ok h
    exact hrows.within hm hstored
  · intro h
    have hbetween (d : Date) :
        -3 ≤ expOf m.dates m.exps d ∧ expOf m.dates m.exps d ≤ 3 := by
      unfold expOf
      cases hfind : (m.dates.zip m.exps).find? (fun p ↦ p.1 = d) with
      | none => simp
      | some p =>
        have hmem := (of_mem_zip (mem_of_find?_eq_some hfind)).2
        have := (le_worstExp hmem).trans h
        rw [maxAbsExp] at this
        simp only [Option.elim_some]
        omega
    obtain ⟨inserted, hinserted⟩ := exists_mapM (l := m.pending) (fun v hv ↦
      insertRow_of_between call.now (hm.pending_pos v hv) (hbetween v.tradeDate))
    obtain ⟨updated, hupdated⟩ := exists_mapM (l := store.values m.history.insCode)
      (fun r _ ↦ rescaleRow_of_between (hbetween r.tradeDate))
    refine ⟨_, bind_eq_ok.mpr ⟨inserted, hinserted, bind_eq_ok.mpr ⟨updated, hupdated, rfl⟩⟩⟩

theorem correctionBeyond_not_mem {dates : List Date} {corrected : List ℚ} {exps : List ℤ}
    {liveValue : Option ℚ} (h : worstExp exps ≤ maxAbsExp) (worst : ℕ) :
    .correctionBeyond worst ∉ refusalReasons dates corrected exps liveValue := by
  rw [refusalReasons, if_neg (not_lt.mpr h), nil_append]
  cases liveRatioOf corrected liveValue with
  | none => simp
  | some ratio =>
    simp only [Option.elim_some]
    split <;> simp

structure SoundIndex (rows : List IndexRow) (check : Option IndexCheck) : Prop where
  nodup : (rows.map IndexRow.tradeDate).Nodup
  corrected : Corrected rows
  understood : ∀ c ∈ check, ∀ worst, .correctionBeyond worst ∉ c.verdict.refusalReasons

def Sound (store : Store) : Prop := ∀ code, SoundIndex (store.values code) (store.checks code)

theorem sound_start (registry : String → Option Registration) : Sound (Store.start registry) :=
  fun _ ↦ ⟨nodup_nil, ⟨[], rfl⟩, fun _ h ↦ by cases h⟩

theorem ingest_cases (utcOffset : Instant → ℤ) (store : Store) (call : IngestCall) :
    store.ingest utcOffset call = store ∨
    ∃ m rows check, mergeHistory utcOffset store call = .ok m ∧ Rewritten store m rows ∧
      check.verdict = verdict m.dates m.closes m.exps m.breaks m.history.droppedNonpositive
        (call.live m.history.insCode) ∧
      (store.ingest utcOffset call).values =
        Function.update store.values m.history.insCode rows ∧
      (store.ingest utcOffset call).checks =
        Function.update store.checks m.history.insCode (some check) := by
  unfold Store.ingest
  cases hcall : ingestIndexHistory utcOffset store call with
  | error e => exact .inl rfl
  | ok result =>
    obtain ⟨after, report⟩ := result
    obtain ⟨m, hm, hwrite⟩ := bind_eq_ok.mp hcall
    obtain ⟨rows, check, h⟩ := writeHistory_ok hwrite
    exact .inr ⟨m, rows, check, hm, h⟩

theorem Sound.ingest {utcOffset : Instant → ℤ} {store : Store} (h : Sound store)
    (call : IngestCall) : Sound (store.ingest utcOffset call) := by
  cases ingest_cases utcOffset store call with
  | inl hsame =>
    rw [hsame]
    exact h
  | inr hwritten =>
    obtain ⟨m, rows, check, hm, hrows, hverdict, hvalues, hchecks⟩ := hwritten
    have hmerge := (mergeHistory_ok hm).2.2
    have hstored := (h m.history.insCode).nodup
    intro code
    rw [hvalues, hchecks]
    by_cases hcode : code = m.history.insCode
    · subst hcode
      rw [Function.update_self, Function.update_self]
      refine ⟨hrows.nodup hmerge hstored, hrows.corrected hmerge hstored, fun c hc worst ↦ ?_⟩
      rw [Option.mem_some_iff] at hc
      rw [← hc, hverdict]
      exact correctionBeyond_not_mem (hrows.within hmerge hstored) worst
    · rw [Function.update_of_ne hcode, Function.update_of_ne hcode]
      exact h code

theorem sound_after (utcOffset : Instant → ℤ) (registry : String → Option Registration)
    (calls : List IngestCall) : Sound ((Store.start registry).after utcOffset calls) := by
  induction calls using List.reverseRecOn with
  | nil => exact sound_start registry
  | append_singleton calls call ih =>
    rw [Store.after, foldl_append]
    exact ih.ingest call

theorem understands_iff {utcOffset : Instant → ℤ} {store : Store} (h : Sound store)
    (call : IngestCall) :
    Understands utcOffset store call ↔ WithinDecades utcOffset store call := by
  have hafter : Sound (store.ingest utcOffset call) := h.ingest call
  constructor
  · intro hunderstands history exps breaks hadmitted hexps
    by_contra hbeyond
    obtain ⟨m, hm, rfl⟩ := mergeHistory_of_admitted hadmitted hexps
    obtain ⟨_, hrefused⟩ := hunderstands m hm
    obtain ⟨check, hcheck, _, hreason⟩ := hrefused (not_le.mp hbeyond)
    exact (hafter m.history.insCode).understood check hcheck _ hreason
  · intro hwithin m hm
    obtain ⟨hadmitted, hpending, hmerge⟩ := mergeHistory_ok hm
    have hexps := hmerge.exps
    rw [hmerge.closes, hpending] at hexps
    refine ⟨(hafter m.history.insCode).corrected, fun hbeyond ↦ ?_⟩
    exact absurd (hwithin _ _ _ hadmitted hexps) (not_le.mpr hbeyond)

/-- The stored exponents are right after every run. A history beyond three decades is
never refused: the transaction that would say so breaks the CHECK. -/
theorem refused_iff_within_decades (utcOffset : Instant → ℤ)
    (registry : String → Option Registration) (calls : List IngestCall) :
    (∀ code, Corrected (((Store.start registry).after utcOffset calls).values code)) ∧
    ((∀ before call rest, calls = before ++ call :: rest →
        Understands utcOffset ((Store.start registry).after utcOffset before) call) ↔
      ∀ before call rest, calls = before ++ call :: rest →
        WithinDecades utcOffset ((Store.start registry).after utcOffset before) call) ∧
    ∀ before call rest, calls = before ++ call :: rest → ∀ m,
      mergeHistory utcOffset ((Store.start registry).after utcOffset before) call = .ok m →
      ((∃ result, ingestIndexHistory utcOffset ((Store.start registry).after utcOffset before)
        call = .ok result) ↔ worstExp m.exps ≤ maxAbsExp) := by
  have hsound (before : List IngestCall) := sound_after utcOffset registry before
  refine ⟨fun code ↦ (hsound calls code).corrected, ?_, fun before call rest _ m hm ↦ ?_⟩
  · exact forall₄_congr (fun before call rest _ ↦ understands_iff (hsound before) call)
  · rw [← writeHistory_iff call (mergeHistory_ok hm).2.2 (hsound before m.history.insCode).nodup]
    exact exists_congr (fun result ↦ bind_eq_ok.trans
      ⟨fun ⟨m', hm', h⟩ ↦ by rwa [Except.ok.inj (hm'.symm.trans hm)] at h, fun h ↦ ⟨m, hm, h⟩⟩)

def session (tradeDate : Date) (close : ℚ) : RawValue where
  insCode := "32097828799138957"
  value := { tradeDate := tradeDate, close := close, low := none, high := none }

def listed (code : String) : Option Registration :=
  if code = "32097828799138957" then
    some
      { nameFa := "", enabled := true, firstDate := none, lastDate := none, valueCount := 0,
        updatedAt := 0 }
  else none

def flatHistory : IngestCall where
  payload := [session 1 100, session 2 100, session 3 100]
  live := fun _ ↦ none
  now := 0

def risingHistory : IngestCall where
  payload := flatHistory.payload ++ [session 4 1000, session 5 10000, session 6 100000,
    session 7 1000000]
  live := fun _ ↦ none
  now := 0

theorem validated_verdict_stands :
    ¬ ∀ (utcOffset : Instant → ℤ) (registry : String → Option Registration)
      (calls : List IngestCall) (call : IngestCall) (m : Merged),
      mergeHistory utcOffset ((Store.start registry).after utcOffset calls) call = .ok m →
        maxAbsExp < worstExp m.exps →
          ∀ check ∈ ((Store.start registry).after utcOffset (calls ++ [call])).checks
            m.history.insCode, check.verdict.status = .refused := by
  intro hall
  have hmerge : ((mergeHistory (fun _ ↦ 0) ((Store.start listed).after (fun _ ↦ 0) [flatHistory])
      risingHistory).toOption.map (fun m ↦ (m.history.insCode, worstExp m.exps))) =
      some ("32097828799138957", 4) := by decide +kernel
  have hstands : (((Store.start listed).after (fun _ ↦ 0) [flatHistory, risingHistory]).checks
      "32097828799138957").map (fun check ↦ check.verdict.status) = some .validated := by
    decide +kernel
  cases hm : mergeHistory (fun _ ↦ 0) ((Store.start listed).after (fun _ ↦ 0) [flatHistory])
      risingHistory with
  | error e =>
    rw [hm] at hmerge
    cases hmerge
  | ok m =>
    rw [hm] at hmerge
    obtain ⟨hcode, hworst⟩ := Prod.mk.inj (Option.some.inj hmerge)
    obtain ⟨check, hcheck, hstatus⟩ := Option.map_eq_some_iff.mp hstands
    have hrefused := hall _ _ _ _ m hm (by rw [hworst]; decide) check (by rw [hcode]; exact hcheck)
    rw [hstatus] at hrefused
    cases hrefused

end TalaPala.Bourse
