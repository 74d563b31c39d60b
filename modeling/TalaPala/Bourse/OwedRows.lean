import TalaPala.Bourse.Shares
import TalaPala.Library.Transition

namespace TalaPala.Bourse

open Library Transition

inductive CallPhase
  | started (at' : Instant)
  | ingesting (at' : Instant) (known : List String)
  | committed

structure System where
  db : ShareTables
  starts : List Instant
  call : ℕ → Option CallPhase
  latestFile : Date → Option DayFile

def System.start (seeded : List ShareRow) : System where
  db := ⟨seeded, [], [], []⟩
  starts := []
  call := fun _ ↦ none
  latestFile := fun _ ↦ none

/-- One transaction or one moment of a call. `storeFlows` is whatever the flow
ingest leaves. -/
inductive Event
  | start (call : ℕ) (at' : Instant)
  | ingestUniverse (call : ℕ) (watch : MarketWatch)
  | readShares (call : ℕ)
  | ingestDayFile (call : ℕ) (d : Date) (file : DayFile)
  | storeFlows (rows : List FlowRow)

section Steps

variable (utcOffset : Instant → ℤ)

def System.setCall (s : System) (call : ℕ) (phase : CallPhase) : System :=
  { s with call := Function.update s.call call (some phase) }

def System.startedAt (s : System) (call : ℕ) : Option Instant :=
  match s.call call with
  | some (.started at') => some at'
  | _ => none

def System.ingestingAt (s : System) (call : ℕ) : Option (Instant × List String) :=
  match s.call call with
  | some (.ingesting at' known) => some (at', known)
  | _ => none

def System.lists (s : System) (d : Date) (code : String) : Bool :=
  ((s.latestFile d).bind (·.valid code)).isSome

def next (s : System) : Event → Option System
  | .start call at' =>
    if (s.call call).isSome ∨ at' ∈ s.starts then none
    else some ({ s with starts := at' :: s.starts }.setCall call (.started at'))
  | .ingestUniverse call watch =>
    match s.call call with
    | some (.started at') =>
      match ingestUniverse s.db watch at' with
      | .ok db => some ({ s with db := db }.setCall call .committed)
      | .error _ => some (s.setCall call .committed)
    | _ => none
  | .readShares call =>
    match s.call call with
    | some (.started at') =>
      some (s.setCall call (.ingesting at' (s.db.shares.map ShareRow.insCode)))
    | _ => none
  | .ingestDayFile call d file =>
    match s.call call with
    | some (.ingesting at' known) =>
      match ingestDayFile utcOffset s.db file d at' known with
      | .ok db => some { s with
          db := db, latestFile := Function.update s.latestFile d (some file) }
      | .error _ => some s
    | _ => none
  | .storeFlows rows => some { s with db := { s.db with flows := rows } }

/-- Stamps in the order of what was read: a share is newer than every ingest of a day that
lists it, and a day file with a share its call did not read is stamped before the share,
on a record that moves. -/
def inOrder (s : System) : Event → Prop
  | .ingestUniverse call watch => ∀ at' ∈ s.startedAt call,
      (ingestUniverse s.db watch at').isOk → ∀ share ∈ newShares s.db watch, ∀ r ∈ s.db.files,
        s.lists r.tradeDate share.1 → r.ingestedAt < at'
  | .ingestDayFile call d file => ∀ read ∈ s.ingestingAt call,
      (ingestDayFile utcOffset s.db file d read.1 read.2).isOk → ∀ row ∈ s.db.shares,
        row.insCode ∉ read.2 → (file.valid row.insCode).isSome →
          (s.db.stored row.insCode d).isNone →
            read.1 < row.firstSeenAt ∧ file.fileState s.db d read.2 ≠ .unchanged
  | _ => True

instance (s : System) : DecidablePred (inOrder utcOffset s)
  | .start .. => .isTrue trivial
  | .ingestUniverse call _ => Option.decidableForallMem (s.startedAt call)
  | .readShares _ => .isTrue trivial
  | .ingestDayFile call _ _ => Option.decidableForallMem (s.ingestingAt call)
  | .storeFlows _ => .isTrue trivial

end Steps

def Owes (s : System) (d : Date) (code : String) : Prop :=
  s.db.knows code ∧ (s.db.record d).isSome ∧ s.lists d code ∧
    (∃ f ∈ s.db.flows, f.insCode = code ∧ f.tradeDate = d ∧ 0 < f.total) ∧
    (s.db.stored code d).isNone

instance (s : System) (d : Date) (code : String) : Decidable (Owes s d code) :=
  inferInstanceAs (Decidable (_ ∧ _))

def Asked (s : System) : Prop :=
  ∀ r ∈ s.db.files, ∀ row ∈ s.db.shares, s.lists r.tradeDate row.insCode →
    (s.db.stored row.insCode r.tradeDate).isNone → r.ingestedAt < row.firstSeenAt

theorem Asked.named {s : System} (h : Asked s) {d : Date} {code : String}
    (howes : Owes s d code) : d ∈ incompleteSessionDates s.db := by
  obtain ⟨hknows, hrecord, hlists, htraded, hstored⟩ := howes
  obtain ⟨f, hf, rfl, rfl, htotal⟩ := htraded
  obtain ⟨r, hr⟩ := Option.isSome_iff_exists.1 hrecord
  rw [ShareTables.record] at hr
  have hmem := List.mem_of_find?_eq_some hr
  have hdate : r.tradeDate = f.tradeDate := by simpa using List.find?_some hr
  obtain ⟨row, hrow, hcode⟩ := List.any_eq_true.1 hknows
  have hcode := of_decide_eq_true hcode
  have hafter : r.ingestedAt < row.firstSeenAt :=
    h r hmem row hrow (hcode ▸ hdate ▸ hlists) (by rw [hcode, hdate, hstored])
  rw [incompleteSessionDates, mem_keys]
  refine ⟨f.tradeDate, List.mem_map.2 ⟨r, List.mem_filter.2 ⟨hmem, ?_⟩, hdate⟩, rfl⟩
  refine List.any_eq_true.2 ⟨f, hf, ?_⟩
  have hjoined : s.db.shares.any (fun m ↦ decide (m.insCode = f.insCode) &&
      decide (r.ingestedAt < m.firstSeenAt)) = true :=
    List.any_eq_true.2 ⟨row, hrow, by rw [decide_eq_true hcode, decide_eq_true hafter]; rfl⟩
  rw [hjoined, decide_eq_true hdate.symm, decide_eq_true htotal, hstored]
  rfl

section Preserved

variable {utcOffset : Instant → ℤ} {s t : System}

theorem asked_setCall {call : ℕ} {phase : CallPhase} (h : Asked s) :
    Asked (s.setCall call phase) := h

theorem asked_universe {call : ℕ} {watch : MarketWatch} {at' : Instant} {db : ShareTables}
    (h : Asked s) (hcall : s.call call = some (.started at'))
    (hok : inOrder utcOffset s (.ingestUniverse call watch))
    (hdb : ingestUniverse s.db watch at' = .ok db) : Asked { s with db := db } := by
  intro r (hr : r ∈ db.files) row (hrow : row ∈ db.shares)
    (hlists : s.lists r.tradeDate row.insCode)
    (hstored : (db.stored row.insCode r.tradeDate).isNone)
  have hsessions : db.stored = s.db.stored := by rw [ingestUniverse_ok hdb]; rfl
  rw [hsessions] at hstored
  have hr : r ∈ s.db.files := by rwa [ingestUniverse_ok hdb] at hr
  rcases mem_shares_of_universe hdb hrow with
    ⟨old, hold, hcode, hfirst⟩ | ⟨⟨share, hshare, hcode⟩, hfirst⟩
  · rw [← hfirst]
    rw [← hcode] at hlists hstored
    exact h r hr old hold hlists hstored
  · rw [hfirst]
    rw [← hcode] at hlists
    have hstarted : s.startedAt call = some at' := by rw [System.startedAt, hcall]
    exact hok at' hstarted (by rw [hdb]; rfl) share hshare r hr hlists

theorem asked_dayFile {call : ℕ} {d : Date} {file : DayFile} {at' : Instant}
    {known : List String} {db : ShareTables} (h : Asked s)
    (hcall : s.call call = some (.ingesting at' known))
    (hok : inOrder utcOffset s (.ingestDayFile call d file))
    (hdb : ingestDayFile utcOffset s.db file d at' known = .ok db) :
    Asked { s with db := db, latestFile := Function.update s.latestFile d (some file) } := by
  intro r (hr : r ∈ db.files) row (hrow : row ∈ db.shares) hlists
    (hstored : (db.stored row.insCode r.tradeDate).isNone)
  have hrow : row ∈ s.db.shares := by rwa [ingestDayFile_ok hdb] at hrow
  have hbefore : (s.db.stored row.insCode r.tradeDate).isNone := isNone_of_ingested hdb hstored
  rw [System.lists] at hlists
  by_cases hdate : r.tradeDate = d
  · have hvalid : (file.valid row.insCode).isSome := by
      simpa only [hdate, Function.update_self, Option.bind_some] using hlists
    rw [hdate] at hbefore hstored
    have hunknown : row.insCode ∉ known := fun hknown ↦
      stored_of_ingested hdb hknown hvalid (Option.isNone_iff_eq_none.1 hstored)
    have hread : s.ingestingAt call = some (at', known) := by rw [System.ingestingAt, hcall]
    obtain ⟨hjoined, hmoved⟩ :=
      hok (at', known) hread (by rw [hdb]; rfl) row hrow hunknown hvalid hbefore
    rw [stamped_of_ingested hdb hmoved hr hdate]
    exact hjoined
  · simp only [Function.update_of_ne hdate] at hlists
    exact h r (mem_files_of_ingested hdb hr hdate) row hrow hlists hbefore

theorem asked_next {event : Event} (h : Asked s) (hok : inOrder utcOffset s event)
    (hnext : next utcOffset s event = some t) : Asked t := by
  cases event with
  | start call at' =>
    simp only [next] at hnext
    split_ifs at hnext
    cases hnext
    exact h
  | ingestUniverse call watch =>
    simp only [next] at hnext
    split at hnext
    · split at hnext
      · cases hnext
        rename_i at' hcall _ db hdb
        exact asked_setCall (asked_universe h hcall hok hdb)
      · cases hnext
        exact h
    · cases hnext
  | readShares call =>
    simp only [next] at hnext
    split at hnext
    · cases hnext
      exact h
    · cases hnext
  | ingestDayFile call d file =>
    simp only [next] at hnext
    split at hnext
    · split at hnext
      · cases hnext
        rename_i at' known hcall _ db hdb
        exact asked_dayFile h hcall hok hdb
      · cases hnext
        exact h
    · cases hnext
  | storeFlows rows =>
    cases hnext
    exact h

end Preserved

/-- Along a run whose steps are in the order of their stamps, every day that owes
a share a row is asked for again. -/
theorem owed_rows_are_asked_for (utcOffset : Instant → ℤ) (seeded : List ShareRow)
    {events : List Event} {t : System}
    (h : Run (next utcOffset) (inOrder utcOffset) (System.start seeded) events t)
    {d : Date} {code : String} (howes : Owes t d code) : d ∈ incompleteSessionDates t.db := by
  have hstart : Asked (System.start seeded) := fun r hr ↦ absurd hr List.not_mem_nil
  exact (h.preserves (fun _ _ _ hs hok hn ↦ asked_next hs hok hn) hstart).named howes

section Overlap

def tehranOffset : Instant → ℤ := fun _ ↦ 7 * (microsPerHour / 2)

def newcomerWatch : MarketWatch where
  shares := [("IRO1NEWC", ⟨"1", "newcomer", "newcomer", "bourse", "1", "2", "34"⟩)]
  codes := List.nodup_singleton _

def newcomerFile : DayFile where
  rows := [("IRO1NEWC", ⟨some 110, some 100, some (some 112), some 5500, some 50, some 4⟩)]
  codes := List.nodup_singleton _

def newcomerFlow : FlowRow := ⟨"IRO1NEWC", 739000, 3000, 2500⟩

def morning (k : ℤ) : Instant := (739010 - epochOrdinal) * (24 * microsPerHour) + k

def joinedLater : List Event :=
  [.start 0 (morning 1), .readShares 0, .ingestDayFile 0 739000 newcomerFile,
    .start 1 (morning 2), .ingestUniverse 1 newcomerWatch, .storeFlows [newcomerFlow]]

def joinedAcross : List Event :=
  [.start 0 (morning 1), .start 1 (morning 2), .readShares 1,
    .ingestDayFile 1 739000 newcomerFile, .ingestUniverse 0 newcomerWatch,
    .storeFlows [newcomerFlow]]

theorem owed_row_asked_for_joined_later : ∃ t,
    Run (next tehranOffset) (inOrder tehranOffset) (System.start []) joinedLater t ∧
      Owes t 739000 "IRO1NEWC" ∧ 739000 ∈ incompleteSessionDates t.db := by
  have hend : (execute (next tehranOffset) (fun s event ↦ decide (inOrder tehranOffset s event))
      (System.start []) joinedLater).any (fun t ↦ decide (Owes t 739000 "IRO1NEWC")) = true := by
    decide +kernel
  obtain ⟨t, ht, howes⟩ := (Option.any_eq_true _ _).1 hend
  have howes := of_decide_eq_true howes
  have hrun : Run (next tehranOffset) (inOrder tehranOffset) (System.start []) joinedLater t :=
    (run_of_execute ht).mono (fun _ _ h ↦ of_decide_eq_true h)
  exact ⟨t, hrun, howes, owed_rows_are_asked_for tehranOffset [] hrun howes⟩

/-- The share is stamped before the ingest that did not know it, and the row the
file had for it is never asked for. -/
theorem overlapping_calls_lose_a_row :
    ¬ ∀ s, Reachable (next tehranOffset) (System.start []) s → ∀ d code, Owes s d code →
      d ∈ incompleteSessionDates s.db := by
  intro hall
  have hend : (execute (next tehranOffset) (fun _ _ ↦ true) (System.start []) joinedAcross).any
      (fun t ↦ decide (Owes t 739000 "IRO1NEWC") &&
        decide (739000 ∉ incompleteSessionDates t.db)) = true := by decide +kernel
  obtain ⟨t, ht, hlost⟩ := (Option.any_eq_true _ _).1 hend
  rw [Bool.and_eq_true, decide_eq_true_eq, decide_eq_true_eq] at hlost
  exact hlost.2 (hall t (run_of_execute ht).reachable _ _ hlost.1)

end Overlap

end TalaPala.Bourse
