import TalaPala.Bourse.OwedRows

namespace TalaPala.Bourse

open Library Transition

/-- One transaction of the share ingest. A day file is read against the shares that
its call knows; `flows` is whatever the flow ingest leaves. -/
inductive Ingest
  | marketWatch (watch : MarketWatch) (at' : Instant)
  | dayFile (d : Date) (file : DayFile) (at' : Instant) (known : List String)
  | flows (rows : List FlowRow) (at' : Instant)

def Ingest.at' : Ingest → Instant
  | .marketWatch _ at' | .dayFile _ _ at' _ | .flows _ at' => at'

section Steps

variable (utcOffset : Instant → ℤ)

/-- The tables after a transaction; one that raises is rolled back. -/
def ShareTables.apply (db : ShareTables) : Ingest → ShareTables
  | .marketWatch watch at' =>
    match ingestUniverse db watch at' with
    | .ok db' => db'
    | .error _ => db
  | .dayFile d file at' known =>
    match ingestDayFile utcOffset db file d at' known with
    | .ok db' => db'
    | .error _ => db
  | .flows rows _ => { db with flows := rows }

def nextTables (db : ShareTables) (ingest : Ingest) : Option ShareTables :=
  some (db.apply utcOffset ingest)

end Steps

def NoLaterShare (d : Date) (db : ShareTables) : Ingest → Prop
  | .marketWatch watch at' => (ingestUniverse db watch at').isOk → newShares db watch ≠ [] →
      ∀ r ∈ db.files, r.tradeDate = d → at' ≤ r.ingestedAt
  | _ => True

def Timed (utcOffset : Instant → ℤ) (d : Date) (db : ShareTables) : Ingest → Prop
  | .dayFile d' file at' known => d' = d →
      (ingestDayFile utcOffset db file d at' known).isOk →
        file.fileState db d known ≠ .unchanged → ∀ m ∈ db.shares, m.firstSeenAt ≤ at'
  | _ => True

def Checked (d : Date) (db : ShareTables) : Prop :=
  ∀ r ∈ db.files, r.tradeDate = d → ∀ m ∈ db.shares, m.firstSeenAt ≤ r.ingestedAt

section Checked

variable {utcOffset : Instant → ℤ} {db db' : ShareTables} {file : DayFile} {d : Date}
  {at' : Instant} {known : List String} {ingest : Ingest}

theorem Checked.not_incomplete (h : Checked d db) : d ∉ incompleteSessionDates db := by
  intro hmem
  rw [incompleteSessionDates, mem_keys] at hmem
  obtain ⟨d', hd', hsame⟩ := hmem
  obtain ⟨r, hr, hdate⟩ := List.mem_map.1 hd'
  obtain ⟨hr, howed⟩ := List.mem_filter.1 hr
  obtain ⟨f, -, howed⟩ := List.any_eq_true.1 howed
  simp only [Bool.and_eq_true, List.any_eq_true, decide_eq_true_eq] at howed
  obtain ⟨⟨⟨-, m, hm, -, hlater⟩, -⟩, -⟩ := howed
  exact absurd (h r hr (hdate.trans hsame) m hm) (not_le.2 hlater)

theorem fileState_unchanged {rowsTotal rowsShares : ℕ} {pending : List (String × Session)}
    (h : fileState db d rowsTotal rowsShares pending = .unchanged) :
    ∃ old, db.record d = some old ∧ ∀ m ∈ db.shares, m.firstSeenAt ≤ old.ingestedAt := by
  rw [fileState] at h
  split at h
  · cases h
  · rename_i old hold
    split_ifs at h with hmoved hshare
    refine ⟨old, hold, fun m hm ↦ not_lt.1 (fun hlater ↦ hshare ?_)⟩
    exact List.any_eq_true.2 ⟨m, hm, decide_eq_true hlater⟩

theorem record_unique (hfiles : (db.files.map SessionFile.tradeDate).Nodup) {old r : SessionFile}
    (hold : db.record d = some old) (hr : r ∈ db.files) (hdate : r.tradeDate = d) : r = old := by
  have hmem := List.mem_of_find?_eq_some hold
  have hsame : old.tradeDate = d := by simpa using List.find?_some hold
  exact List.inj_on_of_nodup_map hfiles hr hmem (hdate.trans hsame.symm)

theorem checked_of_ingested (hfiles : (db.files.map SessionFile.tradeDate).Nodup)
    (hseen : ∀ m ∈ db.shares, m.firstSeenAt ≤ at')
    (h : ingestDayFile utcOffset db file d at' known = .ok db') : Checked d db' := by
  intro r hr hdate m hm
  have hm : m ∈ db.shares := by rwa [ingestDayFile_ok h] at hm
  by_cases hstate : file.fileState db d known = .unchanged
  · obtain ⟨old, hold, hbefore⟩ := fileState_unchanged hstate
    have hr : r ∈ db.files := by
      rw [ingestDayFile_ok h, hstate] at hr
      exact hr
    rw [record_unique hfiles hold hr hdate]
    exact hbefore m hm
  · rw [stamped_of_ingested h hstate hr hdate]
    exact hseen m hm

theorem Checked.dayFile {d' : Date} (h : Checked d db)
    (htimed : Timed utcOffset d db (.dayFile d' file at' known))
    (hok : ingestDayFile utcOffset db file d' at' known = .ok db') : Checked d db' := by
  intro r hr hdate m hm
  have hm : m ∈ db.shares := by rwa [ingestDayFile_ok hok] at hm
  by_cases hsame : d' = d
  · subst hsame
    by_cases hstate : file.fileState db d' known = .unchanged
    · have hr : r ∈ db.files := by
        rw [ingestDayFile_ok hok, hstate] at hr
        exact hr
      exact h r hr hdate m hm
    · rw [stamped_of_ingested hok hstate hr hdate]
      exact htimed rfl (by rw [hok]; rfl) hstate m hm
  · exact h r (mem_files_of_ingested hok hr (fun h ↦ hsame (h.symm.trans hdate))) hdate m hm

theorem Checked.marketWatch {watch : MarketWatch} (h : Checked d db)
    (hlater : NoLaterShare d db (.marketWatch watch at'))
    (hok : ingestUniverse db watch at' = .ok db') : Checked d db' := by
  intro r hr hdate m hm
  have hr : r ∈ db.files := by rwa [ingestUniverse_ok hok] at hr
  rcases mem_shares_of_universe hok hm with ⟨old, hold, -, hfirst⟩ | ⟨⟨share, hshare, -⟩, hfirst⟩
  · rw [← hfirst]
    exact h r hr hdate old hold
  · rw [hfirst]
    exact hlater (by rw [hok]; rfl) (List.ne_nil_of_mem hshare) r hr hdate

theorem Checked.apply (h : Checked d db) (hlater : NoLaterShare d db ingest)
    (htimed : Timed utcOffset d db ingest) : Checked d (db.apply utcOffset ingest) := by
  cases ingest with
  | marketWatch watch at' =>
    rw [ShareTables.apply]
    split
    · rename_i hok
      exact h.marketWatch hlater hok
    · exact h
  | dayFile d' file at' known =>
    rw [ShareTables.apply]
    split
    · rename_i hok
      exact h.dayFile htimed hok
    · exact h
  | flows rows at' => exact h

theorem sessions_apply (db : ShareTables) (ingest : Ingest) :
    db.sessions <+: (db.apply utcOffset ingest).sessions := by
  cases ingest with
  | marketWatch watch at' =>
    rw [ShareTables.apply]
    split
    · rename_i hok
      rw [ingestUniverse_ok hok]
    · exact List.prefix_rfl
  | dayFile d' file at' known =>
    rw [ShareTables.apply]
    split
    · rename_i hok
      rw [ingestDayFile_ok hok]
      exact List.prefix_append _ _
    · exact List.prefix_rfl
  | flows rows at' => exact List.prefix_rfl

theorem apply_of_error {error : DayFileError}
    (h : ingestDayFile utcOffset db file d at' known = .error error) :
    db.apply utcOffset (.dayFile d file at' known) = db := by
  rw [ShareTables.apply, h]

/-- A day that a file was read for after every share is not asked for again, as long
as no share joins after it and its later files come after every share. -/
theorem checked_day_stays_out (hfiles : (db.files.map SessionFile.tradeDate).Nodup)
    (hseen : ∀ m ∈ db.shares, m.firstSeenAt ≤ at')
    (hfirst : ingestDayFile utcOffset db file d at' (db.shares.map ShareRow.insCode) = .ok db')
    {later : List Ingest} {end' : ShareTables}
    (hrun : Run (nextTables utcOffset)
      (fun db ingest ↦ NoLaterShare d db ingest ∧ Timed utcOffset d db ingest) db' later end') :
    d ∉ incompleteSessionDates end' ∧ db.sessions <+: end'.sessions ∧
      ∀ db file d at' known error, ingestDayFile utcOffset db file d at' known = .error error →
        db.apply utcOffset (.dayFile d file at' known) = db := by
  refine ⟨?_, ?_, fun db file d at' known error h ↦ apply_of_error h⟩
  · have hend : Checked d end' := by
      refine hrun.preserves (fun db ingest db' hdb hok hnext ↦ ?_)
        (checked_of_ingested hfiles hseen hfirst)
      obtain rfl := Option.some.inj hnext
      exact hdb.apply hok.1 hok.2
    exact hend.not_incomplete
  · have hstart : db.sessions <+: db'.sessions := by
      rw [ingestDayFile_ok hfirst]
      exact List.prefix_append _ _
    refine hstart.trans (hrun.climbs (R := fun db db' ↦ db.sessions <+: db'.sessions)
      (fun _ ↦ List.prefix_rfl)
      (fun s t u (h : s.sessions <+: t.sessions) (h' : t.sessions <+: u.sessions) ↦ h.trans h')
      (fun db ingest db' _ hnext ↦ ?_))
    obtain rfl := Option.some.inj hnext
    exact sessions_apply db ingest

end Checked

section Example

def newcomerTables : ShareTables where
  shares := [⟨"IRO1NEWC", ⟨"1", "newcomer", "newcomer", "bourse", "1", "2", "34"⟩, true,
    morning 7, morning 7, morning 7⟩]
  files := []
  sessions := []
  flows := [newcomerFlow]

def fundRow : RawSession := ⟨some 110, some 100, some (some 112), some 5500, some 50, some 4⟩

def fundsFile : DayFile where
  rows := [("IRT1FUND", fundRow), ("IRT3FUND", fundRow)]
  codes := by decide

def shortFundsFile : DayFile where
  rows := [("IRT1FUND", fundRow)]
  codes := by decide

def checkedTables : ShareTables :=
  newcomerTables.apply tehranOffset (.dayFile 739000 fundsFile (morning 10) ["IRO1NEWC"])

theorem ingested_newcomer : ingestDayFile tehranOffset newcomerTables fundsFile 739000
    (morning 10) (newcomerTables.shares.map ShareRow.insCode) = .ok checkedTables := rfl

theorem firstSeenAt_newcomer : ∀ m ∈ newcomerTables.shares, m.firstSeenAt ≤ morning 10 := by
  decide

theorem checked_day_stays_out_newcomer : 739000 ∉ incompleteSessionDates
    (checkedTables.apply tehranOffset (.dayFile 739000 shortFundsFile (morning 12) [])) := by
  have hlater : Run (nextTables tehranOffset)
      (fun db ingest ↦ NoLaterShare 739000 db ingest ∧ Timed tehranOffset 739000 db ingest)
      checkedTables [.dayFile 739000 shortFundsFile (morning 12) []]
      (checkedTables.apply tehranOffset (.dayFile 739000 shortFundsFile (morning 12) [])) :=
    .cons ⟨trivial, fun _ _ _ ↦ by decide⟩ rfl (.nil _)
  have hfiles : (newcomerTables.files.map SessionFile.tradeDate).Nodup := List.nodup_nil
  exact (checked_day_stays_out hfiles firstSeenAt_newcomer ingested_newcomer hlater).1

/-- A call that started before the share joined reads the day once more. -/
theorem older_call_asks_again :
    ¬ ∀ db file d at' db', (db.files.map SessionFile.tradeDate).Nodup →
      (∀ m ∈ db.shares, m.firstSeenAt ≤ at') →
      ingestDayFile tehranOffset db file d at' (db.shares.map ShareRow.insCode) = .ok db' →
        ∀ later end', Run (nextTables tehranOffset) (NoLaterShare d) db' later end' →
          d ∉ incompleteSessionDates end' := by
  intro hall
  have hout := hall newcomerTables fundsFile 739000 (morning 10) checkedTables List.nodup_nil
    firstSeenAt_newcomer ingested_newcomer
    [.dayFile 739000 shortFundsFile (morning 5) ["IRO1NEWC"]] _ (.cons trivial rfl (.nil _))
  exact absurd hout (by decide +kernel)

end Example

end TalaPala.Bourse
