import TalaPala.Bourse.Ingest
import TalaPala.Library.Latest
import Mathlib.Data.String.Basic

namespace TalaPala.Bourse

open Library List

def maxDelistFraction : ℚ := 1 / 2

def delistGuardMin : ℕ := 50

def delistGuardMarketMin : ℕ := 5

def tradedListingSessions : ℕ := 20

def dateCheckMin : ℕ := 5

def dateCheckTolerance : ℚ := 1 / 100

structure ShareFields where
  insID : String
  symbolFa : String
  nameFa : String
  market : String
  board : String
  companyCode : String
  sectorCode : String
  deriving DecidableEq

structure ShareRow where
  insCode : String
  fields : ShareFields
  listed : Bool
  firstSeenAt : Instant
  lastSeenAt : Instant
  updatedAt : Instant

structure FlowRow where
  insCode : String
  tradeDate : Date
  buyIValue : ℚ
  buyNValue : ℚ

def FlowRow.total (f : FlowRow) : ℚ := f.buyIValue + f.buyNValue

structure Session where
  close : ℚ
  lastTrade : Option ℚ
  priceYesterday : ℚ
  value : ℚ
  volume : ℚ
  trades : ℕ

structure SessionRow where
  insCode : String
  tradeDate : Date
  session : Session
  collectedAt : Instant

structure SessionFile where
  tradeDate : Date
  rowsTotal : ℕ
  rowsShares : ℕ
  ingestedAt : Instant

/-- `market_shares`, `market_session_files`, `market_share_sessions` and
`equity_client_flows`. -/
structure ShareTables where
  shares : List ShareRow
  files : List SessionFile
  sessions : List SessionRow
  flows : List FlowRow

/-- The numbers of a day-file row, `none` where the field holds no number; the
last trade may be null. -/
structure RawSession where
  pClosing : Option ℚ
  priceYesterday : Option ℚ
  pDrCotVal : Option (Option ℚ)
  qTotCap : Option ℚ
  qTotTran5J : Option ℚ
  zTotTran : Option ℕ

structure DayFile where
  rows : List (String × RawSession)
  codes : (rows.map Prod.fst).Nodup

structure MarketWatch where
  shares : List (String × ShareFields)
  codes : (shares.map Prod.fst).Nodup

def parseSessionRow (row : RawSession) : Option Session := do
  let close ← row.pClosing
  guard (0 < close)
  let reference ← row.priceYesterday
  guard (0 < reference)
  let lastTrade ← row.pDrCotVal.getD (some 0)
  guard (0 ≤ lastTrade)
  let value ← row.qTotCap
  let volume ← row.qTotTran5J
  guard (0 ≤ value ∧ 0 ≤ volume)
  let trades ← row.zTotTran
  return ⟨close, if lastTrade = 0 then none else some lastTrade, reference, value, volume, trades⟩

def DayFile.valid (file : DayFile) (code : String) : Option Session :=
  (file.rows.lookup code).bind parseSessionRow

def ShareTables.knows (db : ShareTables) (code : String) : Bool :=
  db.shares.any (·.insCode = code)

def ShareTables.stored (db : ShareTables) (code : String) (d : Date) : Option SessionRow :=
  db.sessions.find? (fun s ↦ decide (s.insCode = code) && decide (s.tradeDate = d))

def ShareTables.record (db : ShareTables) (d : Date) : Option SessionFile :=
  db.files.find? (·.tradeDate = d)

def incompleteSessionDates (db : ShareTables) : List Date :=
  keys id ((db.files.filter (fun d ↦ db.flows.any (fun f ↦ decide (f.tradeDate = d.tradeDate) &&
    db.shares.any (fun m ↦ decide (m.insCode = f.insCode) &&
      decide (d.ingestedAt < m.firstSeenAt)) &&
    decide (0 < f.total) && (db.stored f.insCode f.tradeDate).isNone))).map SessionFile.tradeDate)

section Mirror

def recentlyTraded (db : ShareTables) : List String :=
  let newest := (latest SessionFile.tradeDate tradedListingSessions db.files).map
    SessionFile.tradeDate
  (db.sessions.filter (fun s ↦ newest.contains s.tradeDate)).map SessionRow.insCode

inductive UniverseError
  | delistsMostShares (delisted listed : ℕ)
  | delistsMostOfMarket (market : String) (gone held : ℕ)

def mirror (watch : MarketWatch) (traded : List String) (at' : Instant) (row : ShareRow) :
    ShareRow :=
  match watch.shares.lookup row.insCode with
  | some fields =>
    if row.listed && decide (row.fields = fields) then { row with lastSeenAt := at' }
    else { row with fields := fields, listed := true, lastSeenAt := at', updatedAt := at' }
  | none =>
    if row.listed && !traded.contains row.insCode then
      { row with listed := false, updatedAt := at' }
    else if !row.listed && traded.contains row.insCode then
      { row with listed := true, updatedAt := at' }
    else row

def newShares (db : ShareTables) (watch : MarketWatch) : List (String × ShareFields) :=
  watch.shares.filter (fun share ↦ !db.knows share.1)

def ingestUniverse (db : ShareTables) (watch : MarketWatch) (at' : Instant) :
    Except UniverseError ShareTables :=
  let traded := recentlyTraded db
  let listedBefore := db.shares.filter (·.listed)
  let delisted := listedBefore.filter (fun row ↦
    (watch.shares.lookup row.insCode).isNone && !traded.contains row.insCode)
  let gone (market : String) := delisted.countP (·.fields.market = market)
  let held (market : String) := listedBefore.countP (·.fields.market = market)
  if delistGuardMin ≤ delisted.length ∧
      maxDelistFraction * listedBefore.length < delisted.length then
    .error (.delistsMostShares delisted.length listedBefore.length)
  else
    match (keys id (delisted.map (·.fields.market))).find? (fun market ↦
        decide (delistGuardMarketMin ≤ gone market) &&
          decide (maxDelistFraction * held market < gone market)) with
    | some market => .error (.delistsMostOfMarket market (gone market) (held market))
    | none => .ok { db with shares := db.shares.map (mirror watch traded at') ++
        (newShares db watch).map (fun share ↦ ⟨share.1, share.2, true, at', at', at'⟩) }

end Mirror

section DayFiles

inductive DayFileError
  | notSettled
  | wrongSessionFile (agreed compared : ℕ)
  | contradiction (restated compared : ℕ)

inductive FileState
  | inserted
  | updated
  | rechecked
  | unchanged
  deriving DecidableEq

def closeEnough (left right : ℚ) : Bool :=
  decide (|left - right| ≤ 1e-12 * max (max |left| |right|) 1)

def closeEnough? : Option ℚ → Option ℚ → Bool
  | none, none => true
  | some left, some right => closeEnough left right
  | _, _ => false

def Session.agrees (old new : Session) : Bool :=
  closeEnough old.close new.close && closeEnough? old.lastTrade new.lastTrade &&
    closeEnough old.priceYesterday new.priceYesterday && closeEnough old.value new.value &&
    closeEnough old.volume new.volume && closeEnough old.trades new.trades

def knownSessions (file : DayFile) (known : List String) : List (String × Session) :=
  file.rows.filterMap (fun row ↦
    if known.contains row.1 then (parseSessionRow row.2).map (row.1, ·) else none)

def dateCheck (flows : List FlowRow) (d : Date) (sessions : List (String × Session)) : ℕ × ℕ :=
  let totals := sessions.filterMap (fun s ↦
    (flows.find? (fun f ↦ decide (f.insCode = s.1) && decide (f.tradeDate = d))).map
      (fun f ↦ (s.2.value, f.total)))
  (totals.countP (fun t ↦ |t.1 - t.2| ≤ dateCheckTolerance * max |t.1| |t.2|), totals.length)

def fileState (db : ShareTables) (d : Date) (rowsTotal rowsShares : ℕ)
    (pending : List (String × Session)) : FileState :=
  match db.record d with
  | none => .inserted
  | some old =>
    if pending ≠ [] ∨ old.rowsTotal ≠ rowsTotal ∨ old.rowsShares ≠ rowsShares then .updated
    else if db.shares.any (old.ingestedAt < ·.firstSeenAt) then .rechecked
    else .unchanged

def pendingSessions (db : ShareTables) (d : Date) (sessions : List (String × Session)) :
    List (String × Session) :=
  sessions.filter (fun s ↦ (db.stored s.1 d).isNone)

def DayFile.fileState (db : ShareTables) (file : DayFile) (d : Date) (known : List String) :
    FileState :=
  let sessions := knownSessions file known
  Bourse.fileState db d file.rows.length sessions.length (pendingSessions db d sessions)

def writeRecord (files : List SessionFile) (record : SessionFile) : FileState → List SessionFile
  | .inserted => files ++ [record]
  | .updated => files.map (fun r ↦ if r.tradeDate = record.tradeDate then record else r)
  | .rechecked => files.map (fun r ↦
      if r.tradeDate = record.tradeDate then { r with ingestedAt := record.ingestedAt } else r)
  | .unchanged => files

def ingestDayFile (utcOffset : Instant → ℤ) (db : ShareTables) (file : DayFile) (tradeDate : Date)
    (at' : Instant) (known : List String) : Except DayFileError ShareTables :=
  if settledCutoff utcOffset at' ≤ tradeDate then .error .notSettled
  else
    let sessions := knownSessions file known
    let (agreed, compared) := dateCheck db.flows tradeDate sessions
    if dateCheckMin ≤ compared ∧ agreed * 2 < compared then
      .error (.wrongSessionFile agreed compared)
    else
      let overlap := sessions.filterMap (fun s ↦
        (db.stored s.1 tradeDate).map (·.session.agrees s.2))
      let restated := overlap.countP (· = false)
      if restatementIsSystematic restated overlap.length then
        .error (.contradiction restated overlap.length)
      else
        let pending := pendingSessions db tradeDate sessions
        .ok { db with
          sessions := db.sessions ++ pending.map (fun s ↦ ⟨s.1, tradeDate, s.2, at'⟩)
          files := writeRecord db.files ⟨tradeDate, file.rows.length, sessions.length, at'⟩
            (file.fileState db tradeDate known) }

theorem mem_knownSessions {file : DayFile} {known : List String} {code : String}
    (hknown : code ∈ known) (hvalid : (file.valid code).isSome) :
    ∃ session, (code, session) ∈ knownSessions file known := by
  obtain ⟨session, hsession⟩ := Option.isSome_iff_exists.1 hvalid
  obtain ⟨raw, hlookup, hparse⟩ := Option.bind_eq_some_iff.1 hsession
  obtain ⟨before, after, hrows, -⟩ := lookup_eq_some_iff.1 hlookup
  refine ⟨session, mem_filterMap.2 ⟨(code, raw), ?_, ?_⟩⟩
  · rw [hrows]
    exact mem_append_right _ (mem_cons_self ..)
  · rw [if_pos (contains_iff_mem.2 hknown), hparse]
    rfl

theorem date_ne_of_record_none {db : ShareTables} {d : Date} (h : db.record d = none)
    {r : SessionFile} (hr : r ∈ db.files) : r.tradeDate ≠ d := by
  intro hdate
  exact find?_eq_none.1 h r hr (decide_eq_true hdate)

theorem record_of_inserted {db : ShareTables} {d : Date} {rowsTotal rowsShares : ℕ}
    {pending : List (String × Session)}
    (h : fileState db d rowsTotal rowsShares pending = .inserted) : db.record d = none := by
  rw [fileState] at h
  split at h
  · assumption
  · split_ifs at h

theorem mem_writeRecord {files : List SessionFile} {record r : SessionFile} {state : FileState}
    (hr : r ∈ writeRecord files record state) (hne : r.tradeDate ≠ record.tradeDate) :
    r ∈ files := by
  cases state with
  | inserted =>
    rcases mem_append.1 hr with hr | hr
    · exact hr
    · exact absurd (congrArg SessionFile.tradeDate (mem_singleton.1 hr)) hne
  | updated =>
    obtain ⟨old, hold, rfl⟩ := mem_map.1 hr
    split_ifs at hne ⊢ with hdate
    · exact absurd rfl hne
    · exact hold
  | rechecked =>
    obtain ⟨old, hold, rfl⟩ := mem_map.1 hr
    split_ifs at hne ⊢ with hdate
    · exact absurd hdate hne
    · exact hold
  | unchanged => exact hr

theorem ingestedAt_of_moved {files : List SessionFile} {record r : SessionFile}
    {state : FileState} (hmoved : state ≠ .unchanged)
    (hinserted : state = .inserted → ∀ old ∈ files, old.tradeDate ≠ record.tradeDate)
    (hr : r ∈ writeRecord files record state) (hdate : r.tradeDate = record.tradeDate) :
    r.ingestedAt = record.ingestedAt := by
  cases state with
  | inserted =>
    rcases mem_append.1 hr with hr | hr
    · exact absurd hdate (hinserted rfl r hr)
    · rw [mem_singleton.1 hr]
  | updated =>
    obtain ⟨old, -, rfl⟩ := mem_map.1 hr
    split_ifs at hdate ⊢ with hold
    · rfl
    · exact absurd hdate hold
  | rechecked =>
    obtain ⟨old, -, rfl⟩ := mem_map.1 hr
    split_ifs at hdate ⊢ with hold
    · rfl
    · exact absurd hdate hold
  | unchanged => exact absurd rfl hmoved

theorem ingestDayFile_ok {utcOffset : Instant → ℤ} {db db' : ShareTables} {file : DayFile}
    {d : Date} {at' : Instant} {known : List String}
    (h : ingestDayFile utcOffset db file d at' known = .ok db') :
    db' = { db with
      sessions := db.sessions ++
        (pendingSessions db d (knownSessions file known)).map (fun s ↦ ⟨s.1, d, s.2, at'⟩)
      files := writeRecord db.files
        ⟨d, file.rows.length, (knownSessions file known).length, at'⟩
        (file.fileState db d known) } := by
  simp only [ingestDayFile] at h
  split_ifs at h
  exact (Except.ok.inj h).symm

theorem stored_append {db : ShareTables} {more : List SessionRow} {code : String} {d : Date} :
    ShareTables.stored { db with sessions := db.sessions ++ more } code d =
      (db.stored code d).or (more.find? (fun s ↦ decide (s.insCode = code) &&
        decide (s.tradeDate = d))) :=
  find?_append

theorem stored_of_ingested {utcOffset : Instant → ℤ} {db db' : ShareTables} {file : DayFile}
    {d : Date} {at' : Instant} {known : List String} {code : String}
    (h : ingestDayFile utcOffset db file d at' known = .ok db') (hknown : code ∈ known)
    (hvalid : (file.valid code).isSome) : db'.stored code d ≠ none := by
  intro hnone
  obtain ⟨session, hsession⟩ := mem_knownSessions hknown hvalid
  rw [ingestDayFile_ok h] at hnone
  obtain ⟨hstored, hadded⟩ := Option.or_eq_none_iff.1 (stored_append.symm.trans hnone)
  have hpending : (code, session) ∈ pendingSessions db d (knownSessions file known) :=
    mem_filter.2 ⟨hsession, Option.isNone_iff_eq_none.2 hstored⟩
  have hmiss := find?_eq_none.1 hadded _ (mem_map_of_mem hpending)
  simp at hmiss

theorem isNone_of_ingested {utcOffset : Instant → ℤ} {db db' : ShareTables} {file : DayFile}
    {d d' : Date} {at' : Instant} {known : List String} {code : String}
    (h : ingestDayFile utcOffset db file d at' known = .ok db')
    (hnone : (db'.stored code d').isNone) : (db.stored code d').isNone := by
  rw [ingestDayFile_ok h, Option.isNone_iff_eq_none] at hnone
  exact Option.isNone_iff_eq_none.2 (Option.or_eq_none_iff.1 (stored_append.symm.trans hnone)).1

theorem mem_files_of_ingested {utcOffset : Instant → ℤ} {db db' : ShareTables} {file : DayFile}
    {d : Date} {at' : Instant} {known : List String} {r : SessionFile}
    (h : ingestDayFile utcOffset db file d at' known = .ok db') (hr : r ∈ db'.files)
    (hne : r.tradeDate ≠ d) : r ∈ db.files := by
  rw [ingestDayFile_ok h] at hr
  exact mem_writeRecord hr hne

theorem stamped_of_ingested {utcOffset : Instant → ℤ} {db db' : ShareTables} {file : DayFile}
    {d : Date} {at' : Instant} {known : List String} {r : SessionFile}
    (h : ingestDayFile utcOffset db file d at' known = .ok db')
    (hmoved : file.fileState db d known ≠ .unchanged) (hr : r ∈ db'.files)
    (hdate : r.tradeDate = d) : r.ingestedAt = at' := by
  rw [ingestDayFile_ok h] at hr
  refine ingestedAt_of_moved hmoved (fun hinserted old hold ↦ ?_) hr hdate
  exact date_ne_of_record_none (record_of_inserted hinserted) hold

end DayFiles

section Universe

theorem mirror_insCode (watch : MarketWatch) (traded : List String) (at' : Instant)
    (row : ShareRow) : (mirror watch traded at' row).insCode = row.insCode := by
  rw [mirror]
  split <;> split_ifs <;> rfl

theorem mirror_firstSeenAt (watch : MarketWatch) (traded : List String) (at' : Instant)
    (row : ShareRow) : (mirror watch traded at' row).firstSeenAt = row.firstSeenAt := by
  rw [mirror]
  split <;> split_ifs <;> rfl

theorem ingestUniverse_ok {db db' : ShareTables} {watch : MarketWatch} {at' : Instant}
    (h : ingestUniverse db watch at' = .ok db') :
    db' = { db with shares := db.shares.map (mirror watch (recentlyTraded db) at') ++
      (newShares db watch).map (fun share ↦ ⟨share.1, share.2, true, at', at', at'⟩) } := by
  simp only [ingestUniverse] at h
  split_ifs at h
  split at h
  · cases h
  · exact (Except.ok.inj h).symm

theorem mem_shares_of_universe {db db' : ShareTables} {watch : MarketWatch} {at' : Instant}
    (h : ingestUniverse db watch at' = .ok db') {row : ShareRow} (hrow : row ∈ db'.shares) :
    (∃ old ∈ db.shares, old.insCode = row.insCode ∧ old.firstSeenAt = row.firstSeenAt) ∨
      ((∃ share ∈ newShares db watch, share.1 = row.insCode) ∧ row.firstSeenAt = at') := by
  rw [ingestUniverse_ok h] at hrow
  rcases mem_append.1 hrow with hrow | hrow
  · obtain ⟨old, hold, rfl⟩ := mem_map.1 hrow
    exact .inl ⟨old, hold, (mirror_insCode ..).symm, (mirror_firstSeenAt ..).symm⟩
  · obtain ⟨share, hshare, rfl⟩ := mem_map.1 hrow
    exact .inr ⟨⟨share, hshare, rfl⟩, rfl⟩

end Universe

end TalaPala.Bourse
