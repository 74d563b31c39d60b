import TalaPala.Economic.Archive
import TalaPala.Library.Ledger

namespace TalaPala.Economic

open Library List

inductive Provider
  | sci
  | cbi
  deriving DecidableEq

inductive SciCode
  | housing
  | rent
  | urban
  | vehicles
  deriving DecidableEq

inductive CbiCode
  | baseMoney
  | liquidity
  | moneyM1
  | quasiMoney
  deriving DecidableEq

inductive SeriesCode
  | sci (code : SciCode)
  | cbi (code : CbiCode)
  deriving DecidableEq

def epochOrdinal : Date := 719163

def microsPerDay : ℤ := 86400000000

def utcDate (t : Instant) : Date := t / microsPerDay + epochOrdinal

def utcMidnight (day : Date) : Instant := (day - epochOrdinal) * microsPerDay

def twoDigits (n : ℤ) : String := if 0 ≤ n ∧ n < 10 then "0" ++ toString n else toString n

def periodLabel (jy jm : ℤ) : String := toString jy ++ "-" ++ twoDigits jm

@[ext]
structure Edition where
  year : ℤ
  month : ℤ
  deriving DecidableEq

inductive EditionLabel
  | blank
  | tsdview
  | monthly (edition : Edition)
  deriving DecidableEq

structure Document where
  providerCode : Provider
  url : String
  title : String
  mediaType : String
  byteSize : ℕ
  contentSha256 : String
  fetchedAt : Instant
  editionLabel : EditionLabel := .blank
  documentSavedAt : Option Instant := none

structure Database where
  documents : List Document
  series : List SeriesCode
  rows : List Observation

def Database.empty : Database := ⟨[], [], []⟩

def Document.sameContent (document other : Document) : Bool :=
  decide (document.providerCode = other.providerCode) &&
    decide (document.contentSha256 = other.contentSha256)

def recordSourceDocument (db : Database) (document : Document) : Database × ℕ × Bool :=
  match db.documents.findIdx? (fun stored ↦ stored.sameContent document) with
  | some id => (db, id, false)
  | none =>
    ({ db with documents := db.documents ++ [document] }, db.documents.length, true)

def ensureSeries (db : Database) (code : SeriesCode) : Database × ℕ :=
  let series := if code ∈ db.series then db.series else db.series ++ [code]
  ({ db with series := series }, series.idxOf code)

def Database.rowsOf (db : Database) (code : SeriesCode) (start : Date) : List Observation :=
  periodRows (db.series.idxOf code, start) db.rows

def Database.current (db : Database) (code : SeriesCode) (start : Date) : Option Observation :=
  currentRow (db.rowsOf code start)

def Database.Says (db : Database) (code : SeriesCode) (start : Date) (value : Value)
    (method : Option Method) : Prop :=
  ∃ row, db.current code start = some row ∧ valuesEqual row.value value = true ∧
    row.method = method

theorem Database.Says_iff {db : Database} {code : SeriesCode} {start : Date} {value : Value}
    {method : Option Method} : (db.current code start).any
      (fun row ↦ valuesEqual row.value value && decide (row.method = method)) = true ↔
        db.Says code start value method := by
  rw [Option.any_eq_true]
  exact exists_congr (fun row ↦ by rw [Bool.and_eq_true, decide_eq_true_eq])

instance (db : Database) (code : SeriesCode) (start : Date) (value : Value)
    (method : Option Method) : Decidable (db.Says code start value method) :=
  decidable_of_iff _ Database.Says_iff

structure Database.Sound (db : Database) : Prop where
  kept : WellKept db.rows
  registered : ∀ r ∈ db.rows, r.seriesId < db.series.length

theorem Database.Sound.empty : Database.empty.Sound :=
  ⟨fun _ ↦ Ordered.nil, fun _ hr ↦ absurd hr not_mem_nil⟩

section Registration

variable {db : Database} {code code' : SeriesCode} {start : Date} {document : Document}

@[simp] theorem recordSourceDocument_rows :
    (recordSourceDocument db document).1.rows = db.rows := by
  rw [recordSourceDocument]
  split <;> rfl

@[simp] theorem recordSourceDocument_series :
    (recordSourceDocument db document).1.series = db.series := by
  rw [recordSourceDocument]
  split <;> rfl

theorem recordSourceDocument_cases (db : Database) (document : Document) :
    (∃ stored ∈ db.documents, stored.sameContent document = true ∧
      (recordSourceDocument db document).1 = db ∧
        db.documents[(recordSourceDocument db document).2.1]? = some stored) ∨
      ((recordSourceDocument db document).1.documents = db.documents ++ [document] ∧
        (recordSourceDocument db document).2.1 = db.documents.length) := by
  rw [recordSourceDocument]
  split
  · rename_i id hid
    obtain ⟨hlt, hsame, -⟩ := findIdx?_eq_some_iff_getElem.mp hid
    exact .inl ⟨db.documents[id], getElem_mem hlt, hsame, rfl, getElem?_eq_getElem hlt⟩
  · exact .inr ⟨rfl, rfl⟩

theorem recordSourceDocument_document (db : Database) (document : Document) :
    ∃ stored ∈ (recordSourceDocument db document).1.documents,
      (recordSourceDocument db document).1.documents[(recordSourceDocument db document).2.1]? =
        some stored ∧
      stored.sameContent document = true ∧ (stored ∈ db.documents ∨ stored = document) := by
  rcases recordSourceDocument_cases db document with ⟨stored, hmem, hsame, hdb, hget⟩ |
    ⟨hdocuments, hid⟩
  · refine ⟨stored, by rwa [hdb], by rwa [hdb], hsame, .inl hmem⟩
  · refine ⟨document, ?_, ?_, by simp [Document.sameContent], .inr rfl⟩
    · rw [hdocuments]
      exact mem_append_right _ mem_cons_self
    · rw [hdocuments, hid, getElem?_concat_length]

theorem recordSourceDocument_prefix :
    db.documents <+: (recordSourceDocument db document).1.documents := by
  rcases recordSourceDocument_cases db document with ⟨-, -, -, hdb, -⟩ | ⟨hdocuments, -⟩
  · rw [hdb]
  · rw [hdocuments]
    exact prefix_append _ _

theorem mem_recordSourceDocument {d : Document}
    (h : d ∈ (recordSourceDocument db document).1.documents) :
    d ∈ db.documents ∨ d = document := by
  rcases recordSourceDocument_cases db document with ⟨-, -, -, hdb, -⟩ | ⟨hdocuments, -⟩
  · rw [hdb] at h
    exact .inl h
  · rw [hdocuments] at h
    simpa using h

theorem ensureSeries_id : (ensureSeries db code).2 = (ensureSeries db code).1.series.idxOf code :=
  rfl

theorem mem_ensureSeries : code ∈ (ensureSeries db code).1.series := by
  rw [ensureSeries]
  dsimp only
  split
  · assumption
  · exact mem_append_right _ mem_cons_self

theorem ensureSeries_prefix : db.series <+: (ensureSeries db code).1.series := by
  rw [ensureSeries]
  dsimp only
  split
  · exact prefix_rfl
  · exact prefix_append _ _

theorem ensureSeries_sound (h : db.Sound) : (ensureSeries db code).1.Sound :=
  ⟨h.kept, fun r hr ↦ (h.registered r hr).trans_le ensureSeries_prefix.length_le⟩

theorem Database.Sound.rowsOf_eq_nil (h : db.Sound) {id : ℕ} (hid : db.series.length ≤ id) :
    periodRows (id, start) db.rows = [] := by
  refine filter_eq_nil_iff.mpr (fun r hr heq ↦ ?_)
  have hlt := h.registered r hr
  have hseries : r.seriesId = id := congrArg Prod.fst (of_decide_eq_true heq)
  omega

theorem Database.Sound.rowsOf_of_prefix (h : db.Sound) {db' : Database}
    (hrows : db'.rows = db.rows) (hseries : db.series <+: db'.series) :
    db'.rowsOf code' start = db.rowsOf code' start := by
  obtain ⟨rest, hrest⟩ := hseries
  rw [Database.rowsOf, Database.rowsOf, hrows, ← hrest]
  by_cases hmem : code' ∈ db.series
  · rw [idxOf_append_of_mem hmem]
  · rw [h.rowsOf_eq_nil (idxOf_eq_length hmem).ge, h.rowsOf_eq_nil]
    rw [idxOf_append_of_notMem hmem]
    omega

theorem ensureSeries_rowsOf (h : db.Sound) :
    (ensureSeries db code).1.rowsOf code' start = db.rowsOf code' start :=
  h.rowsOf_of_prefix rfl ensureSeries_prefix

theorem recordSourceDocument_rowsOf :
    (recordSourceDocument db document).1.rowsOf code' start = db.rowsOf code' start := by
  rw [Database.rowsOf, Database.rowsOf, recordSourceDocument_rows, recordSourceDocument_series]

theorem recordSourceDocument_sound (h : db.Sound) : (recordSourceDocument db document).1.Sound :=
  ⟨by rw [recordSourceDocument_rows]; exact h.kept, fun r hr ↦ by
    rw [recordSourceDocument_rows] at hr
    rw [recordSourceDocument_series]
    exact h.registered r hr⟩

end Registration

structure Counts where
  inserted : ℕ
  unchanged : ℕ
  revised : ℕ
  raced : ℕ

def Counts.zero : Counts := ⟨0, 0, 0, 0⟩

def Counts.add (counts other : Counts) : Counts where
  inserted := counts.inserted + other.inserted
  unchanged := counts.unchanged + other.unchanged
  revised := counts.revised + other.revised
  raced := counts.raced + other.raced

def countStatus (writes : List ObservationWrite) (status : WriteStatus) : ℕ :=
  writes.countP (fun write ↦ write.status = status)

def tally (writes : List ObservationWrite) : Counts where
  inserted := countStatus writes .inserted
  unchanged := countStatus writes .unchanged
  revised := countStatus writes .revised
  raced := countStatus writes .raced

structure Posting (α : Type) where
  start : α → Date
  value : α → Value
  method : SeriesCode → α → Option Method
  call : SeriesCode → ℕ → α → Call
  call_period : ∀ code id p, (call code id p).period = (id, start p)
  call_stored : ∀ code id p, ∃ number,
    (call code id p).value = some number ∧ storedValue number = .ok (value p)
  call_method : ∀ code id p, (call code id p).method = method code p
  value_ne_nan : ∀ p, value p ≠ .nan

section Writes

variable {ε α : Type} (guard : List Observation → Call → ObservationWrite → Option ε)
  (posting : Posting α)

def recordSeries (db : Database) (code : SeriesCode) (points : List α) :
    Except (ε ⊕ RecordError) (Database × List ObservationWrite) :=
  let (stored, seriesId) := ensureSeries db code
  match recordAll guard stored.rows (points.map (posting.call code seriesId)) with
  | .error e => .error e
  | .ok (rows, writes) => .ok ({ stored with rows := rows }, writes)

def recordMany : Database → List (SeriesCode × List α) →
    Except (ε ⊕ RecordError) (Database × List (SeriesCode × List ObservationWrite))
  | db, [] => .ok (db, [])
  | db, (code, points) :: entries =>
    match recordSeries guard posting db code points with
    | .error e => .error e
    | .ok (stored, writes) =>
      match recordMany stored entries with
      | .error e => .error e
      | .ok (final, rest) => .ok (final, (code, writes) :: rest)

variable {guard posting} {db db' : Database} {code code' : SeriesCode} {points : List α}
  {start : Date} {writes : List ObservationWrite}

def Posting.printed (posting : Posting α) (points : List α) (start : Date) : Option α :=
  lastOf (fun p ↦ posting.start p = start) points

theorem Posting.printed_mem {p : α} (h : posting.printed points start = some p) :
    p ∈ points ∧ posting.start p = start :=
  (mem_of_lastOf h).imp_right of_decide_eq_true

theorem Posting.printed_eq_none (h : posting.printed points start = none) :
    ∀ p ∈ points, posting.start p ≠ start :=
  fun p hp ↦ of_decide_eq_false (lastOf_eq_none.mp h p hp)

theorem Posting.check_value {id : ℕ} {p : α} {request : Request}
    (h : (posting.call code id p).check = .ok request) : request.value = posting.value p := by
  obtain ⟨number, hnumber, hstored⟩ := posting.call_stored code id p
  rw [Call.check, hnumber] at h
  dsimp only at h
  split at h
  · cases h
  · split at h
    · cases h
    · rw [hstored] at h
      obtain rfl := Except.ok.inj h
      rfl

theorem Posting.wrote_value {id : ℕ} {p : α} {r : Observation}
    (h : (posting.call code id p).Wrote r) : r.value = posting.value p := by
  obtain ⟨request, vintage, hcheck, rfl⟩ := h
  exact Posting.check_value hcheck

theorem Posting.call_sane {id : ℕ} {p : α} : (posting.call code id p).Sane := by
  intro request hcheck
  rw [Posting.check_value hcheck]
  exact posting.value_ne_nan p

theorem stated_iff {id : ℕ} {p : α} {rows : List Observation} :
    Stated rows (posting.call code id p) ↔
      (∃ request, (posting.call code id p).check = .ok request) ∧
        ∃ row, currentRow (periodRows (id, posting.start p) rows) = some row ∧
          valuesEqual row.value (posting.value p) = true ∧
            row.method = posting.method code p := by
  rw [Stated, posting.call_period]
  constructor
  · rintro ⟨request, hcheck, row, hrow, hstates⟩
    rw [Observation.states, Bool.and_eq_true, decide_eq_true_eq, Posting.check_value hcheck,
      Call.check_call hcheck, posting.call_method] at hstates
    exact ⟨⟨request, hcheck⟩, row, hrow, hstates⟩
  · rintro ⟨⟨request, hcheck⟩, row, hrow, hvalue, hmethod⟩
    refine ⟨request, hcheck, row, hrow, ?_⟩
    rw [Observation.states, Bool.and_eq_true, decide_eq_true_eq, Posting.check_value hcheck,
      Call.check_call hcheck, posting.call_method]
    exact ⟨hvalue, hmethod⟩

theorem recordSeries_ok (hdb : db.Sound)
    (h : recordSeries guard posting db code points = .ok (db', writes)) :
    db'.documents = db.documents ∧ db'.series = (ensureSeries db code).1.series ∧
      recordAll guard db.rows (points.map (posting.call code (db'.series.idxOf code))) =
        .ok (db'.rows, writes) ∧ db'.Sound := by
  rw [recordSeries] at h
  dsimp only at h
  split at h
  · cases h
  · rename_i rows writes' hrecord
    obtain ⟨rfl, rfl⟩ := Prod.mk.inj (Except.ok.inj h)
    refine ⟨rfl, rfl, hrecord, ?_⟩
    have hstored : (ensureSeries db code).1.Sound := ensureSeries_sound hdb
    refine ⟨recordAll_wellKept hstored.kept hrecord, fun r hr ↦ ?_⟩
    obtain ⟨new, hnew, hwrote⟩ := recordAll_rows hstored.kept hrecord
    dsimp only at hr
    rw [hnew] at hr
    rcases mem_append.mp hr with hr | hr
    · exact hstored.registered r hr
    · obtain ⟨c, hc, hr⟩ := hwrote r hr
      obtain ⟨p, -, rfl⟩ := mem_map.mp hc
      have hid : r.seriesId = (ensureSeries db code).2 :=
        congrArg Prod.fst (hr.period_eq.trans (posting.call_period _ _ _))
      rw [hid]
      exact idxOf_lt_length_of_mem mem_ensureSeries

theorem recordSeries_frame (hdb : db.Sound)
    (h : recordSeries guard posting db code points = .ok (db', writes))
    (hfree : code' = code → ∀ p ∈ points, posting.start p ≠ start) :
    db'.rowsOf code' start = db.rowsOf code' start := by
  obtain ⟨-, hseries, hrecord, -⟩ := recordSeries_ok hdb h
  have hrows : periodRows (db'.series.idxOf code', start) db'.rows =
      periodRows (db'.series.idxOf code', start) db.rows := by
    refine recordAll_frame hdb.kept hrecord (fun c hc ↦ ?_)
    obtain ⟨p, hp, rfl⟩ := mem_map.mp hc
    rw [posting.call_period]
    intro heq
    have hmem : code ∈ db'.series := hseries ▸ mem_ensureSeries
    have hcode : code = code' := (idxOf_inj hmem).mp (congrArg Prod.fst heq)
    exact hfree hcode.symm p hp (congrArg Prod.snd heq)
  rw [Database.rowsOf, hrows]
  exact hdb.rowsOf_of_prefix (show ({ db' with rows := db.rows } : Database).rows = _ from rfl)
    (hseries ▸ ensureSeries_prefix)

theorem recordSeries_states {p : α} (hdb : db.Sound)
    (h : recordSeries guard posting db code points = .ok (db', writes))
    (hlast : posting.printed points start = some p) :
    db'.Says code start (posting.value p) (posting.method code p) := by
  obtain ⟨-, -, hrecord, -⟩ := recordSeries_ok hdb h
  have hcall : ((points.map (posting.call code (db'.series.idxOf code))).filter
      (fun c ↦ c.period = (db'.series.idxOf code, start))).getLast? =
        some (posting.call code (db'.series.idxOf code) p) := by
    have hfilter : points.filter ((fun c ↦ decide (c.period = (db'.series.idxOf code, start))) ∘
        posting.call code (db'.series.idxOf code)) =
          points.filter (fun p ↦ posting.start p = start) := by
      refine filter_congr (fun p _ ↦ ?_)
      simp [posting.call_period]
    rw [filter_map, hfilter, getLast?_map]
    rw [Posting.printed, lastOf] at hlast
    rw [hlast]
    rfl
  have hsane : ∀ c ∈ points.map (posting.call code (db'.series.idxOf code)), c.Sane := by
    intro c hc
    obtain ⟨p, -, rfl⟩ := mem_map.mp hc
    exact Posting.call_sane
  have hstated := recordAll_stated hdb.kept hsane hrecord hcall
  rw [stated_iff, (Posting.printed_mem hlast).2] at hstated
  exact hstated.2

theorem Database.Says.congr {value : Value} {method : Option Method}
    (h : db'.rowsOf code start = db.rowsOf code start) (hs : db.Says code start value method) :
    db'.Says code start value method := by
  rw [Database.Says, Database.current, h]
  exact hs

theorem recordSeries_unchanged (hdb : db.Sound)
    (h : recordSeries guard posting db code points = .ok (db', writes))
    (hstates : ∀ p ∈ points, db.Says code (posting.start p) (posting.value p)
      (posting.method code p)) : db'.rows = db.rows := by
  obtain ⟨-, hseries, hrecord, -⟩ := recordSeries_ok hdb h
  refine recordAll_unchanged hdb.kept (fun c hc request hcheck ↦ ?_) hrecord
  obtain ⟨p, hp, rfl⟩ := mem_map.mp hc
  have hrows : db'.series.idxOf code = (ensureSeries db code).2 := by rw [hseries, ensureSeries_id]
  rw [stated_iff, hrows]
  exact ⟨⟨request, hrows ▸ hcheck⟩, (hstates p hp).congr (ensureSeries_rowsOf hdb)⟩

theorem recordSeries_rows (hdb : db.Sound)
    (h : recordSeries guard posting db code points = .ok (db', writes)) :
    ∃ new, db'.rows = db.rows ++ new ∧
      ∀ r ∈ new, ∃ p ∈ points, (posting.call code (db'.series.idxOf code) p).Wrote r := by
  obtain ⟨-, -, hrecord, -⟩ := recordSeries_ok hdb h
  obtain ⟨new, hnew, hwrote⟩ := recordAll_rows hdb.kept hrecord
  refine ⟨new, hnew, fun r hr ↦ ?_⟩
  obtain ⟨c, hc, hr⟩ := hwrote r hr
  obtain ⟨p, hp, rfl⟩ := mem_map.mp hc
  exact ⟨p, hp, hr⟩

theorem recordSeries_states_of_eq (hdb : db.Sound)
    (h : recordSeries guard posting db code points = .ok (db', writes))
    (hrows : db'.rows = db.rows) {p : α} (hp : p ∈ points) :
    db.Says code (posting.start p) (posting.value p) (posting.method code p) := by
  obtain ⟨-, hseries, hrecord, -⟩ := recordSeries_ok hdb h
  rw [hrows] at hrecord
  have hstated := recordAll_stated_of_eq hdb.kept hrecord _ (mem_map_of_mem hp)
  have hstates : db'.Says code (posting.start p) (posting.value p) (posting.method code p) := by
    rw [Database.Says, Database.current, Database.rowsOf, hrows]
    exact (stated_iff.mp hstated).2
  exact hstates.congr (hdb.rowsOf_of_prefix hrows (hseries ▸ ensureSeries_prefix)).symm

section Many

variable {entries : List (SeriesCode × List α)}
  {reports : List (SeriesCode × List ObservationWrite)}

theorem recordMany_cons {entry : SeriesCode × List α}
    (h : recordMany guard posting db (entry :: entries) = .ok (db', reports)) :
    ∃ stored writes rest, recordSeries guard posting db entry.1 entry.2 = .ok (stored, writes) ∧
      recordMany guard posting stored entries = .ok (db', rest) ∧
        reports = (entry.1, writes) :: rest := by
  rw [recordMany] at h
  split at h
  · cases h
  · rename_i stored writes hseries
    split at h
    · cases h
    · rename_i final rest hrest
      obtain ⟨rfl, rfl⟩ := Prod.mk.inj (Except.ok.inj h)
      exact ⟨stored, writes, rest, hseries, hrest, rfl⟩

theorem recordMany_ok (hdb : db.Sound)
    (h : recordMany guard posting db entries = .ok (db', reports)) :
    db'.Sound ∧ db'.documents = db.documents ∧ db.series <+: db'.series := by
  induction entries generalizing db reports with
  | nil =>
    obtain ⟨rfl, -⟩ := Prod.mk.inj (Except.ok.inj h)
    exact ⟨hdb, rfl, prefix_rfl⟩
  | cons entry entries ih =>
    obtain ⟨stored, writes, rest, hseries, hrest, -⟩ := recordMany_cons h
    obtain ⟨hdocuments, hregistered, -, hstored⟩ := recordSeries_ok hdb hseries
    obtain ⟨hsound, hdocuments', hprefix⟩ := ih hstored hrest
    have hfirst : db.series <+: stored.series := hregistered ▸ ensureSeries_prefix
    exact ⟨hsound, hdocuments'.trans hdocuments, hfirst.trans hprefix⟩

theorem recordMany_frame (hdb : db.Sound)
    (h : recordMany guard posting db entries = .ok (db', reports))
    (hfree : ∀ points, (code, points) ∈ entries → ∀ p ∈ points, posting.start p ≠ start) :
    db'.rowsOf code start = db.rowsOf code start := by
  induction entries generalizing db reports with
  | nil =>
    obtain ⟨rfl, -⟩ := Prod.mk.inj (Except.ok.inj h)
    rfl
  | cons entry entries ih =>
    obtain ⟨stored, writes, rest, hseries, hrest, -⟩ := recordMany_cons h
    obtain ⟨-, -, -, hstored⟩ := recordSeries_ok hdb hseries
    rw [ih hstored hrest (fun points hp ↦ hfree points (mem_cons_of_mem _ hp))]
    refine recordSeries_frame hdb hseries (fun hcode ↦ hfree entry.2 ?_)
    rw [hcode]
    exact mem_cons_self

theorem recordMany_states {p : α} (hdb : db.Sound)
    (h : recordMany guard posting db entries = .ok (db', reports))
    (hnodup : (entries.map Prod.fst).Nodup) (hmem : (code, points) ∈ entries)
    (hlast : posting.printed points start = some p) :
    db'.Says code start (posting.value p) (posting.method code p) := by
  induction entries generalizing db reports with
  | nil => cases hmem
  | cons entry entries ih =>
    obtain ⟨stored, writes, rest, hseries, hrest, -⟩ := recordMany_cons h
    obtain ⟨-, -, -, hstored⟩ := recordSeries_ok hdb hseries
    obtain ⟨hnew, hnodup⟩ := nodup_cons.mp hnodup
    rcases mem_cons.mp hmem with rfl | hmem
    · refine (recordSeries_states hdb hseries hlast).congr ?_
      refine recordMany_frame hstored hrest (fun points' hp ↦ absurd ?_ hnew)
      exact mem_map.mpr ⟨(code, points'), hp, rfl⟩
    · exact ih hstored hrest hnodup hmem

theorem recordMany_unchanged (hdb : db.Sound)
    (h : recordMany guard posting db entries = .ok (db', reports))
    (hstates : ∀ code points, (code, points) ∈ entries → ∀ p ∈ points,
      db.Says code (posting.start p) (posting.value p) (posting.method code p)) :
    db'.rows = db.rows := by
  induction entries generalizing db reports with
  | nil =>
    obtain ⟨rfl, -⟩ := Prod.mk.inj (Except.ok.inj h)
    rfl
  | cons entry entries ih =>
    obtain ⟨stored, writes, rest, hseries, hrest, -⟩ := recordMany_cons h
    obtain ⟨-, hregistered, -, hstored⟩ := recordSeries_ok hdb hseries
    have hrows := recordSeries_unchanged hdb hseries (hstates entry.1 entry.2 mem_cons_self)
    rw [ih hstored hrest, hrows]
    intro code points hmem p hp
    refine (hstates code points (mem_cons_of_mem _ hmem) p hp).congr ?_
    exact hdb.rowsOf_of_prefix hrows (hregistered ▸ ensureSeries_prefix)

theorem recordMany_rows (hdb : db.Sound)
    (h : recordMany guard posting db entries = .ok (db', reports)) :
    ∃ new, db'.rows = db.rows ++ new ∧ ∀ r ∈ new, ∃ code points, (code, points) ∈ entries ∧
      ∃ p ∈ points, (posting.call code (db'.series.idxOf code) p).Wrote r := by
  induction entries generalizing db reports with
  | nil =>
    obtain ⟨rfl, -⟩ := Prod.mk.inj (Except.ok.inj h)
    exact ⟨[], (append_nil _).symm, fun r hr ↦ absurd hr not_mem_nil⟩
  | cons entry entries ih =>
    obtain ⟨stored, writes, rest, hseries, hrest, -⟩ := recordMany_cons h
    obtain ⟨-, hregistered, -, hstored⟩ := recordSeries_ok hdb hseries
    obtain ⟨early, hearly, hwrote⟩ := recordSeries_rows hdb hseries
    obtain ⟨late, hlate, hwrote'⟩ := ih hstored hrest
    refine ⟨early ++ late, by rw [hlate, hearly, append_assoc], fun r hr ↦ ?_⟩
    rcases mem_append.mp hr with hr | hr
    · obtain ⟨p, hp, hr⟩ := hwrote r hr
      refine ⟨entry.1, entry.2, mem_cons_self, p, hp, ?_⟩
      obtain ⟨rest, hprefix⟩ := (recordMany_ok hstored hrest).2.2
      have hmem : entry.1 ∈ stored.series := hregistered ▸ mem_ensureSeries
      rw [← hprefix, idxOf_append_of_mem hmem]
      exact hr
    · obtain ⟨code, points, hmem, hr⟩ := hwrote' r hr
      exact ⟨code, points, mem_cons_of_mem _ hmem, hr⟩

theorem recordMany_states_of_eq (hdb : db.Sound)
    (h : recordMany guard posting db entries = .ok (db', reports)) (hrows : db'.rows = db.rows) :
    ∀ code points, (code, points) ∈ entries → ∀ p ∈ points,
      db.Says code (posting.start p) (posting.value p) (posting.method code p) := by
  induction entries generalizing db reports with
  | nil => exact fun _ _ hmem ↦ absurd hmem not_mem_nil
  | cons entry entries ih =>
    obtain ⟨stored, writes, rest, hseries, hrest, -⟩ := recordMany_cons h
    obtain ⟨-, hregistered, -, hstored⟩ := recordSeries_ok hdb hseries
    obtain ⟨early, hearly, -⟩ := recordSeries_rows hdb hseries
    obtain ⟨late, hlate, -⟩ := recordMany_rows hstored hrest
    have hsame : stored.rows = db.rows := by
      have hlength := congrArg List.length (hlate.symm.trans hrows)
      rw [length_append, hearly, length_append] at hlength
      have hnil : early = [] := length_eq_zero_iff.mp (by omega)
      rw [hearly, hnil, append_nil]
    intro code points hmem p hp
    rcases mem_cons.mp hmem with rfl | hmem
    · exact recordSeries_states_of_eq hdb hseries hsame hp
    · refine (ih hstored hrest (hrows.trans hsame.symm) code points hmem p hp).congr ?_
      exact (hdb.rowsOf_of_prefix hsame (hregistered ▸ ensureSeries_prefix)).symm

end Many

end Writes

end TalaPala.Economic
