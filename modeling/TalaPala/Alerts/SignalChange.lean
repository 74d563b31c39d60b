import TalaPala.Alerts.Runner
import TalaPala.Library.Latest

namespace TalaPala.Alerts

open Library MarketHours Transition List

/-- The loop of `Run` over the alerts that it read, each with what becomes of
its write. -/
def Store.pass (db : Store) (s : Snapshot) : List (Alert × Outcome) → Store
  | [] => db
  | (a, outcome) :: rest =>
    if ends a s outcome then db else (db.handle s a outcome).pass s rest

def committed (s : Snapshot) : List (Alert × Outcome) → List (Alert × Message)
  | [] => []
  | (a, outcome) :: rest =>
    if ends a s outcome then []
    else (written a s outcome).toList.map (fun message ↦ (a, message)) ++ committed s rest

/-- A row of `signals`. -/
structure SignalRow where
  symbol : String
  info : SignalInfo

def alertSignalSymbol : String := "IR_GOLD_18K"

def alertSignals (signals : List SignalRow) : List SignalInfo :=
  (signals.filter (fun row ↦ row.symbol = alertSignalSymbol)).map SignalRow.info

def loadSignals (signals : List SignalRow) (s : Snapshot) : Snapshot :=
  let sigs := latest SignalInfo.generatedAt 2 (alertSignals signals)
  { s with latestSignal := sigs[0]?, previousSignal := sigs[1]? }

@[simp] theorem loadSignals_now (signals : List SignalRow) (s : Snapshot) :
    (loadSignals signals s).now = s.now := rfl

structure Board where
  store : Store
  signals : List SignalRow

def Board.start (db : Store) : Board := ⟨{ db with events := [] }, []⟩

inductive Move
  | write (row : SignalRow)
  | pass (snap : Snapshot) (list : List (Alert × Outcome))

def Board.next (s : Board) : Move → Option Board
  | .write row => some { s with signals := s.signals ++ [row] }
  | .pass snap list =>
    if (list.map Prod.fst).Perm s.store.enabled then
      some { s with store := s.store.pass (loadSignals s.signals snap) list }
    else none

def Board.rows (s : Board) : List SignalInfo := alertSignals s.signals

structure Change where
  previous : Signal
  latest : Signal
  generatedAt : Instant

def Message.change : Message → Option Change
  | .signalChange previous latest generatedAt => some ⟨previous, latest, generatedAt⟩
  | _ => none

def Store.changes (db : Store) (id : ℕ) : List Change :=
  (db.events.filter (fun event ↦ event.alertId = id)).filterMap (fun event ↦ event.message.change)

structure Consecutive (rows : List SignalInfo) (previous newest : SignalInfo) : Prop where
  previous_mem : previous ∈ rows
  newest_mem : newest ∈ rows
  before : previous.generatedAt < newest.generatedAt
  between : ∀ row ∈ rows, previous.generatedAt < row.generatedAt →
    newest.generatedAt ≤ row.generatedAt

def Change.Describes (c : Change) (previous latest : SignalInfo) : Prop :=
  c = ⟨previous.signal, latest.signal, latest.generatedAt⟩

structure Board.Edge (s : Board) : Prop where
  once : ∀ id, (s.store.changes id).Pairwise (fun c c' ↦ ∀ previous latest,
    Consecutive s.rows previous latest → c.Describes previous latest →
      ¬ c'.Describes previous latest)
  describes : ∀ id, ∀ c ∈ s.store.changes id, ∃ previous latest,
    Consecutive s.rows previous latest ∧ previous.signal ≠ latest.signal ∧
      c.Describes previous latest

def InOrder (s : Board) (move : Move) : Prop :=
  ∀ row, move = .write row → row.symbol = alertSignalSymbol →
    ∀ info ∈ s.rows, info.generatedAt < row.info.generatedAt

def Fresh (s : Board) (move : Move) : Prop :=
  ∀ snap list, move = .pass snap list →
    ∀ report ∈ committed (loadSignals s.signals snap) list, ∀ c, report.2.change = some c →
      ∀ last, (s.store.changes report.1.id).head? = some last → last.generatedAt ≠ c.generatedAt

section Interleaved

variable {s : State} {pass : ℕ} {snap : Snapshot}

end Interleaved

section OnePass

variable {db : Store} {s : Snapshot} {list : List (Alert × Outcome)}

theorem events_handle (a : Alert) (outcome : Outcome) :
    (db.handle s a outcome).events = ((written a s outcome).toList.map
      (fun message ↦ (⟨a.id, a.userId, toStored s.now, message⟩ : Event))) ++ db.events := by
  rw [Store.handle]
  cases written a s outcome <;> rfl

theorem events_pass : (db.pass s list).events =
    ((committed s list).map (fun report ↦
      (⟨report.1.id, report.1.userId, toStored s.now, report.2⟩ : Event))).reverse ++ db.events := by
  induction list generalizing db with
  | nil => rfl
  | cons head rest ih =>
    obtain ⟨a, outcome⟩ := head
    rw [Store.pass, committed]
    split
    · rfl
    · rw [ih, events_handle]
      cases written a s outcome <;> simp

theorem committed_sublist :
    ((committed s list).map (fun report ↦ report.1.id)).Sublist
      (list.map (fun entry ↦ entry.1.id)) := by
  induction list with
  | nil => exact .slnil
  | cons head rest ih =>
    obtain ⟨a, outcome⟩ := head
    rw [committed]
    split
    · exact nil_sublist _
    · cases written a s outcome with
      | none => exact ih.cons _
      | some message => exact ih.cons_cons _

theorem mem_committed {report : Alert × Message} (h : report ∈ committed s list) :
    (report.1, .commits) ∈ list ∧ due report.1 s = some report.2 := by
  induction list with
  | nil => cases h
  | cons head rest ih =>
    obtain ⟨a, outcome⟩ := head
    rw [committed] at h
    split at h
    · cases h
    rcases mem_append.mp h with h | h
    · obtain ⟨message, hmessage, rfl⟩ := mem_map.mp h
      cases outcome with
      | commits => exact ⟨mem_cons_self, Option.mem_toList.mp hmessage⟩
      | beginFails => cases hmessage
      | fails => cases hmessage
    · exact ⟨mem_cons_of_mem _ (ih h).1, (ih h).2⟩

theorem committed_of_mem (hbegin : ∀ entry ∈ list, entry.2 ≠ .beginFails) {a : Alert}
    (h : (a, .commits) ∈ list) {message : Message} (hdue : due a s = some message) :
    (a, message) ∈ committed s list := by
  induction list with
  | nil => cases h
  | cons head rest ih =>
    obtain ⟨b, outcome⟩ := head
    have hgoes : ¬ ends b s outcome := by
      have hne := hbegin _ mem_cons_self
      simp_all [ends]
    rw [committed, if_neg hgoes]
    refine mem_append.mpr ?_
    rcases mem_cons.mp h with heq | h
    · cases heq
      exact .inl (mem_map.mpr ⟨message, Option.mem_toList.mpr hdue, rfl⟩)
    · exact .inr (ih (fun entry hentry ↦ hbegin entry (mem_cons_of_mem _ hentry)) h)

theorem changes_pass (id : ℕ) : (db.pass s list).changes id =
    (((committed s list).filter (fun report ↦ report.1.id = id)).filterMap
      (fun report ↦ report.2.change)).reverse ++ db.changes id := by
  simp [Store.changes, events_pass, filter_append, filter_map, filterMap_append,
    filterMap_map, Function.comp_def, filter_reverse, filterMap_reverse]

theorem filter_id_cases {reports : List (Alert × Message)}
    (hnodup : (reports.map (fun report ↦ report.1.id)).Nodup) (id : ℕ) :
    (∀ report ∈ reports, report.1.id ≠ id) ∨ ∃ report ∈ reports, report.1.id = id ∧
      reports.filter (fun other ↦ other.1.id = id) = [report] := by
  induction reports with
  | nil => exact .inl (fun _ h ↦ nomatch h)
  | cons head rest ih =>
    obtain ⟨hhead, hrest⟩ := nodup_cons.mp hnodup
    by_cases hid : head.1.id = id
    · refine .inr ⟨head, mem_cons_self, hid, ?_⟩
      rw [filter_cons_of_pos (by simpa using hid), filter_eq_nil_iff.mpr]
      intro other hother hsame
      exact hhead (mem_map.mpr ⟨other, hother, (of_decide_eq_true hsame).trans hid.symm⟩)
    · rcases ih hrest with hnone | ⟨report, hreport, hsame, hfilter⟩
      · refine .inl (fun report hreport ↦ ?_)
        rcases mem_cons.mp hreport with rfl | hreport
        · exact hid
        · exact hnone report hreport
      · refine .inr ⟨report, mem_cons_of_mem _ hreport, hsame, ?_⟩
        rw [filter_cons_of_neg (by simpa using hid), hfilter]

variable (db) in
theorem changes_pass_cases (hnodup : (list.map (fun entry ↦ entry.1.id)).Nodup) (id : ℕ) :
    ((db.pass s list).changes id = db.changes id ∧
      ∀ report ∈ committed s list, report.1.id = id → report.2.change = none) ∨
    ∃ report ∈ committed s list, ∃ c, report.1.id = id ∧ report.2.change = some c ∧
      (db.pass s list).changes id = c :: db.changes id := by
  have hreports : ((committed s list).map (fun report ↦ report.1.id)).Nodup :=
    committed_sublist.nodup hnodup
  rw [changes_pass]
  rcases filter_id_cases hreports id with hnone | ⟨report, hreport, hid, hfilter⟩
  · refine .inl ⟨?_, fun report hreport hid ↦ absurd hid (hnone report hreport)⟩
    rw [filter_eq_nil_iff.mpr (fun report hreport ↦ by simpa using hnone report hreport)]
    rfl
  · rw [hfilter]
    cases hchange : report.2.change with
    | none =>
      refine .inl ⟨by simp [hchange], fun other hother hsame ↦ ?_⟩
      have hmem : other ∈ (committed s list).filter (fun report ↦ report.1.id = id) :=
        mem_filter.mpr ⟨hother, decide_eq_true hsame⟩
      rw [hfilter, mem_singleton] at hmem
      rw [hmem, hchange]
    | some c => exact .inr ⟨report, hreport, c, hid, hchange, by simp [hchange]⟩

theorem evaluate_change {a : Alert} {message : Message} {c : Change}
    (h : evaluate a s = some message) (hc : message.change = some c) :
    ∃ newest previous, s.latestSignal = some newest ∧ s.previousSignal = some previous ∧
      previous.signal ≠ newest.signal ∧ c.Describes previous newest := by
  cases htype : a.alertType <;> simp only [evaluate, htype] at h
  case signalChange =>
    split at h
    · rename_i newest previous hnewest hprevious
      split at h
      · rename_i hne
        cases h
        cases hc
        exact ⟨newest, previous, hnewest, hprevious, hne.symm, rfl⟩
      · cases h
    · cases h
  case priceAbove | priceBelow | confidenceAbove | volatilitySpike | premiumAbove =>
    obtain ⟨_, -, rfl⟩ := Option.map_eq_some_iff.mp h
    cases hc
  case staleData | providerFailure | modelDegradation =>
    (repeat' split at h) <;> cases h <;> cases hc
  case trendAlignment => cases h

theorem evaluate_signalChange {a : Alert} (htype : a.alertType = .signalChange)
    {previous newest : SignalInfo} (hnewest : s.latestSignal = some newest)
    (hprevious : s.previousSignal = some previous) (hne : previous.signal ≠ newest.signal) :
    evaluate a s = some (.signalChange previous.signal newest.signal newest.generatedAt) := by
  simp only [evaluate, htype, hnewest, hprevious]
  exact if_pos hne.symm

end OnePass

section Rows

variable {rows : List SignalInfo} {previous newest : SignalInfo}

theorem Consecutive.append (h : Consecutive rows previous newest) {info : SignalInfo}
    (hafter : ∀ row ∈ rows, row.generatedAt < info.generatedAt) :
    Consecutive (rows ++ [info]) previous newest where
  previous_mem := mem_append_left _ h.previous_mem
  newest_mem := mem_append_left _ h.newest_mem
  before := h.before
  between := by
    intro row hrow hlt
    rcases mem_append.mp hrow with hrow | hrow
    · exact h.between row hrow hlt
    · obtain rfl := mem_singleton.mp hrow
      exact (hafter newest h.newest_mem).le

theorem Consecutive.unique (hrows : AscendingBy SignalInfo.generatedAt rows)
    (h : Consecutive rows previous newest) {previous' newest' : SignalInfo}
    (h' : Consecutive rows previous' newest') (heq : newest.generatedAt = newest'.generatedAt) :
    previous = previous' ∧ newest = newest' := by
  refine ⟨hrows.eq_of_start h.previous_mem h'.previous_mem (le_antisymm ?_ ?_),
    hrows.eq_of_start h.newest_mem h'.newest_mem heq⟩
  · by_contra hlt
    have hle := h'.between previous h.previous_mem (not_le.mp hlt)
    exact absurd h.before (not_lt.mpr (heq ▸ hle))
  · by_contra hlt
    have hle := h.between previous' h'.previous_mem (not_le.mp hlt)
    exact absurd h'.before (not_lt.mpr (heq ▸ hle))

theorem latest_cases (hrows : AscendingBy SignalInfo.generatedAt rows) :
    ∃ sorted, DescendingBy SignalInfo.generatedAt sorted ∧ (∀ info, info ∈ sorted ↔ info ∈ rows) ∧
      latest SignalInfo.generatedAt 2 rows = sorted.take 2 := by
  have hnodup : (rows.map SignalInfo.generatedAt).Nodup :=
    pairwise_map.mpr (hrows.imp ne_of_lt)
  exact ⟨_, descending_of_nodup hnodup, fun _ ↦ mem_insertionSort _, rfl⟩

theorem consecutive_of_latest (hrows : AscendingBy SignalInfo.generatedAt rows)
    (hnewest : (latest SignalInfo.generatedAt 2 rows)[0]? = some newest)
    (hprevious : (latest SignalInfo.generatedAt 2 rows)[1]? = some previous) :
    Consecutive rows previous newest ∧ ∀ row ∈ rows, row.generatedAt ≤ newest.generatedAt := by
  obtain ⟨sorted, hsorted, hmem, heq⟩ := latest_cases hrows
  rw [heq] at hnewest hprevious
  match sorted, hnewest, hprevious with
  | first :: second :: tail, hnewest, hprevious =>
    obtain rfl : first = newest := by simpa using hnewest
    obtain rfl : second = previous := by simpa using hprevious
    obtain ⟨hfirst, hrest⟩ := pairwise_cons.mp hsorted
    have hsecond := (pairwise_cons.mp hrest).1
    refine ⟨⟨(hmem _).mp (by simp), (hmem _).mp (by simp), hfirst _ (by simp), ?_⟩, ?_⟩
    · intro row hrow hlt
      rcases mem_cons.mp ((hmem row).mpr hrow) with rfl | hrow
      · exact le_rfl
      · rcases mem_cons.mp hrow with rfl | hrow
        · exact absurd hlt (lt_irrefl _)
        · exact absurd hlt (not_lt.mpr (hsecond row hrow).le)
    · intro row hrow
      rcases mem_cons.mp ((hmem row).mpr hrow) with rfl | hrow
      · exact le_rfl
      · exact (hfirst row hrow).le

theorem Consecutive.latest (h : Consecutive rows previous newest)
    (hrows : AscendingBy SignalInfo.generatedAt rows)
    (hnewest : ∀ row ∈ rows, row.generatedAt ≤ newest.generatedAt) :
    (latest SignalInfo.generatedAt 2 rows)[0]? = some newest ∧
      (latest SignalInfo.generatedAt 2 rows)[1]? = some previous := by
  obtain ⟨sorted, hsorted, hmem, heq⟩ := latest_cases hrows
  rw [heq]
  match sorted, hsorted, hmem with
  | [], _, hmem => exact absurd ((hmem _).mpr h.newest_mem) not_mem_nil
  | first :: rest, hsorted, hmem =>
    obtain ⟨hfirst, hrest⟩ := pairwise_cons.mp hsorted
    obtain rfl : newest = first := by
      rcases mem_cons.mp ((hmem _).mpr h.newest_mem) with hsame | hbelow
      · exact hsame
      · have hle := hnewest first ((hmem _).mp mem_cons_self)
        exact absurd (hfirst _ hbelow) (not_lt.mpr hle)
    have hprevious : previous ∈ rest := by
      rcases mem_cons.mp ((hmem _).mpr h.previous_mem) with rfl | hbelow
      · exact absurd h.before (lt_irrefl _)
      · exact hbelow
    match rest, hfirst, hrest, hprevious with
    | second :: tail, hfirst, hrest, hprevious =>
      obtain rfl : previous = second := by
        rcases mem_cons.mp hprevious with hsame | hbelow
        · exact hsame
        · have hlt := (pairwise_cons.mp hrest).1 _ hbelow
          have hle := h.between second ((hmem _).mp (by simp)) hlt
          exact absurd (hfirst second (by simp)) (not_lt.mpr hle)
      exact ⟨rfl, rfl⟩

end Rows

structure Board.Sound (s : Board) : Prop where
  ascending : AscendingBy SignalInfo.generatedAt s.rows
  newestFirst : ∀ id, (s.store.changes id).Pairwise (fun c c' ↦ c'.generatedAt < c.generatedAt)
  describes : ∀ id, ∀ c ∈ s.store.changes id, ∃ previous newest,
    Consecutive s.rows previous newest ∧ previous.signal ≠ newest.signal ∧
      c.Describes previous newest

section Steps

variable {s t : Board} {move : Move}

theorem Board.Sound.edge (h : s.Sound) : s.Edge where
  describes := h.describes
  once := by
    refine fun id ↦ (h.newestFirst id).imp (fun {c c'} hlt previous newest _ hc hc' ↦ ?_)
    rw [hc, hc'] at hlt
    exact lt_irrefl _ hlt

theorem rows_write (row : SignalRow) : ({ s with signals := s.signals ++ [row] } : Board).rows =
    s.rows ++ if row.symbol = alertSignalSymbol then [row.info] else [] := by
  simp only [Board.rows, alertSignals, filter_append, map_append]
  by_cases h : row.symbol = alertSignalSymbol <;> simp [h]

theorem Board.Sound.write (h : s.Sound) {row : SignalRow} (horder : InOrder s (.write row)) :
    ({ s with signals := s.signals ++ [row] } : Board).Sound := by
  by_cases hsymbol : row.symbol = alertSignalSymbol
  · have hafter := horder row rfl hsymbol
    have hrows := rows_write (s := s) row
    rw [if_pos hsymbol] at hrows
    refine ⟨?_, h.newestFirst, fun id c hc ↦ ?_⟩
    · rw [hrows]
      exact pairwise_append.mpr ⟨h.ascending, pairwise_singleton _ _,
        fun info hinfo _ hlast ↦ mem_singleton.mp hlast ▸ hafter info hinfo⟩
    · obtain ⟨previous, newest, hconsecutive, hne, hdescribes⟩ := h.describes id c hc
      rw [hrows]
      exact ⟨previous, newest, hconsecutive.append hafter, hne, hdescribes⟩
  · have hrows := rows_write (s := s) row
    rw [if_neg hsymbol, append_nil] at hrows
    exact ⟨hrows ▸ h.ascending, h.newestFirst, hrows ▸ h.describes⟩

theorem list_ids_nodup {list : List (Alert × Outcome)}
    (hlist : (list.map Prod.fst).Perm s.store.enabled) :
    (list.map (fun entry ↦ entry.1.id)).Nodup := by
  have hids : (list.map (fun entry ↦ entry.1.id)) = (list.map Prod.fst).map Alert.id := by
    rw [map_map]
    rfl
  rw [hids, (hlist.map Alert.id).nodup_iff]
  exact s.store.ids_nodup.sublist (filter_sublist.map Alert.id)

theorem next_pass {snap : Snapshot} {list : List (Alert × Outcome)}
    (h : s.next (.pass snap list) = some t) :
    (list.map (fun entry ↦ entry.1.id)).Nodup ∧ t.rows = s.rows ∧
      t.store = s.store.pass (loadSignals s.signals snap) list := by
  rw [Board.next] at h
  split at h <;> cases h
  rename_i hlist
  exact ⟨list_ids_nodup hlist, rfl, rfl⟩

theorem Board.Sound.report (h : s.Sound) {snap : Snapshot} {list : List (Alert × Outcome)}
    {report : Alert × Message} (hreport : report ∈ committed (loadSignals s.signals snap) list)
    {c : Change} (hc : report.2.change = some c) :
    ∃ previous newest, Consecutive s.rows previous newest ∧
      (∀ row ∈ s.rows, row.generatedAt ≤ newest.generatedAt) ∧
      previous.signal ≠ newest.signal ∧ c.Describes previous newest := by
  have hdue := (mem_committed hreport).2
  rw [due] at hdue
  split at hdue
  · obtain ⟨newest, previous, hnewest, hprevious, hne, hdescribes⟩ := evaluate_change hdue hc
    obtain ⟨hconsecutive, hmax⟩ := consecutive_of_latest h.ascending hnewest hprevious
    exact ⟨previous, newest, hconsecutive, hmax, hne, hdescribes⟩
  · cases hdue

theorem Board.Sound.pass (h : s.Sound) {snap : Snapshot} {list : List (Alert × Outcome)}
    (hfresh : Fresh s (.pass snap list)) (hnext : s.next (.pass snap list) = some t) :
    t.Sound := by
  obtain ⟨hnodup, hrows, hstore⟩ := next_pass hnext
  have hcases := changes_pass_cases s.store (s := loadSignals s.signals snap) hnodup
  refine ⟨hrows ▸ h.ascending, fun id ↦ ?_, fun id c hc ↦ ?_⟩
  · rw [hstore]
    obtain ⟨hsame, -⟩ | ⟨report, hreport, c, rfl, hc, hchanges⟩ := hcases id
    · rw [hsame]
      exact h.newestFirst id
    rw [hchanges]
    obtain ⟨previous, newest, -, hmax, -, hdescribes⟩ := h.report hreport hc
    have hhead := hfresh snap list rfl report hreport c hc
    have hpairs := h.newestFirst report.1.id
    have hold := h.describes report.1.id
    refine pairwise_cons.mpr ⟨?_, hpairs⟩
    cases hlist : s.store.changes report.1.id with
    | nil => exact fun _ hmem ↦ nomatch hmem
    | cons last rest =>
      rw [hlist] at hhead hpairs hold
      have hlast : last.generatedAt < c.generatedAt := by
        obtain ⟨_, newest', hconsecutive, -, hdescribes'⟩ := hold last mem_cons_self
        refine lt_of_le_of_ne ?_ (hhead last rfl)
        rw [hdescribes, hdescribes']
        exact hmax newest' hconsecutive.newest_mem
      intro c' hc'
      rcases mem_cons.mp hc' with rfl | hc'
      · exact hlast
      · exact ((pairwise_cons.mp hpairs).1 c' hc').trans hlast
  · rw [hstore] at hc
    rw [hrows]
    obtain ⟨hsame, -⟩ | ⟨report, hreport, c', rfl, hc', hchanges⟩ := hcases id
    · exact h.describes id c (hsame ▸ hc)
    rw [hchanges] at hc
    rcases mem_cons.mp hc with rfl | hc
    · obtain ⟨previous, newest, hconsecutive, -, hne, hdescribes⟩ := h.report hreport hc'
      exact ⟨previous, newest, hconsecutive, hne, hdescribes⟩
    · exact h.describes _ c hc

theorem Board.Sound.fresh_of_edge (h : s.Sound) (hnext : s.next move = some t)
    (hedge : t.Edge) : Fresh s move := by
  rintro snap list rfl report hreport c hc last hlast heq
  obtain ⟨hnodup, hrows, hstore⟩ := next_pass hnext
  obtain ⟨-, hnone⟩ | ⟨report', hreport', c', hid, hc', hchanges⟩ :=
    changes_pass_cases s.store (s := loadSignals s.signals snap) hnodup report.1.id
  · rw [hnone report hreport rfl] at hc
    cases hc
  obtain rfl : report' = report :=
    inj_on_of_nodup_map (committed_sublist.nodup hnodup) hreport' hreport hid
  obtain rfl : c' = c := Option.some.inj (hc'.symm.trans hc)
  have hold : last ∈ s.store.changes report'.1.id := mem_of_mem_head? hlast
  obtain ⟨previous, newest, hconsecutive, -, -, hdescribes⟩ := h.report hreport hc
  obtain ⟨previous', newest', hconsecutive', -, hdescribes'⟩ := h.describes _ last hold
  have hkey : newest'.generatedAt = newest.generatedAt := by
    rwa [hdescribes, hdescribes'] at heq
  obtain ⟨rfl, rfl⟩ := hconsecutive'.unique h.ascending hconsecutive hkey
  have honce := hedge.once report'.1.id
  rw [hstore, hchanges] at honce
  exact (pairwise_cons.mp honce).1 last hold previous' newest' (hrows ▸ hconsecutive')
    hdescribes hdescribes'

theorem Board.Sound.next (h : s.Sound) (horder : InOrder s move)
    (hfresh : Fresh s move) (hnext : s.next move = some t) : t.Sound := by
  cases move with
  | write row =>
    cases hnext
    exact h.write horder
  | pass snap list => exact h.pass hfresh hnext

theorem changes_next (hnext : s.next move = some t) (id : ℕ) :
    s.store.changes id <:+ t.store.changes id := by
  cases move with
  | write row =>
    cases hnext
    exact suffix_rfl
  | pass snap list =>
    rw [(next_pass hnext).2.2, changes_pass]
    exact suffix_append _ _

theorem Board.Sound.reported (h : s.Sound) {a : Alert} (htype : a.alertType = .signalChange)
    {previous newest : SignalInfo} (hconsecutive : Consecutive s.rows previous newest)
    (hlast : s.rows.getLast? = some newest) (hne : previous.signal ≠ newest.signal)
    {snap : Snapshot} {list : List (Alert × Outcome)} (hnext : s.next (.pass snap list) = some t)
    (hcooled : cooldownOK a.lastTriggeredAt a.cooldownMinutes snap.now)
    (hcommits : (a, .commits) ∈ list) (hbegin : ∀ entry ∈ list, entry.2 ≠ .beginFails) :
    ∃ c ∈ t.store.changes a.id, c.Describes previous newest := by
  have hmax : ∀ row ∈ s.rows, row.generatedAt ≤ newest.generatedAt := by
    obtain ⟨front, hrows⟩ := getLast?_eq_some_iff.mp hlast
    have hascending := h.ascending
    rw [hrows] at hascending ⊢
    intro row hrow
    rcases mem_append.mp hrow with hrow | hrow
    · exact ((pairwise_append.mp hascending).2.2 row hrow newest mem_cons_self).le
    · exact (mem_singleton.mp hrow ▸ le_rfl)
  obtain ⟨hfirst, hsecond⟩ := hconsecutive.latest h.ascending hmax
  have hdue : due a (loadSignals s.signals snap) =
      some (.signalChange previous.signal newest.signal newest.generatedAt) := by
    rw [due, loadSignals_now, if_pos hcooled]
    exact evaluate_signalChange htype hfirst hsecond hne
  obtain ⟨hnodup, -, hstore⟩ := next_pass hnext
  have hreport := committed_of_mem hbegin hcommits hdue
  refine ⟨_, ?_, rfl⟩
  rw [hstore]
  obtain ⟨-, hnone⟩ | ⟨report, hmem, c, hid, hc, hchanges⟩ :=
    changes_pass_cases s.store (s := loadSignals s.signals snap) hnodup a.id
  · cases hnone _ hreport rfl
  · obtain rfl := inj_on_of_nodup_map (committed_sublist.nodup hnodup) hmem hreport hid
    cases hc
    rw [hchanges]
    exact mem_cons_self

end Steps

/-- One event an edge, as long as a new row arrives between two reports and the rows
arrive in the order of their instants; under that order not otherwise. -/
theorem signal_change_once_iff (db : Store) (moves : List Move) (s : Board) :
    (Run Board.next (fun s move ↦ InOrder s move ∧ Fresh s move) (.start db) moves s ↔
      Run Board.next (fun s move ↦ InOrder s move ∧ ∀ t, s.next move = some t → t.Edge)
        (.start db) moves s) ∧
    (Run Board.next (fun s move ↦ InOrder s move ∧ Fresh s move) (.start db) moves s →
      s.Edge ∧ ∀ a previous newest, a.alertType = .signalChange →
        Consecutive s.rows previous newest → s.rows.getLast? = some newest →
        previous.signal ≠ newest.signal → ∀ snap list t, s.next (.pass snap list) = some t →
        cooldownOK a.lastTriggeredAt a.cooldownMinutes snap.now → (a, .commits) ∈ list →
        (∀ entry ∈ list, entry.2 ≠ .beginFails) → ∀ later u,
        Run Board.next (fun _ _ ↦ True) t later u →
          ∃ c ∈ u.store.changes a.id, c.Describes previous newest) := by
  have hstart : (Board.start db).Sound := by
    refine ⟨.nil, fun _ ↦ .nil, fun _ _ h ↦ nomatch h⟩
  refine ⟨⟨fun hrun ↦ ?_, fun hrun ↦ ?_⟩, fun hrun ↦ ?_⟩
  · refine hrun.refine (fun s move t hs hok hnext ↦ ?_) hstart
    refine ⟨⟨hok.1, fun t' hnext' ↦ ?_⟩, hs.next hok.1 hok.2 hnext⟩
    exact (hs.next hok.1 hok.2 hnext').edge
  · refine hrun.refine (fun s move t hs hok hnext ↦ ?_) hstart
    have hfresh := hs.fresh_of_edge hnext (hok.2 t hnext)
    exact ⟨⟨hok.1, hfresh⟩, hs.next hok.1 hfresh hnext⟩
  · have hs : s.Sound :=
      hrun.preserves (fun s move t hs hok hnext ↦ hs.next hok.1 hok.2 hnext) hstart
    refine ⟨hs.edge, ?_⟩
    intro a previous newest htype hconsecutive hlast hne snap list t hnext hcooled hcommits hbegin
      later u hlater
    obtain ⟨c, hc, hdescribes⟩ :=
      hs.reported htype hconsecutive hlast hne hnext hcooled hcommits hbegin
    have hgrows : t.store.changes a.id <:+ u.store.changes a.id :=
      hlater.climbs (R := fun t u ↦ t.store.changes a.id <:+ u.store.changes a.id)
        (fun _ ↦ suffix_rfl) (fun _ _ _ ↦ List.IsSuffix.trans)
        (fun _ _ _ _ hnext ↦ changes_next hnext a.id)
    exact ⟨c, hgrows.subset hc, hdescribes⟩

section OneSymbol

def changeAlert : Alert where
  id := 1
  userId := "u"
  alertType := .signalChange
  condition := []
  enabled := true
  cooldownMinutes := 1
  lastTriggeredAt := none
  cooldown_valid := by decide

def oneChangeAlert : Store := ⟨[changeAlert], [], by decide⟩

def goldRow (signal : Signal) (generatedAt : Instant) : SignalRow :=
  ⟨alertSignalSymbol, ⟨signal, 1 / 2, generatedAt⟩⟩

def twoPasses : List Move :=
  [.write (goldRow .buy 1), .write (goldRow .sell 2),
    .pass (emptySnapshot 3000) [(changeAlert, .commits)],
    .pass (emptySnapshot (3000 + Go.minute)) [(stamp 1 3000 changeAlert, .commits)]]

theorem one_change_reported_twice :
    ∃ s, Run Board.next InOrder (.start oneChangeAlert) twoPasses s ∧
      s.store.changes 1 = [⟨.buy, .sell, 2⟩, ⟨.buy, .sell, 2⟩] ∧ ¬ s.Edge := by
  refine ⟨_, .cons ?_ rfl (.cons ?_ rfl (.cons ?_ rfl (.cons ?_ rfl (.nil _)))), rfl, ?_⟩
  · rintro row ⟨⟩ - info hinfo
    cases hinfo
  · rintro row ⟨⟩ - info hinfo
    obtain rfl := mem_singleton.mp hinfo
    decide
  · rintro row ⟨⟩
  · rintro row ⟨⟩
  · intro hedge
    have hconsecutive : Consecutive [(goldRow .buy 1).info, (goldRow .sell 2).info]
        (goldRow .buy 1).info (goldRow .sell 2).info := by
      refine ⟨by simp, by simp, by decide, fun row hrow hlt ↦ ?_⟩
      simp only [mem_cons, not_mem_nil, or_false] at hrow
      rcases hrow with rfl | rfl
      · exact absurd hlt (lt_irrefl _)
      · exact le_rfl
    exact (pairwise_cons.mp (hedge.once 1)).1 _ mem_cons_self _ _ hconsecutive rfl rfl

end OneSymbol

end TalaPala.Alerts
