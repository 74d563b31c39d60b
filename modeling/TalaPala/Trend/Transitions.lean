import TalaPala.Trend.Identity

namespace TalaPala.Trend

open Library Prices List

def Timeframe.all : List Timeframe := [.oneDay, .fourHour, .oneHour]

/-- A row of `trend_alignment_events`; the three close times are NOT NULL. -/
structure AlignmentEvent where
  id : ℕ
  symbol : String
  alignment : Alignment
  previousAlignment : Option Alignment
  occurredAt : ℤ
  latestCandleClose : Timeframe → ℤ
  timeframes : Timeframe → TimeframeResult
  maType : MaType
  alertEventId : Option ℕ

/-- A row of `trend_alignment_states`. -/
structure AlignmentState where
  alignment : Alignment
  previousAlignment : Option Alignment
  timeframes : Timeframe → TimeframeResult
  maType : MaType
  fastPeriod : ℕ
  midPeriod : ℕ
  slowPeriod : ℕ
  dataFresh : Bool
  latestCandleClose : Timeframe → Option ℤ
  lastBullishAlertAt : Option ℤ
  lastBearishAlertAt : Option ℤ
  stateVersion : ℕ
  calculatedAt : ℤ
  updatedAt : ℤ

structure Alert where
  id : ℕ
  userId : String
  alertType : String
  enabled : Bool
  lastTriggeredAt : Option ℤ
  updatedAt : ℤ

structure AlertPayload where
  symbol : String
  alignment : Alignment
  maType : MaType
  periods : ℕ × ℕ × ℕ
  timeframes : Timeframe → TimeframeResult
  trendAlignmentEventId : ℕ

structure AlertEvent where
  id : ℕ
  alertId : ℕ
  userId : String
  triggeredAt : ℤ
  payload : AlertPayload

structure AlertTables where
  alerts : List Alert
  alertEvents : List AlertEvent

structure Store where
  states : String → Option AlignmentState
  events : List AlignmentEvent
  tables : AlertTables

def freshId (ids : List ℕ) : ℕ := ids.foldr max 0 + 1

def AlignmentEvent.sameIdentity (row row' : AlignmentEvent) : Bool :=
  decide (row.symbol = row'.symbol) && decide (row.alignment = row'.alignment) &&
    Timeframe.all.all (fun tf ↦ row.latestCandleClose tf = row'.latestCandleClose tf)

def isFull (alignment : Alignment) : Bool :=
  decide (alignment = .fullBullish) || decide (alignment = .fullBearish)

def closeTriple (identity : Timeframe → Option ℤ) : Option (Timeframe → ℤ) := do
  let oneDay ← identity .oneDay
  let fourHour ← identity .fourHour
  let oneHour ← identity .oneHour
  return fun
    | .oneDay => oneDay
    | .fourHour => fourHour
    | .oneHour => oneHour

def upsertState (result : AlignmentResult) (config : TrendConfig) (stored : Option AlignmentState)
    (alertedAt : Option ℤ) (clock : ℤ) : AlignmentState :=
  let changed := stored.all (fun row ↦ decide (row.alignment ≠ result.alignment))
  { alignment := result.alignment
    previousAlignment := stored.bind (fun row ↦
      if changed then some row.alignment else row.previousAlignment)
    timeframes := result.timeframes
    maType := config.maType
    fastPeriod := config.fast
    midPeriod := config.mid
    slowPeriod := config.slow
    dataFresh := result.dataFresh
    latestCandleClose := result.candleIdentity
    lastBullishAlertAt :=
      if result.alignment = .fullBullish then
        alertedAt.or (stored.bind AlignmentState.lastBullishAlertAt)
      else stored.bind AlignmentState.lastBullishAlertAt
    lastBearishAlertAt :=
      if result.alignment = .fullBullish then stored.bind AlignmentState.lastBearishAlertAt
      else alertedAt.or (stored.bind AlignmentState.lastBearishAlertAt)
    stateVersion := max 1 ((stored.elim 0 AlignmentState.stateVersion) + if changed then 1 else 0)
    calculatedAt := result.calculatedAt
    updatedAt := clock }

def eventValues (id : ℕ) (result : AlignmentResult) (config : TrendConfig)
    (previous : Option Alignment) (closes : Timeframe → ℤ) : AlignmentEvent where
  id := id
  symbol := result.symbol
  alignment := result.alignment
  previousAlignment := previous
  occurredAt := result.calculatedAt
  latestCandleClose := closes
  timeframes := result.timeframes
  maType := config.maType
  alertEventId := none

/-- `INSERT .. ON CONFLICT DO NOTHING RETURNING id`. -/
def insertEvent (events : List AlignmentEvent) (result : AlignmentResult) (config : TrendConfig)
    (previous : Option Alignment) (closes : Timeframe → ℤ) : List AlignmentEvent × Option ℕ :=
  let row := eventValues (freshId (events.map AlignmentEvent.id)) result config previous closes
  if events.any (fun stored ↦ stored.sameIdentity row) then (events, none)
  else (events ++ [row], some row.id)

def trendAlertType : String := "trend_alignment"

def Alert.subscribed (alert : Alert) : Bool :=
  alert.enabled && decide (alert.alertType = trendAlertType)

def alertPayload (result : AlignmentResult) (config : TrendConfig) (eventId : ℕ) :
    AlertPayload where
  symbol := result.symbol
  alignment := result.alignment
  maType := config.maType
  periods := (config.fast, config.mid, config.slow)
  timeframes := result.timeframes
  trendAlignmentEventId := eventId

def AlertTables.notify (tables : AlertTables) (subscriber : Alert) (payload : AlertPayload)
    (now : ℤ) : AlertTables where
  alerts := tables.alerts.map (fun alert ↦ if alert.id = subscriber.id then
    { alert with lastTriggeredAt := some now, updatedAt := now } else alert)
  alertEvents := tables.alertEvents ++
    [{ id := freshId (tables.alertEvents.map AlertEvent.id)
       alertId := subscriber.id
       userId := subscriber.userId
       triggeredAt := now
       payload := payload }]

/-- The loop over the subscribers. Statement number `failsAt` of the savepoint
raises; `statement` is the number of the next one. -/
def fanOut (payload : AlertPayload) (now : ℤ) (failsAt : Option ℕ) :
    ℕ → List Alert → AlertTables × Option ℕ → Option (AlertTables × Option ℕ)
  | _, [], done => some done
  | statement, subscriber :: rest, (tables, firstId) =>
    if failsAt = some statement ∨ failsAt = some (statement + 1) then none
    else
      fanOut payload now failsAt (statement + 2) rest
        (tables.notify subscriber payload now,
          firstId.or (some (freshId (tables.alertEvents.map AlertEvent.id))))

/-- `none` is an exception, on which the savepoint is rolled back. -/
def writeAlertEvents (tables : AlertTables) (result : AlignmentResult) (config : TrendConfig)
    (eventId : ℕ) (now : ℤ) (failsAt : Option ℕ) : Option (AlertTables × Option ℕ) :=
  if failsAt = some 0 then none
  else fanOut (alertPayload result config eventId) now failsAt 1
    (tables.alerts.filter Alert.subscribed) (tables, none)

structure Pass where
  symbol : String
  prices : Table
  config : TrendConfig
  now : ℤ
  clock : ℤ
  failsAt : Option ℕ

def Pass.result (pass : Pass) : AlignmentResult :=
  evaluateSymbol pass.prices pass.symbol pass.config pass.now

structure Outcome where
  symbol : String
  alignment : Alignment
  dataFresh : Bool
  hourlyCandles : ℕ
  dailyCandles : ℕ
  candleIdentity : Timeframe → Option ℤ
  previousAlignment : Option Alignment
  eventId : Option ℕ
  alertEventId : Option ℕ

def Store.recordEntry (store : Store) (pass : Pass) : List AlignmentEvent × Option ℕ :=
  let previous := (store.states pass.symbol).map AlignmentState.alignment
  if isFull pass.result.alignment && decide (previous ≠ some pass.result.alignment) then
    match closeTriple pass.result.candleIdentity with
    | some closes => insertEvent store.events pass.result pass.config previous closes
    | none => (store.events, none)
  else (store.events, none)

def Store.alertEntry (store : Store) (pass : Pass) (eventId : Option ℕ) :
    AlertTables × Option ℕ :=
  match eventId with
  | none => (store.tables, none)
  | some eventId =>
    (writeAlertEvents store.tables pass.result pass.config eventId pass.now pass.failsAt).getD
      (store.tables, none)

def linkAlert (events : List AlignmentEvent) : Option ℕ → Option ℕ → List AlignmentEvent
  | some eventId, some alertEventId =>
    events.map (fun row ↦ if row.id = eventId then
      { row with alertEventId := some alertEventId } else row)
  | _, _ => events

def Store.evaluateSymbol (store : Store) (pass : Pass) : Store × Outcome :=
  let stored := store.states pass.symbol
  let entry := store.recordEntry pass
  let alert := store.alertEntry pass entry.2
  let row := upsertState pass.result pass.config stored (alert.2.map (fun _ ↦ pass.now)) pass.clock
  ({ states := Function.update store.states pass.symbol (some row)
     events := linkAlert entry.1 entry.2 alert.2
     tables := alert.1 },
   { symbol := pass.symbol
     alignment := pass.result.alignment
     dataFresh := pass.result.dataFresh
     hourlyCandles :=
       (loadCandles pass.prices pass.symbol .hour (bucketLimits pass.config).1 pass.now).length
     dailyCandles :=
       (loadCandles pass.prices pass.symbol .day (bucketLimits pass.config).2 pass.now).length
     candleIdentity := pass.result.candleIdentity
     previousAlignment := stored.map AlignmentState.alignment
     eventId := entry.2
     alertEventId := alert.2 })

inductive Step
  | pass (pass : Pass)
  | alertsEdited (tables : AlertTables)

def Store.next (store : Store) : Step → Store
  | .pass pass => (store.evaluateSymbol pass).1
  | .alertsEdited tables => { store with tables := tables }

def Store.after (store : Store) (steps : List Step) : Store := steps.foldl Store.next store

def Store.start (tables : AlertTables) : Store where
  states := fun _ ↦ none
  events := []
  tables := tables

theorem lt_freshId {ids : List ℕ} {id : ℕ} (h : id ∈ ids) : id < freshId ids := by
  induction ids with
  | nil => cases h
  | cons first rest ih =>
    simp only [freshId, foldr_cons] at ih ⊢
    cases mem_cons.mp h with
    | inl hfirst => omega
    | inr hrest =>
      have := ih hrest
      omega

theorem mem_timeframes (tf : Timeframe) : tf ∈ Timeframe.all := by
  cases tf <;> decide

theorem closeTriple_eq_some {identity : Timeframe → Option ℤ} {closes : Timeframe → ℤ} :
    closeTriple identity = some closes ↔ ∀ tf, identity tf = some (closes tf) := by
  constructor
  · intro h tf
    simp only [closeTriple, Option.bind_eq_bind, Option.bind_eq_some_iff, Option.pure_def,
      Option.some.injEq] at h
    obtain ⟨oneDay, hday, fourHour, hfour, oneHour, hhour, rfl⟩ := h
    cases tf <;> assumption
  · intro h
    simp only [closeTriple, h, Option.bind_eq_bind, Option.bind_some, Option.pure_def,
      Option.some.injEq]
    funext tf
    cases tf <;> rfl

theorem sameIdentity_iff {row row' : AlignmentEvent} :
    row.sameIdentity row' = true ↔ row.symbol = row'.symbol ∧ row.alignment = row'.alignment ∧
      row.latestCandleClose = row'.latestCandleClose := by
  simp only [AlignmentEvent.sameIdentity, Bool.and_eq_true, decide_eq_true_eq, all_eq_true,
    and_assoc]
  refine and_congr_right (fun _ ↦ and_congr_right (fun _ ↦ ⟨fun h ↦ ?_, fun h tf _ ↦ by rw [h]⟩))
  exact funext (fun tf ↦ h tf (mem_timeframes tf))

theorem trend_of_full {oneDay fourHour oneHour : TrendState}
    (h : isFull (alignment oneDay fourHour oneHour) = true) :
    oneDay ≠ .unavailable ∧ fourHour ≠ .unavailable ∧ oneHour ≠ .unavailable := by
  cases oneDay <;> cases fourHour <;> cases oneHour <;> revert h <;> decide

theorem closeTime_of_trend {tf : Timeframe} {done : List Candle} {now : ℤ} {config : TrendConfig}
    (h : (judge tf done now config).trend ≠ .unavailable) :
    ∃ close, (judge tf done now config).candleCloseTime = some close := by
  rw [judge_closeTime]
  cases hlast : done.getLast? with
  | none => exact absurd (by simp only [judge, hlast]) h
  | some last => exact ⟨_, rfl⟩

theorem closeTime_of_evaluation (tf : Timeframe) {symbol : String} {hourly daily : List Candle}
    {now : ℤ} {config : TrendConfig}
    (h : ((evaluate symbol hourly daily now config).timeframes tf).trend ≠ .unavailable) :
    ∃ close, (evaluate symbol hourly daily now config).candleIdentity tf = some close :=
  closeTime_of_trend h

theorem closes_of_full {symbol : String} {hourly daily : List Candle} {now : ℤ}
    {config : TrendConfig}
    (h : isFull (evaluate symbol hourly daily now config).alignment = true) :
    ∃ closes, closeTriple (evaluate symbol hourly daily now config).candleIdentity =
      some closes := by
  obtain ⟨hday, hfour, hhour⟩ := trend_of_full h
  obtain ⟨oneDay, hday⟩ := closeTime_of_evaluation .oneDay hday
  obtain ⟨fourHour, hfour⟩ := closeTime_of_evaluation .fourHour hfour
  obtain ⟨oneHour, hhour⟩ := closeTime_of_evaluation .oneHour hhour
  rw [closeTriple, hday, hfour, hhour]
  exact ⟨_, rfl⟩

def Store.enters (store : Store) (pass : Pass) : Prop :=
  isFull pass.result.alignment = true ∧
    (store.states pass.symbol).map AlignmentState.alignment ≠ some pass.result.alignment

/-- The row stands for the entry of this pass. -/
def AlignmentEvent.entryOf (row : AlignmentEvent) (pass : Pass) : Prop :=
  row.symbol = pass.symbol ∧ row.alignment = pass.result.alignment ∧
    ∀ tf, pass.result.candleIdentity tf = some (row.latestCandleClose tf)

theorem entryOf_iff_sameIdentity {row row' : AlignmentEvent} {pass : Pass}
    (h' : row'.entryOf pass) : row.sameIdentity row' = true ↔ row.entryOf pass := by
  obtain ⟨hsymbol, halignment, hcloses⟩ := h'
  rw [sameIdentity_iff, AlignmentEvent.entryOf, hsymbol, halignment]
  refine and_congr_right (fun _ ↦ and_congr_right (fun _ ↦ ⟨fun h tf ↦ ?_, fun h ↦ ?_⟩))
  · rw [h, hcloses]
  · funext tf
    exact Option.some.inj ((h tf).symm.trans (hcloses tf))

theorem recordEntry_of_not_enters {store : Store} {pass : Pass} (h : ¬ store.enters pass) :
    store.recordEntry pass = (store.events, none) := by
  have hguard : (isFull pass.result.alignment &&
      decide ((store.states pass.symbol).map AlignmentState.alignment ≠
        some pass.result.alignment)) = false := by
    rw [Bool.eq_false_iff]
    intro hguard
    rw [Bool.and_eq_true, decide_eq_true_eq] at hguard
    exact h hguard
  simp only [Store.recordEntry, hguard, Bool.false_eq_true, if_false]

theorem recordEntry_of_enters {store : Store} {pass : Pass} (h : store.enters pass) :
    (store.recordEntry pass = (store.events, none) ∧
      ∃ row ∈ store.events, row.entryOf pass) ∨
    ∃ row, store.recordEntry pass = (store.events ++ [row], some row.id) ∧ row.entryOf pass ∧
      row.alertEventId = none ∧ row.id = freshId (store.events.map AlignmentEvent.id) ∧
      ∀ stored ∈ store.events, stored.sameIdentity row = false := by
  obtain ⟨closes, hcloses⟩ : ∃ closes, closeTriple pass.result.candleIdentity = some closes :=
    closes_of_full h.1
  have hguard : (isFull pass.result.alignment &&
      decide ((store.states pass.symbol).map AlignmentState.alignment ≠
        some pass.result.alignment)) = true := by
    rw [Bool.and_eq_true, decide_eq_true_eq]
    exact h
  set row := eventValues (freshId (store.events.map AlignmentEvent.id)) pass.result pass.config
    ((store.states pass.symbol).map AlignmentState.alignment) closes with hrow
  have hentry : row.entryOf pass := ⟨rfl, rfl, closeTriple_eq_some.mp hcloses⟩
  simp only [Store.recordEntry, hguard, if_true, hcloses, insertEvent, ← hrow]
  split
  · rename_i hany
    obtain ⟨stored, hstored, hsame⟩ := any_eq_true.mp hany
    exact .inl ⟨rfl, stored, hstored, (entryOf_iff_sameIdentity hentry).mp hsame⟩
  · rename_i hany
    refine .inr ⟨row, rfl, hentry, rfl, rfl, fun stored hstored ↦ ?_⟩
    rw [Bool.not_eq_true, any_eq_false] at hany
    exact Bool.not_eq_true _ ▸ hany stored hstored

theorem fanOut_spec {payload : AlertPayload} {now : ℤ} {failsAt : Option ℕ} {statement : ℕ}
    {subscribers : List Alert} {tables tables' : AlertTables} {firstId firstId' : Option ℕ}
    (h : fanOut payload now failsAt statement subscribers (tables, firstId) =
      some (tables', firstId')) :
    ∃ rows, tables'.alertEvents = tables.alertEvents ++ rows ∧
      rows.map AlertEvent.alertId = subscribers.map Alert.id ∧
      (∀ row ∈ rows, row.payload = payload ∧ row.triggeredAt = now) ∧
      firstId' = firstId.or (rows.head?.map AlertEvent.id) := by
  induction subscribers generalizing statement tables firstId with
  | nil =>
    obtain ⟨rfl, rfl⟩ := Prod.mk.inj (Option.some.inj h)
    exact ⟨[], (append_nil _).symm, rfl, by simp, by simp⟩
  | cons subscriber rest ih =>
    rw [fanOut] at h
    split at h
    · cases h
    · obtain ⟨rows, hevents, hids, hrows, hfirst⟩ := ih h
      refine ⟨⟨freshId (tables.alertEvents.map AlertEvent.id), subscriber.id, subscriber.userId,
        now, payload⟩ :: rows, ?_, ?_, ?_, ?_⟩
      · rw [hevents, AlertTables.notify, append_assoc, singleton_append]
      · rw [map_cons, map_cons, hids]
      · intro row hrow
        cases mem_cons.mp hrow with
        | inl hnew => exact hnew ▸ ⟨rfl, rfl⟩
        | inr hold => exact hrows row hold
      · rw [hfirst, Option.or_assoc]
        rfl

/-- What a fan-out that was not rolled back leaves in `alert_events`. -/
structure Notified (before after : AlertTables) (pass : Pass) (event : AlignmentEvent)
    (rows : List AlertEvent) : Prop where
  added : after.alertEvents = before.alertEvents ++ rows
  subscribers : rows.map AlertEvent.alertId =
    (before.alerts.filter Alert.subscribed).map Alert.id
  linked : event.alertEventId = rows.head?.map AlertEvent.id
  payload : ∀ row ∈ rows, row.payload = alertPayload pass.result pass.config event.id

theorem alertEntry_some (store : Store) (pass : Pass) (eventId : ℕ) :
    store.alertEntry pass (some eventId) = (store.tables, none) ∨
    ∃ rows, (store.alertEntry pass (some eventId)).1.alertEvents =
        store.tables.alertEvents ++ rows ∧
      rows.map AlertEvent.alertId = (store.tables.alerts.filter Alert.subscribed).map Alert.id ∧
      (store.alertEntry pass (some eventId)).2 = rows.head?.map AlertEvent.id ∧
      ∀ row ∈ rows, row.payload = alertPayload pass.result pass.config eventId := by
  cases hwrite : writeAlertEvents store.tables pass.result pass.config eventId pass.now
      pass.failsAt with
  | none =>
    left
    simp only [Store.alertEntry, hwrite, Option.getD_none]
  | some written =>
    right
    obtain ⟨tables, firstId⟩ := written
    simp only [Store.alertEntry, hwrite, Option.getD_some]
    rw [writeAlertEvents] at hwrite
    split at hwrite
    · cases hwrite
    · obtain ⟨rows, hevents, hids, hrows, hfirst⟩ := fanOut_spec hwrite
      exact ⟨rows, hevents, hids, hfirst.trans (Option.none_or ..), fun row hrow ↦
        (hrows row hrow).1⟩

theorem linkAlert_fresh {events : List AlignmentEvent} {row : AlignmentEvent}
    (hid : row.id = freshId (events.map AlignmentEvent.id)) (hnone : row.alertEventId = none)
    (alertEventId : Option ℕ) :
    linkAlert (events ++ [row]) (some row.id) alertEventId =
      events ++ [{ row with alertEventId := alertEventId }] := by
  cases alertEventId with
  | none =>
    have hrow : { row with alertEventId := none } = row := by rw [← hnone]
    rw [hrow]
    rfl
  | some alertEventId =>
    have hold : events.map (fun stored ↦ if stored.id = row.id then
        { stored with alertEventId := some alertEventId } else stored) = events := by
      refine map_congr_left (fun stored hstored ↦ ?_) |>.trans (map_id _)
      have := lt_freshId (mem_map_of_mem (f := AlignmentEvent.id) hstored)
      rw [if_neg (by omega), id]
    rw [linkAlert, map_append, hold, map_singleton, if_pos rfl]

theorem evaluateSymbol_cases (store : Store) (pass : Pass) :
    ((store.evaluateSymbol pass).1.events = store.events ∧
      (store.evaluateSymbol pass).2.alertEventId = none ∧
      (store.enters pass → ∃ row ∈ store.events, row.entryOf pass)) ∨
    ∃ row rows, (store.evaluateSymbol pass).1.events = store.events ++ [row] ∧
      store.enters pass ∧ row.entryOf pass ∧
      (∀ stored ∈ store.events, stored.sameIdentity row = false) ∧
      (store.evaluateSymbol pass).2.alertEventId = row.alertEventId ∧
      (row.alertEventId = none ∨
        Notified store.tables (store.evaluateSymbol pass).1.tables pass row rows) := by
  by_cases h : store.enters pass
  · cases recordEntry_of_enters h with
    | inl hfound =>
      refine .inl ⟨?_, ?_, fun _ ↦ hfound.2⟩
      · simp only [Store.evaluateSymbol, hfound.1, linkAlert]
      · simp only [Store.evaluateSymbol, hfound.1, Store.alertEntry]
    | inr hnew =>
      obtain ⟨row, hrecord, hentry, hnone, hid, hdistinct⟩ := hnew
      have hevents : (store.evaluateSymbol pass).1.events = store.events ++
          [{ row with alertEventId := (store.alertEntry pass (some row.id)).2 }] := by
        simp only [Store.evaluateSymbol, hrecord]
        exact linkAlert_fresh hid hnone _
      have halert : (store.evaluateSymbol pass).2.alertEventId =
          (store.alertEntry pass (some row.id)).2 := by
        simp only [Store.evaluateSymbol, hrecord]
      have htables : (store.evaluateSymbol pass).1.tables =
          (store.alertEntry pass (some row.id)).1 := by
        simp only [Store.evaluateSymbol, hrecord]
      cases alertEntry_some store pass row.id with
      | inl hrolled =>
        exact .inr ⟨_, [], hevents, h, hentry, hdistinct, halert, .inl (by rw [hrolled])⟩
      | inr hkept =>
        obtain ⟨rows, hadded, hsubscribers, hlinked, hpayload⟩ := hkept
        exact .inr ⟨_, rows, hevents, h, hentry, hdistinct, halert,
          .inr ⟨htables ▸ hadded, hsubscribers, hlinked, hpayload⟩⟩
  · have hrecord := recordEntry_of_not_enters h
    refine .inl ⟨?_, ?_, fun hentry ↦ absurd hentry h⟩
    · simp only [Store.evaluateSymbol, hrecord, linkAlert]
    · simp only [Store.evaluateSymbol, hrecord, Store.alertEntry]

theorem evaluateSymbol_state (store : Store) (pass : Pass) :
    (store.evaluateSymbol pass).1.states = Function.update store.states pass.symbol
      (some (upsertState pass.result pass.config (store.states pass.symbol)
        ((store.evaluateSymbol pass).2.alertEventId.map (fun _ ↦ pass.now)) pass.clock)) := rfl

section History

variable {α : Type*} [DecidableEq α]

def changes : List α → ℕ
  | a :: b :: rest => (if a = b then 0 else 1) + changes (b :: rest)
  | _ => 0

def lastOther (history : List α) : Option α :=
  history.head?.bind (fun current ↦ history.find? (fun a ↦ a ≠ current))

theorem changes_cons_same {a : α} {history : List α} (h : history.head? = some a) :
    changes (a :: history) = changes history := by
  obtain ⟨rest, rfl⟩ := head?_eq_some_iff.mp h
  rw [changes, if_pos rfl, Nat.zero_add]

theorem changes_cons_other {a b : α} {history : List α} (h : history.head? = some b)
    (hne : b ≠ a) : changes (a :: history) = 1 + changes history := by
  obtain ⟨rest, rfl⟩ := head?_eq_some_iff.mp h
  rw [changes, if_neg (Ne.symm hne)]

theorem lastOther_cons_same {a : α} {history : List α} (h : history.head? = some a) :
    lastOther (a :: history) = lastOther history := by
  simp [lastOther, h]

theorem lastOther_cons_other {a b : α} {history : List α} (h : history.head? = some b)
    (hne : b ≠ a) : lastOther (a :: history) = some b := by
  obtain ⟨rest, rfl⟩ := head?_eq_some_iff.mp h
  simp [lastOther, hne]

end History

def Step.concludes (symbol : String) : Step → Option Alignment
  | .pass p => if p.symbol = symbol then some p.result.alignment else none
  | .alertsEdited _ => none

def conclusions (symbol : String) (steps : List Step) : List Alignment :=
  (steps.filterMap (Step.concludes symbol)).reverse

theorem conclusions_concat (symbol : String) (steps : List Step) (step : Step) :
    conclusions symbol (steps ++ [step]) =
      (step.concludes symbol).toList ++ conclusions symbol steps := by
  rw [conclusions, filterMap_append, reverse_append, conclusions]
  cases hstep : step.concludes symbol <;> simp [hstep]

structure Tells (row : AlignmentState) (history : List Alignment) : Prop where
  current : history.head? = some row.alignment
  version : row.stateVersion = 1 + changes history
  previous : row.previousAlignment = lastOther history

def Told (store : Store) (symbol : String) (history : List Alignment) : Prop :=
  (store.states symbol = none ∧ history = []) ∨
    ∃ row, store.states symbol = some row ∧ Tells row history

theorem upsertState_first (result : AlignmentResult) (config : TrendConfig)
    (alertedAt : Option ℤ) (clock : ℤ) :
    Tells (upsertState result config none alertedAt clock) [result.alignment] where
  current := rfl
  version := rfl
  previous := by simp [upsertState, lastOther]

theorem upsertState_tells {stored : AlignmentState} {history : List Alignment}
    (h : Tells stored history) (result : AlignmentResult) (config : TrendConfig)
    (alertedAt : Option ℤ) (clock : ℤ) :
    Tells (upsertState result config (some stored) alertedAt clock)
      (result.alignment :: history) := by
  by_cases hsame : stored.alignment = result.alignment
  · have hhead : history.head? = some result.alignment := hsame ▸ h.current
    refine ⟨rfl, ?_, ?_⟩
    · rw [changes_cons_same hhead, ← h.version]
      have := h.version
      simp [upsertState, hsame]
      omega
    · rw [lastOther_cons_same hhead, ← h.previous]
      simp [upsertState, hsame]
  · refine ⟨rfl, ?_, ?_⟩
    · rw [changes_cons_other h.current hsame, ← h.version]
      simp [upsertState, hsame]
      omega
    · rw [lastOther_cons_other h.current hsame]
      simp [upsertState, hsame]

theorem told_next {store : Store} {symbol : String} {history : List Alignment}
    (h : Told store symbol history) (step : Step) :
    Told (store.next step) symbol ((step.concludes symbol).toList ++ history) := by
  cases step with
  | alertsEdited tables => exact h
  | pass pass =>
    simp only [Step.concludes, Store.next]
    by_cases hsymbol : pass.symbol = symbol
    · subst hsymbol
      have hstates := evaluateSymbol_state store pass
      rw [if_pos rfl]
      refine .inr ⟨_, by rw [hstates, Function.update_self], ?_⟩
      cases h with
      | inl hfresh =>
        rw [hfresh.1, hfresh.2]
        exact upsertState_first _ _ _ _
      | inr hstored =>
        obtain ⟨row, hrow, htells⟩ := hstored
        rw [hrow]
        exact upsertState_tells htells _ _ _ _
    · rw [if_neg hsymbol]
      simpa [Told, evaluateSymbol_state, Function.update_of_ne (Ne.symm hsymbol)] using h

theorem told_after (tables : AlertTables) (symbol : String) (steps : List Step) :
    Told ((Store.start tables).after steps) symbol (conclusions symbol steps) := by
  induction steps using List.reverseRecOn with
  | nil => exact .inl ⟨rfl, rfl⟩
  | append_singleton steps step ih =>
    rw [conclusions_concat, Store.after, foldl_append]
    exact told_next ih step

def DistinctEntries (events : List AlignmentEvent) : Prop :=
  events.Pairwise (fun row row' ↦ row.sameIdentity row' = false)

theorem distinct_next {store : Store} (h : DistinctEntries store.events) (step : Step) :
    DistinctEntries (store.next step).events := by
  cases step with
  | alertsEdited tables => exact h
  | pass pass =>
    rw [Store.next]
    cases evaluateSymbol_cases store pass with
    | inl hkept => exact hkept.1 ▸ h
    | inr hnew =>
      obtain ⟨row, rows, hevents, _, _, hdistinct, _⟩ := hnew
      rw [hevents, DistinctEntries, pairwise_append]
      refine ⟨h, pairwise_singleton _ _, fun stored hstored new hmem ↦ ?_⟩
      exact mem_singleton.mp hmem ▸ hdistinct stored hstored

theorem events_kept (store : Store) (step : Step) : store.events ⊆ (store.next step).events := by
  cases step with
  | alertsEdited tables => exact List.Subset.refl _
  | pass pass =>
    rw [Store.next]
    cases evaluateSymbol_cases store pass with
    | inl hkept => exact hkept.1 ▸ List.Subset.refl _
    | inr hnew =>
      obtain ⟨row, rows, hevents, _⟩ := hnew
      exact hevents ▸ subset_append_left _ _

theorem events_kept_after (store : Store) (steps : List Step) :
    store.events ⊆ (store.after steps).events := by
  induction steps generalizing store with
  | nil => exact List.Subset.refl _
  | cons step steps ih => exact List.Subset.trans (events_kept store step) (ih (store.next step))

theorem distinct_after (tables : AlertTables) (steps : List Step) :
    DistinctEntries ((Store.start tables).after steps).events := by
  induction steps using List.reverseRecOn with
  | nil => exact List.Pairwise.nil
  | append_singleton steps step ih =>
    rw [Store.after, foldl_append]
    exact distinct_next ih step

def Announces (store : Store) (step : Step) (symbol : String) (direction : Alignment) : Prop :=
  ∃ pass row rows, step = .pass pass ∧ pass.symbol = symbol ∧
    (store.next step).events = store.events ++ [row] ∧ row.entryOf pass ∧
    row.alignment = direction ∧ Notified store.tables (store.next step).tables pass row rows ∧
    rows ≠ []

theorem states_of_other {store : Store} {step : Step} {symbol : String}
    (h : step.concludes symbol = none) :
    (store.next step).states symbol = store.states symbol := by
  cases step with
  | alertsEdited tables => rfl
  | pass pass =>
    have hsymbol : pass.symbol ≠ symbol := by
      intro hsymbol
      rw [Step.concludes, if_pos hsymbol] at h
      cases h
    rw [Store.next, evaluateSymbol_state, Function.update_of_ne (Ne.symm hsymbol)]

section Stamp

variable {stamp : AlignmentState → Option ℤ} {direction : Alignment}
  (hstamp : ∀ result config stored alertedAt clock, isFull result.alignment = true →
    stamp (upsertState result config stored alertedAt clock) ≠ stored.bind stamp →
      result.alignment = direction)
  (hquiet : ∀ result config stored clock,
    stamp (upsertState result config stored none clock) = stored.bind stamp)

include hstamp hquiet

theorem pass_announces {store : Store} {pass : Pass}
    (h : ((store.next (.pass pass)).states pass.symbol).bind stamp ≠
      (store.states pass.symbol).bind stamp) :
    Announces store (.pass pass) pass.symbol direction := by
  have hstate : ((store.next (.pass pass)).states pass.symbol).bind stamp =
      stamp (upsertState pass.result pass.config (store.states pass.symbol)
        ((store.evaluateSymbol pass).2.alertEventId.map (fun _ ↦ pass.now)) pass.clock) := by
    rw [Store.next, evaluateSymbol_state, Function.update_self, Option.bind_some]
  rw [hstate] at h
  have halerted : (store.evaluateSymbol pass).2.alertEventId ≠ none := by
    intro hnone
    rw [hnone] at h
    exact h (hquiet _ _ _ _)
  cases evaluateSymbol_cases store pass with
  | inl hkept => exact absurd hkept.2.1 halerted
  | inr hnew =>
    obtain ⟨row, rows, hevents, henters, hentry, _, hid, hrows⟩ := hnew
    rw [hid] at halerted
    have hnotified := hrows.resolve_left halerted
    refine ⟨pass, row, rows, rfl, rfl, hevents, hentry, ?_, hnotified, ?_⟩
    · rw [hentry.2.1]
      exact hstamp _ _ _ _ _ henters.1 h
    · rintro rfl
      exact halerted hnotified.linked

theorem announces_of_stamp {store : Store} {step : Step} {symbol : String}
    (h : ((store.next step).states symbol).bind stamp ≠ (store.states symbol).bind stamp) :
    Announces store step symbol direction := by
  cases hconcludes : step.concludes symbol with
  | none => exact absurd (congrArg (Option.bind · stamp) (states_of_other hconcludes)) h
  | some alignment =>
    cases step with
    | alertsEdited tables => cases hconcludes
    | pass pass =>
      obtain rfl : pass.symbol = symbol := by
        by_contra hsymbol
        rw [Step.concludes, if_neg hsymbol] at hconcludes
        cases hconcludes
      exact pass_announces hstamp hquiet h

end Stamp

theorem enters_recorded {store : Store} {pass : Pass} (h : store.enters pass) :
    ∃ row ∈ (store.next (.pass pass)).events, row.entryOf pass := by
  rw [Store.next]
  cases evaluateSymbol_cases store pass with
  | inl hkept => exact hkept.1 ▸ hkept.2.2 h
  | inr hnew =>
    obtain ⟨row, rows, hevents, _, hentry, _⟩ := hnew
    exact ⟨row, hevents ▸ mem_append_right _ (mem_singleton_self row), hentry⟩

theorem events_of_same_alignment {store : Store} {pass : Pass}
    (h : (store.states pass.symbol).map AlignmentState.alignment = some pass.result.alignment) :
    (store.next (.pass pass)).events = store.events := by
  rw [Store.next]
  cases evaluateSymbol_cases store pass with
  | inl hkept => exact hkept.1
  | inr hnew =>
    obtain ⟨row, rows, _, henters, _⟩ := hnew
    exact absurd h henters.2

theorem state_after (tables : AlertTables) (symbol : String) (steps : List Step) :
    let store := (Store.start tables).after steps
    (store.states symbol).map AlignmentState.alignment = (conclusions symbol steps).head? ∧
      ∀ row, store.states symbol = some row →
        row.stateVersion = 1 + changes (conclusions symbol steps) ∧
        row.previousAlignment = lastOther (conclusions symbol steps) := by
  intro store
  cases told_after tables symbol steps with
  | inl hfresh =>
    rw [hfresh.1, hfresh.2]
    exact ⟨rfl, fun row hrow ↦ by cases hrow⟩
  | inr hstored =>
    obtain ⟨row, hrow, htells⟩ := hstored
    rw [hrow]
    refine ⟨htells.current.symm, fun row' hrow' ↦ ?_⟩
    exact Option.some.inj hrow' ▸ ⟨htells.version, htells.previous⟩

/-- Entries are recorded once, the state row tells the symbol's history, and
only a committed alert moves an alert time: in every state that passes of any
symbols and edits of the subscriptions lead to. -/
theorem transitions_recorded_once (tables : AlertTables) (symbol : String) (steps : List Step) :
    let store := (Store.start tables).after steps
    store.events.Pairwise (fun row row' ↦ row.sameIdentity row' = false) ∧
    (∀ pass, store.enters pass → ∀ later,
      ∃ row ∈ ((store.next (.pass pass)).after later).events, row.entryOf pass) ∧
    (∀ pass, (store.states pass.symbol).map AlignmentState.alignment =
        some pass.result.alignment →
      (store.next (.pass pass)).events = store.events) ∧
    ((store.states symbol).map AlignmentState.alignment = (conclusions symbol steps).head? ∧
      ∀ row, store.states symbol = some row →
        row.stateVersion = 1 + changes (conclusions symbol steps) ∧
        row.previousAlignment = lastOther (conclusions symbol steps)) ∧
    (∀ step, ((store.next step).states symbol).bind AlignmentState.lastBullishAlertAt ≠
        (store.states symbol).bind AlignmentState.lastBullishAlertAt →
      Announces store step symbol .fullBullish) ∧
    (∀ step, ((store.next step).states symbol).bind AlignmentState.lastBearishAlertAt ≠
        (store.states symbol).bind AlignmentState.lastBearishAlertAt →
      Announces store step symbol .fullBearish) := by
  intro store
  refine ⟨distinct_after tables steps, fun pass henters later ↦ ?_,
    fun pass hsame ↦ events_of_same_alignment hsame, state_after tables symbol steps,
    fun step ↦ ?_, fun step ↦ ?_⟩
  · obtain ⟨row, hrow, hentry⟩ := enters_recorded henters
    exact ⟨row, events_kept_after _ later hrow, hentry⟩
  · refine announces_of_stamp (fun result config stored alertedAt clock hfull hne ↦ ?_)
      (fun result config stored clock ↦ ?_)
    · by_contra hother
      exact hne (by simp [upsertState, hother])
    · simp [upsertState]
  · refine announces_of_stamp (fun result config stored alertedAt clock hfull hne ↦ ?_)
      (fun result config stored clock ↦ ?_)
    · have hother : result.alignment ≠ .fullBullish := by
        intro hbull
        exact hne (by simp [upsertState, hbull])
      simpa [isFull, hother] using hfull
    · simp [upsertState]

end TalaPala.Trend
