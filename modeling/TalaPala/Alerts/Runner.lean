import TalaPala.Clock
import TalaPala.Library.Transition
import TalaPala.MarketHours.Calendars

namespace TalaPala.Alerts

open Library MarketHours Transition List

section Evaluation

inductive AlertType
  | priceAbove
  | priceBelow
  | signalChange
  | confidenceAbove
  | volatilitySpike
  | premiumAbove
  | staleData
  | providerFailure
  | modelDegradation
  | trendAlignment
  deriving DecidableEq

inductive Signal
  | strongBuy
  | buy
  | hold
  | sell
  | strongSell
  deriving DecidableEq

structure Alert where
  id : ℕ
  userId : String
  alertType : AlertType
  /-- The numbers of the JSON condition. -/
  condition : List (String × ℚ)
  enabled : Bool
  cooldownMinutes : ℤ
  lastTriggeredAt : Option Instant
  cooldown_valid : 1 ≤ cooldownMinutes ∧ cooldownMinutes ≤ 10080
  deriving DecidableEq

structure PricePoint where
  value : ℚ
  observedAt : ℤ

structure SignalInfo where
  signal : Signal
  confidence : ℚ
  generatedAt : Instant

structure ProviderHealth where
  code : String
  enabled : Bool
  consecutiveFailures : ℤ
  lastError : String

structure ModelPerf where
  horizon : String
  modelName : String
  smape : ℚ
  baselineSmape : ℚ

/-- What one pass reads before it looks at any alert. `now` is in nanoseconds, as
in `time.Time`. -/
structure Snapshot where
  now : ℤ
  gold : Option PricePoint
  latestSignal : Option SignalInfo
  previousSignal : Option SignalInfo
  premiumPct : Option ℚ
  volatilityAnnPct : Option ℚ
  staleMinutes : ℤ
  marketOpen : HHMM
  marketClose : HHMM
  providers : List ProviderHealth
  models : List ModelPerf

inductive Message
  | priceAbove (price threshold : ℚ)
  | priceBelow (price threshold : ℚ)
  | signalChange (previous latest : Signal) (generatedAt : Instant)
  | confidenceAbove (signal : Signal) (confidence threshold : ℚ)
  | volatilitySpike (volatilityPct threshold : ℚ)
  | premiumAbove (premiumPct threshold : ℚ)
  | noGoldPrice (thresholdMinutes : ℤ)
  | goldStale (ageMinutes : ℚ) (thresholdMinutes observedAt : ℤ) (marketOpen : Bool)
  | providersFailing (failing : List ProviderHealth) (threshold : ℤ)
  | modelsDegraded (degraded : List ModelPerf) (tolerancePct : ℚ)

/-- A stored instant as `time.Time`, and `time.Time` as it is stored: the driver
drops what is below a microsecond. -/
def fromStored (t : Instant) : ℤ := t * 1000

def toStored (now : ℤ) : Instant := now / 1000

/-- `Sub` saturates, the product of two durations wraps. -/
def cooldownOK (lastTriggeredAt : Option Instant) (cooldownMinutes now : ℤ) : Bool :=
  match lastTriggeredAt with
  | none => true
  | some last =>
    decide (wrap64 (cooldownMinutes * Go.minute) ≤ saturate64 (now - fromStored last))

def condFloat (cond : List (String × ℚ)) (key : String) (default : ℚ) : ℚ :=
  (cond.lookup key).getD default

def truncate (q : ℚ) : ℤ := q.num.tdiv q.den

def evaluate (a : Alert) (s : Snapshot) : Option Message :=
  match a.alertType with
  | .priceAbove =>
    let threshold := condFloat a.condition "threshold" 0
    (s.gold.filter (fun gold ↦ decide (0 < threshold) && decide (threshold < gold.value))).map
      (fun gold ↦ .priceAbove gold.value threshold)
  | .priceBelow =>
    let threshold := condFloat a.condition "threshold" 0
    (s.gold.filter (fun gold ↦ decide (0 < threshold) && decide (gold.value < threshold))).map
      (fun gold ↦ .priceBelow gold.value threshold)
  | .signalChange =>
    match s.latestSignal, s.previousSignal with
    | some latest, some previous =>
      if latest.signal ≠ previous.signal then
        some (.signalChange previous.signal latest.signal latest.generatedAt)
      else none
    | _, _ => none
  | .confidenceAbove =>
    let threshold := condFloat a.condition "threshold" 0.8
    (s.latestSignal.filter (fun latest ↦ decide (threshold < latest.confidence))).map
      (fun latest ↦ .confidenceAbove latest.signal latest.confidence threshold)
  | .volatilitySpike =>
    let threshold := condFloat a.condition "threshold" 50
    (s.volatilityAnnPct.filter (fun pct ↦ decide (threshold < pct))).map
      (fun pct ↦ .volatilitySpike pct threshold)
  | .premiumAbove =>
    let threshold := condFloat a.condition "threshold" 5
    (s.premiumPct.filter (fun pct ↦ decide (threshold < pct))).map
      (fun pct ↦ .premiumAbove pct threshold)
  | .staleData =>
    let minutes := truncate (condFloat a.condition "threshold_minutes" s.staleMinutes)
    let minutes := if minutes ≤ 0 then s.staleMinutes else minutes
    match s.gold with
    | none => some (.noGoldPrice minutes)
    | some gold =>
      if Go.acceptablyFreshFrom "IR_GOLD_18K" "" gold.observedAt s.now minutes s.marketOpen
          s.marketClose then none
      else
        let age : ℚ := saturate64 (s.now - gold.observedAt) / Go.minute
        some (.goldStale age minutes gold.observedAt
          (Go.isOpen "IR_GOLD_18K" s.now s.marketOpen s.marketClose))
  | .providerFailure =>
    let threshold := truncate (condFloat a.condition "threshold" 3)
    let threshold := if threshold ≤ 0 then 3 else threshold
    let failing := s.providers.filter (fun p ↦
      p.enabled && decide (threshold ≤ p.consecutiveFailures))
    if failing = [] then none else some (.providersFailing failing threshold)
  | .modelDegradation =>
    let tolerancePct := condFloat a.condition "tolerance_pct" 0
    let degraded := s.models.filter (fun m ↦
      decide (0 < m.baselineSmape) && decide (m.baselineSmape * (1 + tolerancePct / 100) < m.smape))
    if degraded = [] then none else some (.modelsDegraded degraded tolerancePct)
  -- The prediction service fires these from its own job.
  | .trendAlignment => none

end Evaluation

/-- A row of `alert_events`. -/
structure Event where
  alertId : ℕ
  userId : String
  triggeredAt : Instant
  message : Message

structure Store where
  alerts : List Alert
  events : List Event
  ids_nodup : (alerts.map Alert.id).Nodup

def stamp (id : ℕ) (now : ℤ) (a : Alert) : Alert :=
  if a.id = id then { a with lastTriggeredAt := some (toStored now) } else a

@[simp] theorem stamp_id (id : ℕ) (now : ℤ) (a : Alert) : (stamp id now a).id = a.id := by
  rw [stamp]
  split <;> rfl

def Store.write (db : Store) (a : Alert) (s : Snapshot) (message : Message) : Store where
  alerts := db.alerts.map (stamp a.id s.now)
  events := ⟨a.id, a.userId, toStored s.now, message⟩ :: db.events
  ids_nodup := by
    have hids : Alert.id ∘ stamp a.id s.now = Alert.id := funext (stamp_id a.id s.now)
    rw [map_map, hids]
    exact db.ids_nodup

inductive Outcome
  | beginFails
  | fails
  | commits
  deriving DecidableEq

def due (a : Alert) (s : Snapshot) : Option Message :=
  if cooldownOK a.lastTriggeredAt a.cooldownMinutes s.now then evaluate a s else none

def written (a : Alert) (s : Snapshot) : Outcome → Option Message
  | .commits => due a s
  | _ => none

/-- One alert in the loop of `Run`. Only a `Begin` that fails ends the pass. -/
def Store.handle (db : Store) (s : Snapshot) (a : Alert) (outcome : Outcome) : Store :=
  match written a s outcome with
  | some message => db.write a s message
  | none => db

def ends (a : Alert) (s : Snapshot) (outcome : Outcome) : Bool :=
  (due a s).isSome && decide (outcome = .beginFails)

def Store.enabled (db : Store) : List Alert := db.alerts.filter Alert.enabled

inductive Phase
  | idle
  | loaded (snap : Snapshot)
  | evaluating (snap : Snapshot) (rest : List Alert)

structure State where
  store : Store
  phase : ℕ → Phase

def State.setPhase (s : State) (pass : ℕ) (phase : Phase) : State :=
  { s with phase := Function.update s.phase pass phase }

/-- `read` gives the enabled alerts in whatever order; `stop` is the end of a
pass, after the last alert or on an error before it. -/
inductive Step
  | load (pass : ℕ) (snap : Snapshot)
  | read (pass : ℕ) (list : List Alert)
  | handle (pass : ℕ) (outcome : Outcome)
  | stop (pass : ℕ)

def next (s : State) : Step → Option State
  | .load pass snap =>
    match s.phase pass with
    | .idle => some (s.setPhase pass (.loaded snap))
    | _ => none
  | .read pass list =>
    match s.phase pass with
    | .loaded snap =>
      if list.Perm s.store.enabled then some (s.setPhase pass (.evaluating snap list)) else none
    | _ => none
  | .handle pass outcome =>
    match s.phase pass with
    | .evaluating snap (a :: rest) =>
      some ({ s with store := s.store.handle snap a outcome }.setPhase pass
        (if ends a snap outcome then .idle else .evaluating snap rest))
    | _ => none
  | .stop pass => some (s.setPhase pass .idle)

def Store.triggered (db : Store) (id : ℕ) : List Instant :=
  (db.events.filter (fun event ↦ event.alertId = id)).map Event.triggeredAt

def Alert.cooldown (a : Alert) : ℤ := a.cooldownMinutes * 60000000

def Store.Cooled (db : Store) : Prop :=
  ∀ a ∈ db.alerts, (db.triggered a.id).Pairwise (fun t t' ↦ a.cooldown ≤ |t - t'|) ∧
    a.lastTriggeredAt = (db.triggered a.id).max?

def State.Cooled (s : State) : Prop := s.store.Cooled

def StillCooled (s : State) (step : Step) : Prop :=
  ∀ pass snap a rest, step = .handle pass .commits → s.phase pass = .evaluating snap (a :: rest) →
    (due a snap).isSome → ∀ b ∈ s.store.alerts, b.id = a.id →
      cooldownOK b.lastTriggeredAt b.cooldownMinutes snap.now

section OneWrite

theorem cooldownOK_some (a : Alert) (last : Instant) (now : ℤ) :
    cooldownOK (some last) a.cooldownMinutes now ↔ a.cooldown ≤ toStored now - last := by
  obtain ⟨hmin, hmax⟩ := a.cooldown_valid
  have hwrap : wrap64 (a.cooldownMinutes * Go.minute) = a.cooldownMinutes * Go.minute := by
    refine wrap64_of_mem ?_ ?_ <;> rw [Go.minute] <;> simp only [minInt64, maxInt64] <;> omega
  rw [cooldownOK, decide_eq_true_eq, hwrap, Alert.cooldown, toStored, fromStored, Go.minute,
    saturate64, minInt64, maxInt64]
  omega

theorem max?_cons_eq_self {t : ℤ} {l : List ℤ} (h : (t :: l).max? = some t) {u : ℤ} (hu : u ∈ l) :
    u ≤ t :=
  (max?_eq_some_iff.mp h).2 u (mem_cons_of_mem t hu)

variable {db : Store} {a : Alert} {s : Snapshot} {message : Message}

theorem triggered_write_self :
    (db.write a s message).triggered a.id = toStored s.now :: db.triggered a.id := by
  simp [Store.triggered, Store.write]

theorem triggered_write_other {id : ℕ} (h : id ≠ a.id) :
    (db.write a s message).triggered id = db.triggered id := by
  simp [Store.triggered, Store.write, h.symm]

theorem stamp_cooldown (b : Alert) : (stamp a.id s.now b).cooldown = b.cooldown := by
  rw [stamp]
  split <;> rfl

theorem Store.Cooled.write (h : db.Cooled) (hstill : ∀ b ∈ db.alerts, b.id = a.id →
    cooldownOK b.lastTriggeredAt b.cooldownMinutes s.now) : (db.write a s message).Cooled := by
  intro c hc
  obtain ⟨b, hb, rfl⟩ := mem_map.mp hc
  obtain ⟨hpairs, hlast⟩ := h b hb
  rw [stamp_id, stamp_cooldown]
  by_cases hid : b.id = a.id
  · have hok := hstill b hb hid
    rw [hid] at hpairs hlast ⊢
    have hafter : ∀ t ∈ db.triggered a.id, b.cooldown ≤ toStored s.now - t := by
      intro t ht
      cases hmax : (db.triggered a.id).max? with
      | none => rw [max?_eq_none_iff.mp hmax] at ht; cases ht
      | some last =>
        rw [hlast, hmax, cooldownOK_some] at hok
        have hle : t ≤ last := (max?_eq_some_iff.mp hmax).2 t ht
        calc b.cooldown ≤ toStored s.now - last := hok
          _ ≤ toStored s.now - t := Int.sub_le_sub_left hle _
    have hpos : 0 < b.cooldown := by
      rw [Alert.cooldown]
      have := b.cooldown_valid
      omega
    rw [triggered_write_self]
    refine ⟨pairwise_cons.mpr ⟨fun t ht ↦ ?_, hpairs⟩, ?_⟩
    · exact (hafter t ht).trans (le_abs_self _)
    · rw [stamp, if_pos hid]
      refine (max?_eq_some_iff.mpr ⟨mem_cons_self, fun t ht ↦ ?_⟩).symm
      rcases mem_cons.mp ht with rfl | ht
      · exact le_rfl
      · exact Int.sub_nonneg.mp (hpos.le.trans (hafter t ht))
  · rw [triggered_write_other hid, stamp, if_neg hid]
    exact ⟨hpairs, hlast⟩

theorem Store.Cooled.of_write (h : db.Cooled) (hwrite : (db.write a s message).Cooled) :
    ∀ b ∈ db.alerts, b.id = a.id → cooldownOK b.lastTriggeredAt b.cooldownMinutes s.now := by
  intro b hb hid
  obtain ⟨-, hlast⟩ := h b hb
  obtain ⟨hpairs, hnewest⟩ := hwrite (stamp a.id s.now b) (mem_map.mpr ⟨b, hb, rfl⟩)
  rw [stamp_id, hid, triggered_write_self] at hpairs hnewest
  rw [stamp_cooldown] at hpairs
  rw [stamp, if_pos hid] at hnewest
  rw [hid] at hlast
  cases hmax : (db.triggered a.id).max? with
  | none => rw [hlast, hmax]; rfl
  | some last =>
    have hmem : last ∈ db.triggered a.id := (max?_eq_some_iff.mp hmax).1
    have hle := max?_cons_eq_self hnewest.symm hmem
    have habs := (pairwise_cons.mp hpairs).1 last hmem
    rw [abs_of_nonneg (by omega)] at habs
    rw [hlast, hmax, cooldownOK_some]
    exact habs

theorem handle_of_due (h : due a s = some message) :
    db.handle s a .commits = db.write a s message := by
  rw [Store.handle, written, h]

theorem handle_of_not_commits {outcome : Outcome} (h : outcome ≠ .commits) :
    db.handle s a outcome = db := by
  cases outcome with
  | commits => exact absurd rfl h
  | beginFails => rfl
  | fails => rfl

theorem handle_of_not_due (h : due a s = none) : db.handle s a .commits = db := by
  rw [Store.handle, written, h]

end OneWrite

theorem next_store {s t : State} {step : Step} (h : next s step = some t) :
    t.store = s.store ∨ ∃ pass snap a rest outcome, step = .handle pass outcome ∧
      s.phase pass = .evaluating snap (a :: rest) ∧ t.store = s.store.handle snap a outcome := by
  cases step with
  | load pass snap =>
    rw [next] at h
    split at h <;> cases h
    exact .inl rfl
  | read pass list =>
    rw [next] at h
    split at h
    · split at h <;> cases h
      exact .inl rfl
    · cases h
  | handle pass outcome =>
    rw [next] at h
    split at h
    · rename_i snap a rest hphase
      cases h
      exact .inr ⟨pass, snap, a, rest, outcome, rfl, hphase, rfl⟩
    · cases h
  | stop pass =>
    cases h
    exact .inl rfl

theorem cooled_next_iff {s t : State} {step : Step} (hs : s.Cooled)
    (h : next s step = some t) : StillCooled s step ↔ t.Cooled := by
  constructor
  · intro hstill
    obtain hsame | ⟨pass, snap, a, rest, outcome, rfl, hphase, hstore⟩ := next_store h
    · rwa [State.Cooled, hsame]
    by_cases hcommits : outcome = .commits
    · subst hcommits
      cases hdue : due a snap with
      | none => rwa [State.Cooled, hstore, handle_of_not_due hdue]
      | some message =>
        rw [State.Cooled, hstore, handle_of_due hdue]
        exact hs.write (hstill pass snap a rest rfl hphase (by rw [hdue]; rfl))
    · rwa [State.Cooled, hstore, handle_of_not_commits hcommits]
  · rintro ht pass snap a rest rfl hphase hdue
    obtain ⟨message, hmessage⟩ := Option.isSome_iff_exists.mp hdue
    have hstore : t.store = s.store.write a snap message := by
      simp only [next, hphase, Option.some.injEq] at h
      rw [← h, State.setPhase, handle_of_due hmessage]
    rw [State.Cooled, hstore] at ht
    exact hs.of_write ht

section Overlap

def staleAlert : Alert where
  id := 1
  userId := "u"
  alertType := .staleData
  condition := []
  enabled := true
  cooldownMinutes := 60
  lastTriggeredAt := none
  cooldown_valid := by decide

def emptySnapshot (now : ℤ) : Snapshot where
  now := now
  gold := none
  latestSignal := none
  previousSignal := none
  premiumPct := none
  volatilityAnnPct := none
  staleMinutes := 30
  marketOpen := tseOpen
  marketClose := tseClose
  providers := []
  models := []

def oneAlert : State where
  store := ⟨[staleAlert], [], by decide⟩
  phase := fun _ ↦ .idle

theorem oneAlert_cooled : oneAlert.Cooled := by
  intro a ha
  obtain rfl := mem_singleton.mp ha
  exact ⟨.nil, rfl⟩

def soloPass : List Step :=
  [.load 1 (emptySnapshot 0), .read 1 [staleAlert], .handle 1 .commits, .stop 1]

theorem soloPass_still : ∃ s, Run next StillCooled oneAlert soloPass s ∧
    s.store.triggered 1 = [0] := by
  have hsilent : ∀ {s : State} {step : Step}, (∀ pass, step ≠ .handle pass .commits) →
      StillCooled s step := fun h pass _ _ _ heq ↦ absurd heq (h pass)
  refine ⟨_, .cons (hsilent (by simp)) rfl (.cons (hsilent (by simp)) rfl
    (.cons ?_ rfl (.cons (hsilent (by simp)) rfl (.nil _)))), rfl⟩
  intro pass snap a rest _ _ _ b hb _
  obtain rfl := mem_singleton.mp hb
  rfl

def overlapping : List Step :=
  [.load 1 (emptySnapshot 0), .load 2 (emptySnapshot (Go.minute)), .read 1 [staleAlert],
    .read 2 [staleAlert], .handle 1 .commits, .handle 2 .commits]

end Overlap

end TalaPala.Alerts
