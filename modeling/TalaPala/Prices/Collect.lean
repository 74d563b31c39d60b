import TalaPala.Library.Latest
import TalaPala.Library.OrderStatistics
import TalaPala.MarketHours.Calendars
import TalaPala.Prices.Ticks

namespace TalaPala.Prices

open Library MarketHours

def maxJumpPct : ℚ := 15

def confirmTolerancePct : ℚ := 3

def madThreshold : ℚ := 8

def sustainMinObservations : ℕ := 5

def sustainMinSpanMinutes : ℚ := 90

def sanityRanges : List (String × ℚ × ℚ) :=
  [("IR_GOLD_18K", 1e5, 1e9), ("IR_COIN_EMAMI", 1e6, 1e12), ("USD_IRT", 1e3, 1e7),
    ("XAUUSD", 500, 20000), ("XAGUSD", 5, 500), ("BRENT_OIL", 10, 500), ("DXY", 50, 200),
    ("US10Y", 0, 25), ("IR_GOLD_FUND_AYAR", 1e2, 1e8), ("IR_GOLD_FUND_TALA", 1e2, 1e8),
    ("IR_GOLD_FUND_KAHRABA", 1e2, 1e8), ("IR_GOLD_FUND_FLOW", -100, 100)]

def oscillatingSymbols : List String := ["IR_GOLD_FUND_FLOW"]

def sanityOk (symbol : String) (value : ℚ) : Bool :=
  match sanityRanges.lookup symbol with
  | some (lo, hi) => decide (lo ≤ value) && decide (value ≤ hi)
  | none => decide (0 ≤ value)

def isMadOutlier (value : ℚ) (window : List ℚ) : Bool :=
  if window.length < 5 then false
  else
    let med := median window
    let mad := median (window.map (fun v ↦ |v - med|))
    let scale := if 0 < mad then 1.4826 * mad else max (|med| * 1e-4) 1e-12
    decide (madThreshold < |value - med| / scale)

def jumpPct (value lastGood : ℚ) : ℚ :=
  if lastGood = 0 then 0 else |value - lastGood| / |lastGood| * 100

def valuesAgree (a b : ℚ) : Bool :=
  if a = 0 ∧ b = 0 then true
  else decide (|a - b| / max |a| |b| * 100 ≤ confirmTolerancePct)

inductive Reason
  | outsidePlausibleRange (value : ℚ)
  | jump (pct lastGood : ℚ)
  | deviatesFromMedian

def classifyObservation (symbol : String) (value : ℚ) (recentWindow : List ℚ)
    (lastGood : Option ℚ) : Quality × Option Reason :=
  if !sanityOk symbol value then (.outlier, some (.outsidePlausibleRange value))
  else if oscillatingSymbols.contains symbol then (.ok, none)
  else
    match lastGood.filter (fun last ↦ decide (maxJumpPct < jumpPct value last)) with
    | some last => (.suspect, some (.jump (jumpPct value last) last))
    | none =>
      if isMadOutlier value recentWindow then (.suspect, some .deviatesFromMedian) else (.ok, none)

structure SuspectStreak where
  length : ℕ
  spanMinutes : ℚ
  since : Instant

/-- The walk back over one provider's rows, `length` and `since` so far. -/
def walkBack (value : ℚ) (length : ℕ) (since : Instant) :
    List (Instant × ℚ × Quality) → ℕ × Instant
  | [] => (length, since)
  | (observedAt, pastValue, quality) :: history =>
    if quality ≠ .suspect ∨ ¬valuesAgree value pastValue then (length, since)
    -- The same instant observed again is evidence of nothing new.
    else if since ≤ observedAt then walkBack value length since history
    else walkBack value (length + 1) observedAt history

def suspectStreak (value : ℚ) (at' : Instant) (history : List (Instant × ℚ × Quality)) :
    SuspectStreak :=
  let walk := walkBack value 1 at' history
  ⟨walk.1, max (((at' - walk.2 : ℤ) : ℚ) / 1000000 / 60) 0, walk.2⟩

def sustainedByRepetition (streak : SuspectStreak) : Bool :=
  decide (sustainMinObservations ≤ streak.length) &&
    decide (sustainMinSpanMinutes ≤ streak.spanMinutes)

theorem walkBack_run (value : ℚ) (length : ℕ) (since : Instant)
    (history : List (Instant × ℚ × Quality)) :
    ∃ run : List (Instant × ℚ × Quality), run.Sublist history ∧
      (∀ r ∈ run, r.2.2 = .suspect ∧ valuesAgree value r.2.1) ∧
      (since :: run.map Prod.fst).Pairwise (· > ·) ∧
      walkBack value length since history =
        (length + run.length, (since :: run.map Prod.fst).getLast (List.cons_ne_nil _ _)) := by
  induction history generalizing length since with
  | nil => exact ⟨[], List.Sublist.refl _, by simp, by simp, rfl⟩
  | cons row history ih =>
    obtain ⟨observedAt, pastValue, quality⟩ := row
    rw [walkBack]
    split
    next => exact ⟨[], List.nil_sublist _, by simp, by simp, rfl⟩
    next hrow =>
      rw [not_or, not_not, not_not] at hrow
      split
      next =>
        obtain ⟨run, hsub, hrun, hdesc, hwalk⟩ := ih length since
        exact ⟨run, hsub.cons _, hrun, hdesc, hwalk⟩
      next hbefore =>
        obtain ⟨run, hsub, hrun, hdesc, hwalk⟩ := ih (length + 1) observedAt
        refine ⟨(observedAt, pastValue, quality) :: run, hsub.cons_cons _, ?_, ?_, ?_⟩
        · intro r hr
          rcases List.mem_cons.1 hr with rfl | hr
          · exact hrow
          · exact hrun r hr
        · rw [List.map_cons, List.pairwise_cons]
          refine ⟨fun t ht ↦ ?_, hdesc⟩
          have hgt := (List.pairwise_cons.1 hdesc).1
          rcases List.mem_cons.1 ht with rfl | ht
          · exact not_le.1 hbefore
          · exact (hgt t ht).trans (not_le.1 hbefore)
        · rw [hwalk, List.length_cons, List.map_cons, List.getLast_cons_cons]
          congr 1
          omega

structure Observation where
  providerCode : String
  symbol : String
  rawValue : ℚ
  value : ℚ
  currency : String
  unit : String
  observedAt : Instant
  deriving DecidableEq

structure RawRow where
  providerCode : String
  symbol : String
  rawValue : ℚ
  observedAt : Instant
  quality : Quality
  dedupeKey : String

structure PriceRow where
  symbol : String
  value : ℚ
  currency : String
  unit : String
  source : String
  observedAt : Instant
  quality : Quality

structure Store where
  raw : List RawRow
  prices : List PriceRow

def Observation.priceRow (obs : Observation) : PriceRow :=
  ⟨obs.symbol, obs.value, obs.currency, obs.unit, obs.providerCode, obs.observedAt, .ok⟩

/-- The CHECK of the `prices` table. -/
def Observation.positive (obs : Observation) : Bool :=
  decide (0 < obs.value) || obs.currency = "INDEX" || obs.currency = "PCT"

inductive Job
  | iranGold
  | fx
  | global
  | macroIndices
  | funds
  deriving DecidableEq

def jobSymbols : Job → List String
  | .iranGold => ["IR_GOLD_18K", "IR_COIN_EMAMI"]
  | .fx => ["USD_IRT"]
  | .global => ["XAUUSD", "XAGUSD"]
  | .macroIndices => ["BRENT_OIL", "DXY", "US10Y"]
  | .funds => ["IR_GOLD_FUND_AYAR", "IR_GOLD_FUND_TALA", "IR_GOLD_FUND_FLOW"]

def recentWindow : ℕ := 30

def suspectHistoryLimit : ℕ := 40

def sinceLastLevelReset : List ℚ → List ℚ
  | [] => []
  | [value] => [value]
  | value :: older :: values =>
    if maxJumpPct < jumpPct value older then [value]
    else value :: sinceLastLevelReset (older :: values)

def Store.okPrices (store : Store) (symbol : String) : List PriceRow :=
  store.prices.filter (fun p ↦ decide (p.symbol = symbol) && decide (p.quality = .ok))

def recentValues (store : Store) (symbol : String) : List ℚ :=
  sinceLastLevelReset
    ((latest PriceRow.observedAt recentWindow (store.okPrices symbol)).map PriceRow.value)

def lastPriceAt (store : Store) (symbol : String) : Option Instant :=
  ((store.okPrices symbol).map PriceRow.observedAt).max?

def providerHistory (store : Store) (symbol providerCode : String) : List RawRow :=
  latest RawRow.observedAt suspectHistoryLimit (store.raw.filter (fun r ↦
    decide (r.symbol = symbol) && decide (r.providerCode = providerCode)))

def suspectState (store : Store) (obs : Observation) : SuspectStreak × Bool :=
  let streak := suspectStreak obs.rawValue obs.observedAt
    ((providerHistory store obs.symbol obs.providerCode).map
      (fun r ↦ (r.observedAt, r.rawValue, r.quality)))
  (streak, (lastPriceAt store obs.symbol).all (· < streak.since))

def classify (store : Store) (obs : Observation) : Quality × Option Reason :=
  let recent := recentValues store obs.symbol
  classifyObservation obs.symbol obs.value recent recent.head?

inductive CollectError
  | fetchFailed (code : String)
  | rejected (code symbol : String) (reason : Option Reason)
  | heldAsSuspect (code symbol : String) (reason : Option Reason)
  | onlyStaleValues (job : Job) (symbol : String)
  | noGoodValue (job : Job) (symbol : String)

structure Requested where
  job : Job
  due : Bool
  providerRows : List String

/-- What one call of `run_collect` meets. `fetch` is `none` where the provider
raises, `utcnow n` what the clock says at the `n`-th quote handled. -/
structure Cycle where
  settings : Python.Settings
  requested : List Requested
  builds : String → Bool
  fetch : String → Option (List Observation)
  utcnow : ℕ → Instant

structure Turn where
  store : Store
  held : List Observation
  obs : Observation
  written : List Observation

structure Pass where
  store : Store
  fetchCache : List (String × List Observation)
  failedProviders : List String
  attemptedSymbols : List String
  handled : List (String × String)
  turns : List Turn
  errors : List CollectError
  raised : Bool

structure JobState where
  pass : Pass
  symbolsNeeded : List String
  staleOnly : List String
  suspects : List Observation

structure Stored where
  store : Store
  written : List Observation
  raised : Bool

section Storing

variable (digest : String → String → Instant → ℚ → String)

def insertRaw (store : Store) (obs : Observation) (quality : Quality) : Store :=
  let key := digest obs.providerCode obs.symbol obs.observedAt obs.rawValue
  if store.raw.any (·.dedupeKey = key) then store
  else { store with raw := store.raw ++
    [⟨obs.providerCode, obs.symbol, obs.rawValue, obs.observedAt, quality, key⟩] }

/-- `INSERT ... ON CONFLICT DO NOTHING` into `prices`, and whether it inserted. -/
def insertPrice (store : Store) (obs : Observation) : Store × Bool :=
  if store.prices.any (fun p ↦ decide (p.symbol = obs.symbol) &&
      decide (p.observedAt = obs.observedAt) && decide (p.source = obs.providerCode)) then
    (store, false)
  else ({ store with prices := store.prices ++ [obs.priceRow] }, true)

/-- `_store` of accepted quotes, one transaction each; the first whose row the
CHECK refuses raises. -/
def storeOk (store : Store) : List Observation → Stored
  | [] => ⟨store, [], false⟩
  | obs :: rest =>
    if obs.positive then
      let inserted := insertPrice (insertRaw digest store obs .ok) obs
      let stored := storeOk inserted.1 rest
      { stored with written := (if inserted.2 then [obs] else []) ++ stored.written }
    else ⟨store, [], true⟩

end Storing

section Passes

variable (digest : String → String → Instant → ℚ → String) (cycle : Cycle)

/-- A quote, after the quotes it confirms, enters `prices`; a fresh one satisfies
its symbol. -/
def accept (s : JobState) (obs : Observation) (promoted : List Observation) : JobState :=
  let held := s.suspects.filter (·.symbol = obs.symbol)
  let stored := storeOk digest s.pass.store (promoted ++ [obs])
  let turn : Turn := ⟨s.pass.store, held, obs, stored.written⟩
  let pass := { s.pass with
    store := stored.store, turns := s.pass.turns ++ [turn], raised := stored.raised }
  let suspects := if promoted = [] then s.suspects else s.suspects.filter (·.symbol ≠ obs.symbol)
  if Python.isAcceptablyFresh obs.symbol obs.observedAt (cycle.utcnow s.pass.turns.length)
      cycle.settings (some obs.providerCode) then
    ⟨pass, s.symbolsNeeded.filter (· ≠ obs.symbol), s.staleOnly, suspects⟩
  else ⟨pass, s.symbolsNeeded, obs.symbol :: s.staleOnly, suspects⟩

def hold (s : JobState) (obs : Observation) (quality : Quality) (error : CollectError) :
    JobState :=
  let held := s.suspects.filter (·.symbol = obs.symbol)
  { s with
    pass := { s.pass with
      store := insertRaw digest s.pass.store obs quality
      turns := s.pass.turns ++ [⟨s.pass.store, held, obs, []⟩]
      errors := s.pass.errors ++ [error] }
    suspects := if quality = .suspect then s.suspects ++ [obs] else s.suspects }

def visit (code : String) (s : JobState) (obs : Observation) : JobState :=
  if s.pass.raised || !s.symbolsNeeded.contains obs.symbol then s
  else
    let s := { s with pass := { s.pass with handled := (code, obs.symbol) :: s.pass.handled } }
    match classify s.pass.store obs with
    | (.outlier, reason) => hold digest s obs .outlier (.rejected code obs.symbol reason)
    | (.suspect, reason) =>
      let agreeing := s.suspects.filter (fun other ↦
        decide (other.symbol = obs.symbol) && valuesAgree obs.value other.value)
      if agreeing ≠ [] then accept digest cycle s obs agreeing
      else
        let (streak, frozen) := suspectState s.pass.store obs
        if frozen && sustainedByRepetition streak then accept digest cycle s obs []
        else hold digest s obs .suspect (.heldAsSuspect code obs.symbol reason)
    | (_, _) => accept digest cycle s obs []

def consult (s : JobState) (code : String) : JobState :=
  if s.pass.raised || s.symbolsNeeded.isEmpty || s.pass.failedProviders.contains code then s
  else
    match s.pass.fetchCache.lookup code with
    | some quotes => quotes.foldl (visit digest cycle code) s
    | none =>
      if !cycle.builds code then s
      else
        match cycle.fetch code with
        | none => { s with pass := { s.pass with
            failedProviders := code :: s.pass.failedProviders
            errors := s.pass.errors ++ [.fetchFailed code] } }
        | some quotes =>
          quotes.foldl (visit digest cycle code)
            { s with pass := { s.pass with fetchCache := (code, quotes) :: s.pass.fetchCache } }

def runJob (pass : Pass) (requested : Requested) : Pass :=
  if pass.raised then pass
  else if decide (requested.job = .funds) && !requested.due then pass
  else if !requested.providerRows.isEmpty && !requested.providerRows.any cycle.builds then pass
  else
    let needed := jobSymbols requested.job
    let s := requested.providerRows.foldl (consult digest cycle)
      ⟨{ pass with attemptedSymbols := pass.attemptedSymbols ++ needed }, needed, [], []⟩
    let missing := (s.symbolsNeeded.insertionSort (· ≤ ·)).map (fun symbol ↦
      if s.staleOnly.contains symbol then CollectError.onlyStaleValues requested.job symbol
      else .noGoodValue requested.job symbol)
    if s.pass.raised then s.pass else { s.pass with errors := s.pass.errors ++ missing }

def measureDispersion (pass : Pass) : Pass :=
  (pass.attemptedSymbols.dedup.insertionSort (· ≤ ·)).foldl (fun pass symbol ↦
    ((pass.fetchCache.map Prod.fst).insertionSort (· ≤ ·)).foldl (fun pass code ↦
      if pass.handled.contains (code, symbol) then pass
      else
        (((pass.fetchCache.lookup code).getD []).filter (·.symbol = symbol)).foldl
          (fun pass obs ↦ { pass with
            store := insertRaw digest pass.store obs
              (if sanityOk symbol obs.value then .ok else .outlier)
            handled := (code, symbol) :: pass.handled }) pass) pass) pass

def runCollect (store : Store) : Pass :=
  let pass := cycle.requested.foldl (runJob digest cycle) ⟨store, [], [], [], [], [], [], false⟩
  if pass.raised then pass else measureDispersion digest pass

end Passes

def runCollects (digest : String → String → Instant → ℚ → String) : List Cycle → Store → List Pass
  | [], _ => []
  | cycle :: cycles, store =>
    let pass := runCollect digest cycle store
    pass :: runCollects digest cycles pass.store

end TalaPala.Prices
