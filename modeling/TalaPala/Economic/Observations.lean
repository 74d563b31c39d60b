import TalaPala.Clock
import TalaPala.Library.Grouping
import Mathlib.Algebra.Order.Field.Rat

namespace TalaPala.Economic

open Library

inductive Value
  | finite (q : ℚ)
  | infinite (negative : Bool)
  | nan
  deriving DecidableEq

def valueRelTolerance : ℚ := 1 / 10 ^ 15

def valueAbsTolerance : ℚ := 1 / 10 ^ 15

/-- `math.isclose` at the two tolerances. -/
def valuesEqual : Value → Value → Bool
  | .finite left, .finite right =>
    decide (|left - right| ≤ max (valueRelTolerance * max |left| |right|) valueAbsTolerance)
  | .infinite left, .infinite right => left == right
  | _, _ => false

inductive Number
  | float (value : Value)
  | decimal (value : Value)

inductive Method
  | old
  | revised
  deriving DecidableEq

structure Observation where
  seriesId : ℕ
  refPeriodStart : Date
  refPeriodEnd : Date
  refPeriodLabel : String
  value : Value
  publishedAt : Option Instant
  availableAt : Instant
  vintage : ℕ
  isNowcast : Bool
  isProjection : Bool
  sourceDocumentId : Option ℕ
  collectedAt : Instant
  method : Option Method
  availableAtApprox : Bool
  deriving DecidableEq

abbrev Period := ℕ × Date

def Observation.period (row : Observation) : Period := (row.seriesId, row.refPeriodStart)

def Observation.sameKey (row other : Observation) : Bool :=
  decide (row.period = other.period) && decide (row.vintage = other.vintage)

/-- The arguments of one `record_observation` call, with the clock it reads
when the caller gives no `collected_at`. -/
structure Call where
  seriesId : ℕ
  refPeriodStart : Date
  refPeriodEnd : Date
  value : Option Number
  availableAt : Option Instant
  refPeriodLabel : String := ""
  publishedAt : Option Instant := none
  isNowcast : Bool := false
  isProjection : Bool := false
  sourceDocumentId : Option ℕ := none
  collectedAt : Option Instant := none
  method : Option Method := none
  availableAtApprox : Bool := false
  utcnow : Instant

def Call.period (call : Call) : Period := (call.seriesId, call.refPeriodStart)

inductive RecordError
  | valueMissing
  | periodReversed (refPeriodEnd refPeriodStart : Date)
  | availableAtMissing
  | nonFinite (value : Value)
  | lookAhead (seriesId : ℕ) (refPeriodStart : Date) (stamped newest : Instant)

def storedValue : Number → Except RecordError Value
  | .float value => .ok value
  | .decimal (.finite q) => .ok (.finite q)
  | .decimal value => .error (.nonFinite value)

structure Request where
  call : Call
  value : Value
  availableAt : Instant

def Call.check (call : Call) : Except RecordError Request :=
  match call.value with
  | none => .error .valueMissing
  | some value =>
    if call.refPeriodEnd < call.refPeriodStart then
      .error (.periodReversed call.refPeriodEnd call.refPeriodStart)
    else
      match call.availableAt with
      | none => .error .availableAtMissing
      | some availableAt =>
        match storedValue value with
        | .error e => .error e
        | .ok stored => .ok { call := call, value := stored, availableAt := availableAt }

theorem Call.check_call {c : Call} {request : Request} (h : c.check = .ok request) :
    request.call = c := by
  unfold Call.check at h
  split at h
  · cases h
  · split at h
    · cases h
    · split at h
      · cases h
      · split at h
        · cases h
        · obtain rfl := Except.ok.inj h
          rfl

inductive WriteStatus
  | inserted
  | unchanged
  | revised
  | raced
  deriving DecidableEq

structure ObservationWrite where
  status : WriteStatus
  vintage : ℕ
  previousValue : Option Value
  previousVintage : Option ℕ
  previousMethod : Option Method

def periodRows (period : Period) (rows : List Observation) : List Observation :=
  rows.filter (fun row ↦ row.period = period)

def servedBefore (row other : Observation) : Prop :=
  other.availableAt < row.availableAt ∨
    (row.availableAt = other.availableAt ∧ other.vintage ≤ row.vintage)

instance : DecidableRel servedBefore := fun _ _ ↦ inferInstanceAs (Decidable (_ ∨ _))

def currentRow (rows : List Observation) : Option Observation := firstBy servedBefore rows

structure PeriodBounds where
  maxVintage : Option ℕ
  newestAvailableAt : Option Instant

def periodBounds (rows : List Observation) : PeriodBounds where
  maxVintage := (rows.map Observation.vintage).max?
  newestAvailableAt := (rows.map Observation.availableAt).max?

def Observation.states (row : Observation) (request : Request) : Bool :=
  valuesEqual row.value request.value && decide (row.method = request.call.method)

def Request.row (request : Request) (vintage : ℕ) : Observation where
  seriesId := request.call.seriesId
  refPeriodStart := request.call.refPeriodStart
  refPeriodEnd := request.call.refPeriodEnd
  refPeriodLabel := request.call.refPeriodLabel
  value := request.value
  publishedAt := request.call.publishedAt
  availableAt := request.availableAt
  vintage := vintage
  isNowcast := request.call.isNowcast
  isProjection := request.call.isProjection
  sourceDocumentId := request.call.sourceDocumentId
  collectedAt := request.call.collectedAt.getD request.call.utcnow
  method := request.call.method
  availableAtApprox := request.call.availableAtApprox

def written (status : WriteStatus) (vintage : ℕ) (current : Option Observation) :
    ObservationWrite where
  status := status
  vintage := vintage
  previousValue := current.map Observation.value
  previousVintage := current.map Observation.vintage
  previousMethod := current.bind Observation.method

inductive Plan
  | unchanged (write : ObservationWrite)
  | insert (status : WriteStatus) (row : Observation)

def plan (request : Request) (current : Option Observation) (bounds : PeriodBounds) :
    Except RecordError Plan :=
  if current.any (fun row ↦ row.states request) then
    .ok (.unchanged (written .unchanged ((current.map Observation.vintage).getD 0) current))
  else
    let status := if current.isNone then .inserted else .revised
    let vintage := if current.isNone then 1 else bounds.maxVintage.getD 0 + 1
    match bounds.newestAvailableAt with
    | some newest =>
      if request.availableAt < newest then
        .error (.lookAhead request.call.seriesId request.call.refPeriodStart request.availableAt
          newest)
      else .ok (.insert status (request.row vintage))
    | none => .ok (.insert status (request.row vintage))

theorem plan_insert {request : Request} {current : Option Observation} {bounds : PeriodBounds}
    {status : WriteStatus} {row : Observation}
    (h : plan request current bounds = .ok (.insert status row)) :
    current.any (fun r ↦ r.states request) = false ∧
    row = request.row (if current.isNone then 1 else bounds.maxVintage.getD 0 + 1) ∧
    ∀ newest, bounds.newestAvailableAt = some newest → newest ≤ request.availableAt := by
  unfold plan at h
  split at h
  · cases h
  · rename_i hstates
    rw [Bool.not_eq_true] at hstates
    simp only at h
    split at h
    · rename_i newest hnewest
      split at h
      · cases h
      · rename_i hlt
        simp only [Except.ok.injEq, Plan.insert.injEq] at h
        refine ⟨hstates, h.2.symm, fun n hn ↦ ?_⟩
        obtain rfl : newest = n := Option.some.inj (hnewest.symm.trans hn)
        exact not_lt.mp hlt
    · rename_i hnewest
      simp only [Except.ok.injEq, Plan.insert.injEq] at h
      refine ⟨hstates, h.2.symm, fun n hn ↦ ?_⟩
      rw [hnewest] at hn
      cases hn

def recordObservation (rows : List Observation) (call : Call) :
    Except RecordError (List Observation × ObservationWrite) :=
  match call.check with
  | .error e => .error e
  | .ok request =>
    let current := currentRow (periodRows call.period rows)
    match plan request current (periodBounds (periodRows call.period rows)) with
    | .error e => .error e
    | .ok (.unchanged write) => .ok (rows, write)
    | .ok (.insert status row) =>
      if rows.any (fun stored ↦ stored.sameKey row) then
        .ok (rows, written .raced row.vintage current)
      else .ok (rows ++ [row], written status row.vintage current)

def rowsAfter (rows : List Observation) (c : Call) : List Observation :=
  match recordObservation rows c with
  | .ok (stored, _) => stored
  | .error _ => rows

end TalaPala.Economic
