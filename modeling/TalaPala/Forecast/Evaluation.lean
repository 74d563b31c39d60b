import TalaPala.Forecast.Intervals
import TalaPala.Library.Selection
import TalaPala.Prices.Intervals
import TalaPala.Prices.Ticks
import Mathlib.Data.Sign.Defs

namespace TalaPala.Forecast

open Library Prices List

structure Prediction where
  id : ℕ
  symbol : String
  horizon : String
  predictedAt : Instant
  targetTime : Instant
  pointForecast : ℚ
  expectedChangePct : ℚ
  actualValue : Option ℚ
  actualRecordedAt : Option Instant
  deriving DecidableEq

def minutes (n : ℤ) : ℤ := n * 60 * second

def hours (n : ℤ) : ℤ := n * 3600 * second

def defaultTolerance : ℤ := hours 36

def tolerances : List (String × ℤ) :=
  [("1h", minutes 45), ("4h", hours 2), ("eod", hours 36), ("1d", hours 36), ("3d", hours 36),
    ("7d", hours 48), ("30d", hours 72)]

def tolerance (horizon : String) : ℤ := (tolerances.lookup horizon).getD defaultTolerance

/-- The observation nearest to `target` in the window after the later of
`target - tolerance` and the moment of the forecast. -/
def nearestPrice (prices : Table) (symbol : String) (target : Instant) (tolerance : ℤ)
    (predictedAt : Instant) : Option Tick :=
  let lower := if target - tolerance < predictedAt then predictedAt else target - tolerance
  let rows := ((prices.okTicks symbol).filter (fun t ↦
    lower < t.observedAt ∧ t.observedAt ≤ target + tolerance)).insertionSort
      (fun t u ↦ t.observedAt ≤ u.observedAt)
  firstBy (fun t u ↦ |t.observedAt - target| ≤ |u.observedAt - target|) rows

def Prediction.outcome (prices : Table) (row : Prediction) : Option ℚ :=
  (nearestPrice prices row.symbol row.targetTime (tolerance row.horizon) row.predictedAt).map
    Tick.value

def recoverBase (point expectedChangePct : ℚ) : Option ℚ :=
  if expectedChangePct ≤ -100 then none
  else
    let base := point / (1 + expectedChangePct / 100)
    if base = 0 then none else some base

def Prediction.due (now : Instant) (row : Prediction) : Bool :=
  row.actualValue.isNone && decide (row.targetTime ≤ now)

def byTarget (table : List Prediction) : List Prediction :=
  table.insertionSort (fun p q ↦ p.targetTime ≤ q.targetTime)

def pendingLimit : ℕ := 500

def pending (table : List Prediction) (now : Instant) : List Prediction :=
  (byTarget (table.filter (Prediction.due now))).take pendingLimit

structure Evaluation where
  table : List Prediction
  evaluated : ℕ
  unmatched : ℕ
  absPctErrors : List ℚ
  directionHits : List Bool

def Prediction.record (actual : ℚ) (now : Instant) (row : Prediction) : Prediction :=
  { row with actualValue := some actual, actualRecordedAt := some now }

def evaluateRow (prices : Table) (now : Instant) (e : Evaluation) (row : Prediction) :
    Evaluation :=
  match row.outcome prices with
  | none => { e with unmatched := e.unmatched + 1 }
  | some actual =>
    { table := e.table.map (fun p ↦ if p.id = row.id then p.record actual now else p)
      evaluated := e.evaluated + 1
      unmatched := e.unmatched
      absPctErrors :=
        if actual = 0 then e.absPctErrors
        else e.absPctErrors ++ [|actual - row.pointForecast| / |actual| * 100]
      directionHits :=
        match recoverBase row.pointForecast row.expectedChangePct with
        | none => e.directionHits
        | some base =>
          e.directionHits ++
            [decide (SignType.sign (row.pointForecast - base) = SignType.sign (actual - base))] }

def fill (prices : Table) (now : Instant) (table : List Prediction) : Evaluation :=
  (pending table now).foldl (evaluateRow prices now)
    { table := table, evaluated := 0, unmatched := 0, absPctErrors := [], directionHits := [] }

def meanRounded (values : List ℚ) : Option ℚ :=
  if values.isEmpty then none else some (roundTo 4 (values.sum / values.length))

structure EvaluationSummary where
  evaluated : ℕ
  unmatched : ℕ
  liveMapePct : Option ℚ
  liveDirectionalAccuracy : Option ℚ

def runEvaluate (prices : Table) (now : Instant) (table : List Prediction) :
    List Prediction × EvaluationSummary :=
  let e := fill prices now table
  (e.table,
    { evaluated := e.evaluated
      unmatched := e.unmatched
      liveMapePct := meanRounded e.absPctErrors
      liveDirectionalAccuracy :=
        meanRounded (e.directionHits.map (fun hit ↦ if hit then 1 else 0)) })

/-- The table after the first `n` passes of a schedule over fixed prices. -/
def afterPasses (prices : Table) (schedule : ℕ → Instant) (table : List Prediction) :
    ℕ → List Prediction
  | 0 => table
  | n + 1 => (runEvaluate prices (schedule n) (afterPasses prices schedule table n)).1

def Prediction.matchable (prices : Table) (row : Prediction) : Bool := (row.outcome prices).isSome

def Prediction.unscored (row : Prediction) : Bool := row.actualValue.isNone

def blockedAhead (prices : Table) (table : List Prediction) (row : Prediction) : ℕ :=
  stuck (Prediction.matchable prices)
    (((byTarget table).takeWhile (fun p ↦ p.id ≠ row.id)).filter Prediction.unscored)

def Prediction.filled (prices : Table) (now : Instant) (row : Prediction) : Prediction :=
  match row.outcome prices with
  | none => row
  | some actual => row.record actual now

theorem filled_outcome (prices : Table) (now : Instant) (row : Prediction) :
    (row.filled prices now).outcome prices = row.outcome prices := by
  unfold Prediction.filled
  split <;> rfl

theorem filled_id (prices : Table) (now : Instant) (row : Prediction) :
    (row.filled prices now).id = row.id := by
  unfold Prediction.filled
  split <;> rfl

theorem filled_targetTime (prices : Table) (now : Instant) (row : Prediction) :
    (row.filled prices now).targetTime = row.targetTime := by
  unfold Prediction.filled
  split <;> rfl

theorem filled_filled (prices : Table) (now : Instant) (row : Prediction) :
    (row.filled prices now).filled prices now = row.filled prices now := by
  cases h : row.outcome prices with
  | none =>
    have hsame : row.filled prices now = row := by rw [Prediction.filled, h]
    rw [hsame, hsame]
  | some actual =>
    have hsame : row.filled prices now = row.record actual now := by rw [Prediction.filled, h]
    have hout : (row.record actual now).outcome prices = some actual := h
    rw [hsame, Prediction.filled, hout]
    rfl

theorem filled_unscored {prices : Table} {row : Prediction} (h : row.unscored = true)
    (now : Instant) : (row.filled prices now).unscored = !row.matchable prices := by
  unfold Prediction.filled Prediction.matchable
  cases row.outcome prices with
  | none => exact h
  | some actual => rfl

theorem filled_of_not_matchable {prices : Table} {row : Prediction}
    (h : row.matchable prices = false) (now : Instant) : row.filled prices now = row := by
  unfold Prediction.filled
  unfold Prediction.matchable at h
  cases hout : row.outcome prices with
  | none => rfl
  | some actual => rw [hout] at h; cases h

def touch (prices : Table) (now : Instant) (rows : List Prediction) (p : Prediction) :
    Prediction := if p.id ∈ rows.map Prediction.id then p.filled prices now else p

theorem touch_id (prices : Table) (now : Instant) (rows : List Prediction) (p : Prediction) :
    (touch prices now rows p).id = p.id := by
  unfold touch
  split
  · exact filled_id prices now p
  · rfl

theorem touch_targetTime (prices : Table) (now : Instant) (rows : List Prediction)
    (p : Prediction) : (touch prices now rows p).targetTime = p.targetTime := by
  unfold touch
  split
  · exact filled_targetTime prices now p
  · rfl

theorem foldl_evaluateRow_table {prices : Table} {now : Instant} (rows : List Prediction)
    (e : Evaluation) (hsame : ∀ row ∈ rows, ∀ p ∈ e.table, p.id = row.id →
      p.outcome prices = row.outcome prices) :
    (rows.foldl (evaluateRow prices now) e).table = e.table.map (touch prices now rows) := by
  induction rows generalizing e with
  | nil =>
    have hnone : touch prices now [] = id := by
      funext p
      simp [touch]
    rw [hnone, map_id]
    rfl
  | cons row rows ih =>
    have hone : (evaluateRow prices now e row).table = e.table.map (touch prices now [row]) := by
      unfold evaluateRow
      cases hout : row.outcome prices with
      | none =>
        conv_lhs => rw [← map_id e.table]
        apply map_congr_left
        intro p hp
        by_cases hid : p.id = row.id
        · have hnone := (hsame row mem_cons_self p hp hid).trans hout
          simp [touch, hid, Prediction.filled, hnone]
        · simp [touch, hid]
      | some actual =>
        apply map_congr_left
        intro p hp
        by_cases hid : p.id = row.id
        · have hsome := (hsame row mem_cons_self p hp hid).trans hout
          simp [touch, hid, Prediction.filled, hsome]
        · simp [touch, hid]
    rw [foldl_cons, ih, hone, map_map]
    · apply map_congr_left
      intro p _
      by_cases hid : p.id = row.id
      · by_cases hmem : row.id ∈ rows.map Prediction.id
        · simp [touch, hid, hmem, filled_id, filled_filled]
        · simp [touch, hid, hmem, filled_id]
      · simp [touch, hid]
    · intro row' hrow' p hp hid
      rw [hone] at hp
      obtain ⟨p', hp', rfl⟩ := mem_map.mp hp
      have hout : (touch prices now [row] p').outcome prices = p'.outcome prices := by
        unfold touch
        split
        · exact filled_outcome prices now p'
        · rfl
      rw [hout]
      exact hsame row' (mem_cons_of_mem _ hrow') p' hp' ((touch_id _ _ _ _).symm.trans hid)

theorem foldl_evaluateRow_evaluated {prices : Table} {now : Instant} (rows : List Prediction)
    (e : Evaluation) : (rows.foldl (evaluateRow prices now) e).evaluated =
      e.evaluated + rows.countP (Prediction.matchable prices) := by
  induction rows generalizing e with
  | nil => rfl
  | cons row rows ih =>
    rw [foldl_cons, ih, countP_cons]
    unfold evaluateRow Prediction.matchable
    cases row.outcome prices with
    | none => simp
    | some actual => simp; omega

instance : Std.Total (fun p q : Prediction ↦ p.targetTime ≤ q.targetTime) :=
  ⟨fun _ _ ↦ le_total _ _⟩

instance : IsTrans Prediction (fun p q ↦ p.targetTime ≤ q.targetTime) :=
  ⟨fun _ _ _ ↦ le_trans⟩

theorem byTarget_map {f : Prediction → Prediction} (hf : ∀ p, (f p).targetTime = p.targetTime)
    (table : List Prediction) : byTarget (table.map f) = (byTarget table).map f := by
  refine (map_insertionSort _ _ f table (fun p _ q _ ↦ ?_)).symm
  rw [hf, hf]

theorem pending_eq (table : List Prediction) (now : Instant) :
    pending table now = ((byTarget table).filter (Prediction.due now)).take pendingLimit := by
  rw [pending, byTarget, byTarget, filter_insertionSort]

theorem mem_of_mem_pending {table : List Prediction} {now : Instant} {p : Prediction}
    (h : p ∈ pending table now) : p ∈ table :=
  mem_of_mem_filter ((mem_insertionSort _).mp (mem_of_mem_take h))

theorem runEvaluate_table {table : List Prediction} (hids : (table.map Prediction.id).Nodup)
    (prices : Table) (now : Instant) :
    (runEvaluate prices now table).1 = table.map (touch prices now (pending table now)) := by
  refine foldl_evaluateRow_table _ _ ?_
  intro row hrow p hp hid
  rw [inj_on_of_nodup_map hids hp (mem_of_mem_pending hrow) hid]

/-- Whether a pass over `rows` leaves an unscored row as it was. -/
def keeps (prices : Table) (rows : List Prediction) (p : Prediction) : Bool :=
  !(p.matchable prices && decide (p.id ∈ rows.map Prediction.id))

theorem touch_unscored_eq {prices : Table} {now : Instant} {queue rows : List Prediction}
    (hids : (queue.map Prediction.id).Nodup) (hrows : ∀ p ∈ rows, p ∈ queue ∧ p.unscored = true)
    {p : Prediction} (hp : p ∈ queue) :
    (touch prices now rows p).unscored = (p.unscored && keeps prices rows p) := by
  by_cases hmem : p.id ∈ rows.map Prediction.id
  · obtain ⟨p', hp', hid⟩ := mem_map.mp hmem
    obtain ⟨hq, hunscored⟩ := hrows p' hp'
    obtain rfl := inj_on_of_nodup_map hids hq hp hid
    rw [touch, if_pos hmem, filled_unscored hunscored, keeps, hunscored]
    simp [hmem]
  · rw [touch, if_neg hmem, keeps]
    simp [hmem]

theorem touch_of_keeps {prices : Table} {rows : List Prediction} {p : Prediction}
    (h : keeps prices rows p = true) (now : Instant) : touch prices now rows p = p := by
  unfold touch
  split
  · rename_i hmem
    rw [keeps, decide_eq_true hmem, Bool.and_true, Bool.not_eq_true'] at h
    exact filled_of_not_matchable h now
  · rfl

theorem filter_keeps_eq_scan {prices : Table} {queue : List Prediction}
    (hids : (queue.map Prediction.id).Nodup) (n : ℕ) :
    queue.filter (keeps prices (queue.take n)) =
      scan n (Prediction.matchable prices) queue := by
  rw [scan]
  conv_lhs => rw [← take_append_drop n queue, filter_append]
  rw [← take_append_drop n queue, map_append, nodup_append] at hids
  congr 1
  · apply filter_congr
    intro p hp
    rw [keeps, take_append_drop, decide_eq_true (mem_map_of_mem hp), Bool.and_true]
  · rw [take_append_drop, filter_eq_self]
    intro p hp
    have hnot : p.id ∉ (queue.take n).map Prediction.id := by
      intro hmem
      exact hids.2.2 p.id hmem p.id (mem_map_of_mem hp) rfl
    rw [keeps, decide_eq_false hnot, Bool.and_false]
    rfl

theorem touch_unscored {prices : Table} {now : Instant} {rows : List Prediction}
    (hids : (rows.map Prediction.id).Nodup) :
    (rows.map (touch prices now ((rows.filter Prediction.unscored).take pendingLimit))).filter
        Prediction.unscored =
      scan pendingLimit (Prediction.matchable prices) (rows.filter Prediction.unscored) := by
  have hqueue : ((rows.filter Prediction.unscored).map Prediction.id).Nodup :=
    hids.sublist (filter_sublist.map _)
  have hlooked : ∀ p ∈ (rows.filter Prediction.unscored).take pendingLimit,
      p ∈ rows ∧ p.unscored = true := fun p hp ↦ mem_filter.mp (mem_of_mem_take hp)
  rw [← filter_keeps_eq_scan hqueue, filter_map, filter_filter]
  have hkept : rows.filter (Prediction.unscored ∘ touch prices now
      ((rows.filter Prediction.unscored).take pendingLimit)) =
      rows.filter (fun p ↦ keeps prices ((rows.filter Prediction.unscored).take pendingLimit) p &&
        p.unscored) := by
    apply filter_congr
    intro p hp
    rw [Function.comp_apply, touch_unscored_eq hids hlooked hp, Bool.and_comm]
  rw [hkept]
  conv_rhs => rw [← map_id (rows.filter _)]
  apply map_congr_left
  intro p hp
  have hp := (mem_filter.mp hp).2
  rw [Bool.and_eq_true] at hp
  exact touch_of_keeps hp.1 now

structure Waits (table : List Prediction) (row : Prediction) (ahead : List Prediction) : Prop where
  ids : (table.map Prediction.id).Nodup
  unscored : row.unscored = true
  place : ∃ front back, byTarget table = front ++ row :: back ∧
    ahead = front.filter Prediction.unscored

theorem byTarget_perm (table : List Prediction) : (byTarget table).Perm table :=
  perm_insertionSort _ table

theorem byTarget_sorted (table : List Prediction) :
    (byTarget table).Pairwise (fun p q ↦ p.targetTime ≤ q.targetTime) :=
  pairwise_insertionSort _ table

theorem waits_of_mem {table : List Prediction} (hids : (table.map Prediction.id).Nodup)
    {row : Prediction} (h : row ∈ table) (hunscored : row.unscored = true) :
    Waits table row
      (((byTarget table).takeWhile (fun p ↦ p.id ≠ row.id)).filter Prediction.unscored) := by
  obtain ⟨front, back, hplace⟩ := append_of_mem ((byTarget_perm table).mem_iff.mpr h)
  have hnodup : ((byTarget table).map Prediction.id).Nodup :=
    ((byTarget_perm table).map _).nodup_iff.mpr hids
  rw [hplace, map_append, map_cons] at hnodup
  have hfront : ∀ p ∈ front, decide (p.id ≠ row.id) = true := by
    intro p hp
    have := (nodup_append.mp hnodup).2.2 p.id (mem_map_of_mem hp) row.id
      mem_cons_self
    simpa using this
  refine ⟨hids, hunscored, front, back, hplace, ?_⟩
  rw [hplace, takeWhile_append_of_pos hfront, takeWhile_cons_of_neg (by simp),
    append_nil]

theorem Waits.not_scored {table : List Prediction} {row : Prediction} {ahead : List Prediction}
    (h : Waits table row ahead) : ∀ p ∈ table, p.id = row.id → p.unscored = true := by
  intro p hp hid
  obtain ⟨front, back, hplace, _⟩ := h.place
  have hrow : row ∈ table := by
    rw [← (byTarget_perm table).mem_iff, hplace]
    simp
  rw [inj_on_of_nodup_map h.ids hp hrow hid]
  exact h.unscored

section Pass

variable {table : List Prediction} {row : Prediction} {ahead : List Prediction}
  (h : Waits table row ahead) {now : Instant} (hnow : row.targetTime ≤ now)
include h hnow

theorem Waits.pending_eq :
    ∃ later, pending table now = (ahead ++ row :: later).take pendingLimit := by
  obtain ⟨front, back, hplace, rfl⟩ := h.place
  have hsorted := byTarget_sorted table
  rw [hplace, pairwise_append] at hsorted
  have hfront : front.filter (Prediction.due now) = front.filter Prediction.unscored := by
    apply filter_congr
    intro p hp
    have hle := (hsorted.2.2 p hp row mem_cons_self).trans hnow
    simp [Prediction.due, Prediction.unscored, hle]
  have hrow : Prediction.due now row = true := by
    have := h.unscored
    simpa [Prediction.due, Prediction.unscored, hnow] using this
  refine ⟨back.filter (Prediction.due now), ?_⟩
  rw [Forecast.pending_eq, hplace, filter_append, filter_cons_of_pos hrow, hfront]

theorem Waits.scored {prices : Table} (hrow : row.matchable prices = true)
    (hahead : ahead.length < pendingLimit) :
    ∃ p ∈ (runEvaluate prices now table).1, p.id = row.id ∧ p.unscored = false := by
  obtain ⟨later, hpending⟩ := h.pending_eq hnow
  obtain ⟨front, back, hplace, _⟩ := h.place
  have hmem : row ∈ pending table now := by
    rw [hpending, take_append, mem_append]
    right
    obtain ⟨m, hm⟩ : ∃ m, pendingLimit - ahead.length = m + 1 :=
      ⟨pendingLimit - ahead.length - 1, by omega⟩
    rw [hm, take_succ_cons]
    exact mem_cons_self
  refine ⟨touch prices now (pending table now) row, ?_, touch_id _ _ _ _, ?_⟩
  · rw [runEvaluate_table h.ids]
    exact mem_map_of_mem (mem_of_mem_pending hmem)
  · rw [touch, if_pos (mem_map_of_mem hmem), filled_unscored h.unscored, hrow]
    rfl

theorem Waits.scanned (prices : Table) (hahead : pendingLimit ≤ ahead.length) :
    Waits (runEvaluate prices now table).1 row
      (scan pendingLimit (Prediction.matchable prices) ahead) := by
  obtain ⟨later, hpending⟩ := h.pending_eq hnow
  rw [take_append_of_le_length hahead] at hpending
  obtain ⟨front, back, hplace, rfl⟩ := h.place
  have hnodup : ((byTarget table).map Prediction.id).Nodup :=
    ((byTarget_perm table).map _).nodup_iff.mpr h.ids
  rw [hplace, map_append, map_cons, nodup_append] at hnodup
  have hrow : touch prices now (pending table now) row = row := by
    rw [touch, if_neg]
    rw [hpending, mem_map]
    rintro ⟨p, hp, hid⟩
    have hp := mem_of_mem_filter (mem_of_mem_take hp)
    exact hnodup.2.2 p.id (mem_map_of_mem hp) row.id mem_cons_self hid
  have htable := runEvaluate_table h.ids prices now
  refine ⟨?_, h.unscored, front.map (touch prices now (pending table now)),
    back.map (touch prices now (pending table now)), ?_, ?_⟩
  · have hid : Prediction.id ∘ touch prices now (pending table now) = Prediction.id := by
      funext p
      exact touch_id _ _ _ _
    rw [htable, map_map, hid]
    exact h.ids
  · rw [htable, byTarget_map (touch_targetTime prices now _), hplace, map_append,
      map_cons, hrow]
  · rw [hpending, touch_unscored hnodup.1]

end Pass

section Passes

variable {prices : Table} {schedule : ℕ → Instant} {table : List Prediction} {row : Prediction}
  (hschedule : ∀ n, row.targetTime ≤ schedule n)
include hschedule

theorem waits_forever {ahead : List Prediction} (h : Waits table row ahead)
    (hstuck : pendingLimit ≤ stuck (Prediction.matchable prices) ahead) (n : ℕ) :
    ∃ ahead', Waits (afterPasses prices schedule table n) row ahead' ∧
      pendingLimit ≤ stuck (Prediction.matchable prices) ahead' := by
  induction n with
  | zero => exact ⟨ahead, h, hstuck⟩
  | succ n ih =>
    obtain ⟨ahead', hwaits, hstuck'⟩ := ih
    have hlong := hstuck'.trans (stuck_le_length _ _)
    exact ⟨_, hwaits.scanned (hschedule n) prices hlong, by rwa [stuck_scan]⟩

theorem eventually_scored {ahead : List Prediction} {n : ℕ}
    (h : Waits (afterPasses prices schedule table n) row ahead)
    (hrow : row.matchable prices = true)
    (hstuck : stuck (Prediction.matchable prices) ahead < pendingLimit) :
    ∃ m, ∃ p ∈ afterPasses prices schedule table m, p.id = row.id ∧ p.unscored = false := by
  induction hlen : ahead.length using Nat.strong_induction_on generalizing ahead n with
  | _ length ih =>
    by_cases hshort : ahead.length < pendingLimit
    · exact ⟨n + 1, h.scored (hschedule n) hrow hshort⟩
    · have hlong : pendingLimit ≤ ahead.length := not_lt.mp hshort
      have hnext : Waits (afterPasses prices schedule table (n + 1)) row
          (scan pendingLimit (Prediction.matchable prices) ahead) :=
        h.scanned (hschedule n) prices hlong
      refine ih _ ?_ hnext (by rwa [stuck_scan]) rfl
      rw [← hlen]
      exact length_scan_lt hlong hstuck

end Passes

theorem runEvaluate_evaluated (prices : Table) (now : Instant) (table : List Prediction) :
    (runEvaluate prices now table).2.evaluated =
      (pending table now).countP (Prediction.matchable prices) := by
  rw [runEvaluate, fill, foldl_evaluateRow_evaluated, Nat.zero_add]

theorem evaluated_pos {prices : Table} {table : List Prediction} {row : Prediction}
    {ahead : List Prediction} (h : Waits table row ahead) {now : Instant}
    (hnow : row.targetTime ≤ now) (hrow : row.matchable prices = true)
    (hstuck : stuck (Prediction.matchable prices) ahead < pendingLimit) :
    (runEvaluate prices now table).2.evaluated ≠ 0 := by
  rw [runEvaluate_evaluated, ← Nat.pos_iff_ne_zero, countP_pos_iff]
  obtain ⟨later, hpending⟩ := h.pending_eq hnow
  rw [hpending]
  by_cases hshort : ahead.length < pendingLimit
  · refine ⟨row, ?_, hrow⟩
    obtain ⟨m, hm⟩ : ∃ m, pendingLimit - ahead.length = m + 1 :=
      ⟨pendingLimit - ahead.length - 1, by omega⟩
    rw [take_append, hm, take_succ_cons, mem_append]
    exact .inr mem_cons_self
  · rw [take_append_of_le_length (not_lt.mp hshort)]
    exact exists_ok_of_stuck_lt (not_lt.mp hshort) hstuck

theorem Prediction.due.targetTime_le {now : Instant} {row : Prediction} (h : row.due now = true) :
    row.targetTime ≤ now := by
  rw [Prediction.due, Bool.and_eq_true, decide_eq_true_eq] at h
  exact h.2

theorem Prediction.due.unscored {now : Instant} {row : Prediction} (h : row.due now = true) :
    row.unscored = true := by
  rw [Prediction.due, Bool.and_eq_true] at h
  exact h.1

/-- A pass that fills nothing leaves no due row a price could score, and each is scored in
the end, exactly when fewer than a window of unmatchable rows stands before it. -/
theorem matchable_rows_scored_iff {prices : Table} {table : List Prediction}
    (hids : (table.map Prediction.id).Nodup) {now : Instant} {schedule : ℕ → Instant}
    (hschedule : ∀ n, now ≤ schedule n) :
    (((runEvaluate prices now table).2.evaluated = 0 →
        ∀ row ∈ table, row.due now = true → row.matchable prices = false) ∧
      ∀ row ∈ table, row.due now = true → row.matchable prices = true →
        ∃ n, ∃ p ∈ afterPasses prices schedule table n, p.id = row.id ∧ p.unscored = false) ↔
    ∀ row ∈ table, row.due now = true → row.matchable prices = true →
      blockedAhead prices table row < pendingLimit := by
  constructor
  · intro ⟨_, hscored⟩ row hrow hdue hmatch
    by_contra hblocked
    obtain ⟨n, p, hp, hid, hpscored⟩ := hscored row hrow hdue hmatch
    obtain ⟨ahead, hwaits, _⟩ := waits_forever
      (fun n ↦ (Prediction.due.targetTime_le hdue).trans (hschedule n))
      (waits_of_mem hids hrow (Prediction.due.unscored hdue)) (not_lt.mp hblocked) n
    have := hwaits.not_scored p hp hid
    rw [this] at hpscored
    cases hpscored
  · intro hfew
    refine ⟨fun hzero row hrow hdue ↦ ?_, fun row hrow hdue hmatch ↦ ?_⟩
    · by_contra hmatch
      rw [Bool.not_eq_false] at hmatch
      exact evaluated_pos (waits_of_mem hids hrow (Prediction.due.unscored hdue))
        (Prediction.due.targetTime_le hdue) hmatch (hfew row hrow hdue hmatch) hzero
    · have hwaits := waits_of_mem hids hrow (Prediction.due.unscored hdue)
      exact eventually_scored (n := 0)
        (fun n ↦ (Prediction.due.targetTime_le hdue).trans (hschedule n)) hwaits hmatch
        (hfew row hrow hdue hmatch)

def forecast (id : ℕ) (symbol : String) (targetTime : Instant) : Prediction where
  id := id
  symbol := symbol
  horizon := "1h"
  predictedAt := targetTime - 1
  targetTime := targetTime
  pointForecast := 10
  expectedChangePct := 0
  actualValue := none
  actualRecordedAt := none

def onePrice : Table where
  rows := [{ id := 1, symbol := "XAUUSD", value := 11, observedAt := 7, quality := .ok }]
  ids := by decide

def silentQueue : List Prediction :=
  (List.range 501).map (fun i ↦ if i < 500 then forecast i "SILENT" 0 else forecast i "XAUUSD" 7)

theorem matchable_row_starved :
    ¬ ∀ (prices : Table) (table : List Prediction) (now : Instant),
      (table.map Prediction.id).Nodup → (runEvaluate prices now table).2.evaluated = 0 →
        ∀ row ∈ table, row.due now = true → row.matchable prices = false := by
  intro hall
  have hids : (silentQueue.map Prediction.id).Nodup := by
    have hrange : silentQueue.map Prediction.id = List.range 501 := by decide +kernel
    rw [hrange]
    exact nodup_range
  have hzero : (runEvaluate onePrice 7 silentQueue).2.evaluated = 0 := by decide +kernel
  have hrow : forecast 500 "XAUUSD" 7 ∈ silentQueue :=
    mem_map.mpr ⟨500, mem_range.mpr (by omega), rfl⟩
  have hmatch := hall onePrice silentQueue 7 hids hzero _ hrow (by decide +kernel)
  have : (forecast 500 "XAUUSD" 7).matchable onePrice = true := by decide +kernel
  rw [this] at hmatch
  cases hmatch

theorem short_queue_scored :
    ∃ n, ∃ p ∈ afterPasses onePrice (fun n ↦ 7 + n) [forecast 1 "SILENT" 0, forecast 2 "XAUUSD" 7]
      n, p.id = 2 ∧ p.unscored = false := by
  have hids : ([forecast 1 "SILENT" 0, forecast 2 "XAUUSD" 7].map Prediction.id).Nodup := by decide
  have hschedule (n : ℕ) : (7 : ℤ) ≤ 7 + n := by omega
  have hfew : ∀ row ∈ [forecast 1 "SILENT" 0, forecast 2 "XAUUSD" 7], row.due 7 = true →
      row.matchable onePrice = true →
        blockedAhead onePrice [forecast 1 "SILENT" 0, forecast 2 "XAUUSD" 7] row < pendingLimit := by
    decide
  exact ((matchable_rows_scored_iff hids hschedule).mpr hfew).2 (forecast 2 "XAUUSD" 7)
    (by decide) (by decide) (by decide)

end TalaPala.Forecast
