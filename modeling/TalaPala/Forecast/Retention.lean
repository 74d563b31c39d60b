import TalaPala.Forecast.Evaluation
import TalaPala.Library.Latest
import Mathlib.Data.String.Basic

namespace TalaPala.Forecast

open Library Prices

structure StoredPrediction extends Prediction where
  modelName : String

def StoredPrediction.matured (p : StoredPrediction) : Bool := p.actualValue.isSome

abbrev StoredPrediction.series (p : StoredPrediction) : String ×ₗ String :=
  toLex (p.symbol, p.horizon)

def days (n : ℤ) : ℤ := n * 86400 * second

section Readers

def maxSamples : ℕ := 500

def liveCalibrationWindow : ℕ := 60

def liveSmapeWindow : ℕ := 60

/-- The rows `fit_meta_gate` fits on. -/
def fitMetaGateRows (table : List StoredPrediction) : List StoredPrediction :=
  latest (·.targetTime) maxSamples (table.filter (·.matured))

/-- The series `compute_live_calibration` finds and the rows it scores for each. -/
def liveCalibrationRows (table : List StoredPrediction) :
    List ((String ×ₗ String) × List StoredPrediction) :=
  (keys (·.series) (table.filter (·.matured))).map (fun k ↦
    (k, latest (·.targetTime) liveCalibrationWindow
      (group (·.series) (table.filter (·.matured)) k)))

def isMemberRow (now : Instant) (symbol horizon name : String) (p : StoredPrediction) : Bool :=
  p.symbol = symbol && p.horizon = horizon && p.modelName = name && p.matured &&
    decide (now - days 120 ≤ p.targetTime)

/-- The rows `live_member_smapes` scores one member on. -/
def liveMemberRows (now : Instant) (table : List StoredPrediction)
    (symbol horizon name : String) : List StoredPrediction :=
  latest (·.targetTime) liveSmapeWindow (table.filter (isMemberRow now symbol horizon name))

@[ext] structure LoopReads where
  metaGate : List StoredPrediction
  calibration : List ((String ×ₗ String) × List StoredPrediction)
  members : String → String → String → List StoredPrediction

def loopReads (now : Instant) (table : List StoredPrediction) : LoopReads where
  metaGate := fitMetaGateRows table
  calibration := liveCalibrationRows table
  members := liveMemberRows now table

end Readers

section Batches

variable {ρ : Type*} (pk : ρ → ℕ) (matching : List ρ → ρ → Bool)

def batchRows : ℕ := 5000

def maxBatches : ℕ := 200

structure TableResult where
  deleted : ℕ
  scannedBatches : ℕ
  error : Option String
  deriving DecidableEq, Repr

/-- What the driver reports for each statement of a pass; `none` where it runs. -/
structure Faults where
  floor : Option String
  count : Option String
  batch : ℕ → Option String

structure Faults.Clear (faults : Faults) : Prop where
  floor : faults.floor = none
  count : faults.count = none
  batch : ∀ n, faults.batch n = none

/-- The keys one `DELETE` removes: the predicate is read in the table as the
batches before left it. -/
def batchKeys (table : List ρ) : List ℕ :=
  (((table.filter (matching table)).map pk).insertionSort (· ≤ ·)).take batchRows

def withoutKeys (table : List ρ) (ids : List ℕ) : List ρ := table.filter (fun r ↦ pk r ∉ ids)

def afterBatch (table : List ρ) : List ρ := withoutKeys pk table (batchKeys pk matching table)

/-- The `rowcount` of one batch. -/
def batchRemoved (table : List ρ) : ℕ := table.countP (fun r ↦ pk r ∈ batchKeys pk matching table)

def TableResult.scanned (res : TableResult) (removed : ℕ) : TableResult :=
  { res with scannedBatches := res.scannedBatches + 1, deleted := res.deleted + removed }

def deleteBatches (faults : Faults) : ℕ → List ρ → TableResult → List ρ × TableResult
  | 0, table, res => (table, res)
  | left + 1, table, res =>
    match faults.batch res.scannedBatches with
    | some message => (table, { res with error := some message })
    | none =>
      if batchRemoved pk matching table < batchRows then
        (afterBatch pk matching table, res.scanned (batchRemoved pk matching table))
      else deleteBatches faults left (afterBatch pk matching table)
        (res.scanned (batchRemoved pk matching table))

def deleteBatched (dryRun : Bool) (faults : Faults) (table : List ρ) : List ρ × TableResult :=
  match faults.count with
  | some message => (table, { deleted := 0, scannedBatches := 0, error := some message })
  | none =>
    if dryRun then
      (table, { deleted := table.countP (matching table), scannedBatches := 0, error := none })
    else deleteBatches pk matching faults maxBatches table
      { deleted := 0, scannedBatches := 0, error := none }

theorem length_afterBatch (table : List ρ) :
    (afterBatch pk matching table).length + batchRemoved pk matching table = table.length := by
  have h := List.length_eq_countP_add_countP
    (fun r ↦ decide (pk r ∈ batchKeys pk matching table)) (l := table)
  rw [afterBatch, withoutKeys, ← List.countP_eq_length_filter, batchRemoved, h, Nat.add_comm]
  simp

variable {pk matching}

theorem mem_batchKeys {table : List ρ} {id : ℕ} (h : id ∈ batchKeys pk matching table) :
    ∃ r ∈ table, matching table r = true ∧ pk r = id := by
  have hmem := (List.mem_insertionSort _).mp (List.mem_of_mem_take h)
  obtain ⟨r, hr, rfl⟩ := List.mem_map.mp hmem
  obtain ⟨hr, hmatching⟩ := List.mem_filter.mp hr
  exact ⟨r, hr, hmatching, rfl⟩

theorem batchRemoved_eq_zero {table : List ρ} (h : batchRemoved pk matching table = 0) :
    afterBatch pk matching table = table ∧ ∀ r ∈ table, matching table r = false := by
  have hnil : batchKeys pk matching table = [] := by
    by_contra hne
    obtain ⟨id, hid⟩ := List.exists_mem_of_ne_nil _ hne
    obtain ⟨r, hr, _, rfl⟩ := mem_batchKeys hid
    exact absurd (decide_eq_true hid) (List.countP_eq_zero.mp h r hr)
  refine ⟨by simp [afterBatch, withoutKeys, hnil], fun r hr ↦ ?_⟩
  rw [batchKeys, List.take_eq_nil_iff, ← List.length_eq_zero_iff, List.length_insertionSort,
    List.length_map, List.length_eq_zero_iff] at hnil
  rw [← Bool.not_eq_true]
  exact List.filter_eq_nil_iff.mp (hnil.resolve_left (by decide)) r hr

theorem deleteBatches_preserves {I : List ρ → Prop}
    (hbatch : ∀ table, I table → I (afterBatch pk matching table))
    (faults : Faults) (left : ℕ) {table : List ρ} (h : I table) (res : TableResult) :
    I (deleteBatches pk matching faults left table res).1 := by
  induction left generalizing table res with
  | zero => exact h
  | succ left ih =>
    rw [deleteBatches]
    split
    · exact h
    · split
      · exact hbatch table h
      · exact ih (hbatch table h) _

theorem deleteBatched_preserves {I : List ρ → Prop}
    (hbatch : ∀ table, I table → I (afterBatch pk matching table))
    (dryRun : Bool) (faults : Faults) {table : List ρ} (h : I table) :
    I (deleteBatched pk matching dryRun faults table).1 := by
  rw [deleteBatched]
  split
  · exact h
  · split
    · exact h
    · exact deleteBatches_preserves hbatch faults maxBatches h _

variable (pk matching) in
theorem deleteBatches_accounts (faults : Faults) (left : ℕ) (table : List ρ) (res : TableResult) :
    (deleteBatches pk matching faults left table res).1.length +
        (deleteBatches pk matching faults left table res).2.deleted =
      table.length + res.deleted := by
  induction left generalizing table res with
  | zero => rfl
  | succ left ih =>
    have hlen := length_afterBatch pk matching table
    rw [deleteBatches]
    split
    · rfl
    · split
      · dsimp only [TableResult.scanned]
        omega
      · rw [ih]
        dsimp only [TableResult.scanned]
        omega

variable (pk matching) in
theorem length_deleteBatches_le (faults : Faults) (left : ℕ) (table : List ρ)
    (res : TableResult) :
    (deleteBatches pk matching faults left table res).1.length ≤ table.length := by
  refine deleteBatches_preserves (I := fun t ↦ t.length ≤ table.length) (fun t ht ↦ ?_)
    faults left le_rfl res
  exact (List.length_filter_le _ t).trans ht

theorem deleteBatches_clean {faults : Faults} (left : ℕ) {table : List ρ} {res : TableResult}
    (herror : (deleteBatches pk matching faults (left + 1) table res).2.error = none)
    (hdeleted : (deleteBatches pk matching faults (left + 1) table res).2.deleted = res.deleted) :
    (deleteBatches pk matching faults (left + 1) table res).1 = table ∧
      ∀ r ∈ table, matching table r = false := by
  have hsame := deleteBatches_accounts pk matching faults (left + 1) table res
  rw [deleteBatches] at herror hdeleted hsame ⊢
  cases hfault : faults.batch res.scannedBatches with
  | some message =>
    rw [hfault] at herror
    cases herror
  | none =>
    rw [hfault] at hdeleted hsame
    dsimp only at hdeleted hsame ⊢
    have hlen := length_afterBatch pk matching table
    have hzero : batchRemoved pk matching table = 0 := by
      split at hdeleted
      · dsimp only [TableResult.scanned] at hdeleted
        omega
      · rename_i hfull
        have hle := length_deleteBatches_le pk matching faults left (afterBatch pk matching table)
          (res.scanned (batchRemoved pk matching table))
        rw [if_neg hfull] at hsame
        omega
    obtain ⟨hkept, hclean⟩ := batchRemoved_eq_zero hzero
    rw [hzero, if_pos (by decide)]
    exact ⟨hkept, hclean⟩

theorem deleteBatched_clean {dryRun : Bool} {faults : Faults} {table : List ρ}
    (herror : (deleteBatched pk matching dryRun faults table).2.error = none)
    (hdeleted : (deleteBatched pk matching dryRun faults table).2.deleted = 0) :
    (deleteBatched pk matching dryRun faults table).1 = table ∧
      ∀ r ∈ table, matching table r = false := by
  rw [deleteBatched] at herror hdeleted ⊢
  cases hcount : faults.count with
  | some message =>
    rw [hcount] at herror
    cases herror
  | none =>
    rw [hcount] at herror hdeleted
    cases dryRun with
    | true => exact ⟨rfl, fun r hr ↦ Bool.not_eq_true _ ▸ List.countP_eq_zero.mp hdeleted r hr⟩
    | false => exact deleteBatches_clean 199 herror hdeleted

theorem deleteBatches_error {faults : Faults} (h : faults.Clear) (left : ℕ) (table : List ρ)
    (res : TableResult) :
    (deleteBatches pk matching faults left table res).2.error = res.error := by
  induction left generalizing table res with
  | zero => rfl
  | succ left ih =>
    rw [deleteBatches, h.batch]
    dsimp only
    split
    · rfl
    · exact ih _ _

variable (pk matching) in
theorem deleteBatched_of_clear {faults : Faults} (h : faults.Clear) (table : List ρ) :
    (deleteBatched pk matching false faults table).2.error = none ∧
      (deleteBatched pk matching false faults table).1.length +
        (deleteBatched pk matching false faults table).2.deleted = table.length := by
  rw [deleteBatched, h.count]
  exact ⟨deleteBatches_error h _ _ _, deleteBatches_accounts pk matching faults _ _ _⟩

end Batches

section Predictions

def metaGateSamples : ℕ := 500

def liveCalWindow : ℕ := 60

def ensembleWindowDays : ℤ := 120

/-- What a pass never deletes: the newest matured rows, the newest matured rows
of each series, and every row of the ensemble's window. -/
def isProtected (table : List StoredPrediction) (now : Instant) (p : StoredPrediction) : Bool :=
  decide (p.id ∈ (latest (·.targetTime) metaGateSamples (table.filter (·.matured))).map (·.id)) ||
    (p.matured && decide (table.countP (fun q ↦ q.symbol = p.symbol && q.horizon = p.horizon &&
      q.matured && decide (p.targetTime < q.targetTime)) < liveCalWindow)) ||
    decide (now - days ensembleWindowDays ≤ p.targetTime)

def daysOr (value default : ℤ) : ℤ := if value = 0 then default else value

def predictionCutoff (now : Instant) (predictionRetentionDays : ℤ) : Instant :=
  now - days (daysOr predictionRetentionDays 730)

def deletable (now : Instant) (predictionRetentionDays : ℤ) (table : List StoredPrediction)
    (p : StoredPrediction) : Bool :=
  decide (p.predictedAt < predictionCutoff now predictionRetentionDays) && !isProtected table now p

def runRetention (now : Instant) (predictionRetentionDays : ℤ) (dryRun : Bool) (faults : Faults)
    (table : List StoredPrediction) : List StoredPrediction × Except String TableResult :=
  match faults.floor with
  | some message => (table, .error message)
  | none =>
    let out := deleteBatched (·.id) (deletable now predictionRetentionDays) dryRun faults table
    (out.1, .ok out.2)

def afterRetention (now : Instant) (predictionRetentionDays : ℤ) (dryRun : Bool)
    (faults : ℕ → Faults) (table : List StoredPrediction) : ℕ → List StoredPrediction
  | 0 => table
  | n + 1 => (runRetention now predictionRetentionDays dryRun (faults n)
      (afterRetention now predictionRetentionDays dryRun faults table n)).1

theorem nodup_filter_targetTime {table : List StoredPrediction}
    (h : (table.map (·.targetTime)).Nodup) (p : StoredPrediction → Bool) :
    ((table.filter p).map (·.targetTime)).Nodup :=
  h.sublist (List.filter_sublist.map _)

theorem mem_of_mem_latest {l : List StoredPrediction} {limit : ℕ} {p : StoredPrediction}
    (h : p ∈ latest (·.targetTime) limit l) : p ∈ l :=
  (List.mem_insertionSort _).mp (List.mem_of_mem_take h)

theorem isProtected_of_metaGate {table : List StoredPrediction} {now : Instant}
    {p : StoredPrediction} (h : p ∈ fitMetaGateRows table) : isProtected table now p = true := by
  have hmem : p.id ∈
      (latest (·.targetTime) metaGateSamples (table.filter (·.matured))).map (·.id) :=
    List.mem_map.mpr ⟨p, latest_mono le_rfl h, rfl⟩
  simp [isProtected, hmem]

theorem isProtected_of_calibration {table : List StoredPrediction} (now : Instant)
    (htimes : (table.map (·.targetTime)).Nodup) {k : String ×ₗ String} {p : StoredPrediction}
    (h : p ∈ latest (·.targetTime) liveCalibrationWindow
      (group (·.series) (table.filter (·.matured)) k)) : isProtected table now p = true := by
  have hnodup := nodup_filter_targetTime (nodup_filter_targetTime htimes (·.matured))
    (fun p ↦ p.series = k)
  obtain ⟨hmem, habove⟩ := (mem_latest hnodup).mp h
  obtain ⟨hmatured, rfl⟩ := mem_group.mp hmem
  have hcount : table.countP (fun q ↦ q.symbol = p.symbol && q.horizon = p.horizon &&
      q.matured && decide (p.targetTime < q.targetTime)) < liveCalWindow := by
    rw [above, List.countP_filter, List.countP_filter] at habove
    refine lt_of_eq_of_lt (List.countP_congr (fun q _ ↦ ?_)) habove
    simp only [Bool.and_eq_true, decide_eq_true_eq, StoredPrediction.series,
      toLex_inj, Prod.mk.injEq]
    tauto
  have hp : p.matured = true := (List.mem_filter.mp hmatured).2
  simp [isProtected, hp, hcount]

theorem isProtected_of_member {table : List StoredPrediction} {now : Instant}
    {symbol horizon name : String} {p : StoredPrediction}
    (h : isMemberRow now symbol horizon name p = true) : isProtected table now p = true := by
  have hwindow : now - days ensembleWindowDays ≤ p.targetTime :=
    of_decide_eq_true (Bool.and_eq_true_iff.mp h).2
  simp [isProtected, hwindow]

theorem loopReads_filter {table : List StoredPrediction} {now : Instant}
    (htimes : (table.map (·.targetTime)).Nodup) {keep : StoredPrediction → Bool}
    (hkeep : ∀ p ∈ table, isProtected table now p = true → keep p = true) :
    loopReads now (table.filter keep) = loopReads now table := by
  have hsub : ((table.filter keep).filter (·.matured)).Sublist (table.filter (·.matured)) :=
    List.filter_sublist.filter _
  have hgroup (k : String ×ₗ String) :
      latest (·.targetTime) liveCalibrationWindow
          (group (·.series) ((table.filter keep).filter (·.matured)) k) =
        latest (·.targetTime) liveCalibrationWindow
          (group (·.series) (table.filter (·.matured)) k) := by
    refine latest_of_kept (nodup_filter_targetTime (nodup_filter_targetTime htimes _) _)
      (hsub.filter _) (fun p hp ↦ ?_)
    have hprot := isProtected_of_calibration now htimes hp
    obtain ⟨hmem, hk⟩ := mem_group.mp (mem_of_mem_latest hp)
    obtain ⟨hmem, hmatured⟩ := List.mem_filter.mp hmem
    exact mem_group.mpr ⟨List.mem_filter.mpr
      ⟨List.mem_filter.mpr ⟨hmem, hkeep p hmem hprot⟩, hmatured⟩, hk⟩
  have hseries : keys (·.series) ((table.filter keep).filter (·.matured)) =
      keys (·.series) (table.filter (·.matured)) := by
    have hasc (l : List StoredPrediction) : AscendingBy id (keys (·.series) l) := keys_ascending l
    refine (hasc _).ext (hasc _) (fun k ↦ ?_)
    rw [mem_keys, mem_keys]
    constructor
    · rintro ⟨p, hp, hk⟩
      exact ⟨p, hsub.subset hp, hk⟩
    · rintro ⟨p, hp, hk⟩
      have hne : latest (·.targetTime) liveCalibrationWindow
          (group (·.series) (table.filter (·.matured)) k) ≠ [] := by
        have hpos := List.length_pos_of_mem (mem_group.mpr ⟨hp, hk⟩)
        rw [← List.length_pos_iff, length_latest]
        exact lt_min (by decide) hpos
      obtain ⟨q, hq⟩ := List.exists_mem_of_ne_nil _ hne
      rw [← hgroup] at hq
      exact ⟨q, mem_group.mp (mem_of_mem_latest hq)⟩
  ext1
  · refine latest_of_kept (nodup_filter_targetTime htimes _) hsub (fun p hp ↦ ?_)
    obtain ⟨hmem, hmatured⟩ := List.mem_filter.mp (mem_of_mem_latest hp)
    exact List.mem_filter.mpr
      ⟨List.mem_filter.mpr ⟨hmem, hkeep p hmem (isProtected_of_metaGate hp)⟩, hmatured⟩
  · simp only [loopReads, liveCalibrationRows, hgroup, hseries]
  · funext symbol horizon name
    have hmember : (table.filter keep).filter (isMemberRow now symbol horizon name) =
        table.filter (isMemberRow now symbol horizon name) := by
      rw [List.filter_filter]
      refine List.filter_congr (fun p hp ↦ ?_)
      cases hrow : isMemberRow now symbol horizon name p with
      | false => rfl
      | true => exact hkeep p hp (isProtected_of_member hrow)
    simp only [loopReads, liveMemberRows, hmember]

theorem loopReads_afterBatch {table : List StoredPrediction} (hids : (table.map (·.id)).Nodup)
    (htimes : (table.map (·.targetTime)).Nodup) (now : Instant) (predictionRetentionDays : ℤ) :
    loopReads now (afterBatch (·.id) (deletable now predictionRetentionDays) table) =
      loopReads now table := by
  refine loopReads_filter htimes (fun p hp hprot ↦ decide_eq_true (fun hmem ↦ ?_))
  obtain ⟨r, hr, hdel, hid⟩ := mem_batchKeys hmem
  rw [List.inj_on_of_nodup_map hids hr hp hid, deletable, hprot] at hdel
  simp at hdel

structure Retained (now : Instant) (table after : List StoredPrediction) : Prop where
  ids : (after.map (·.id)).Nodup
  targetTimes : (after.map (·.targetTime)).Nodup
  reads : loopReads now after = loopReads now table

theorem Retained.runRetention {now : Instant} {table after : List StoredPrediction}
    (h : Retained now table after) (predictionRetentionDays : ℤ) (dryRun : Bool)
    (faults : Faults) :
    Retained now table (runRetention now predictionRetentionDays dryRun faults after).1 := by
  rw [Forecast.runRetention]
  split
  · exact h
  · refine deleteBatched_preserves (fun t ht ↦ ?_) dryRun faults h
    have hsub : (afterBatch (·.id) (deletable now predictionRetentionDays) t).Sublist t :=
      List.filter_sublist
    exact ⟨ht.ids.sublist (hsub.map _), ht.targetTimes.sublist (hsub.map _),
      (loopReads_afterBatch ht.ids ht.targetTimes now predictionRetentionDays).trans ht.reads⟩

theorem Retained.afterRetention {now : Instant} {table : List StoredPrediction}
    (h : Retained now table table) (predictionRetentionDays : ℤ) (dryRun : Bool)
    (faults : ℕ → Faults) (n : ℕ) :
    Retained now table (afterRetention now predictionRetentionDays dryRun faults table n) := by
  induction n with
  | zero => exact h
  | succ n ih => exact ih.runRetention predictionRetentionDays dryRun (faults n)

def DeletesNothing (out : Except String TableResult) : Prop :=
  ∃ res, out = .ok res ∧ res.error = none ∧ res.deleted = 0

theorem no_deletable_of_deletesNothing {now : Instant} {predictionRetentionDays : ℤ}
    {dryRun : Bool} {faults : Faults} {table : List StoredPrediction}
    (h : DeletesNothing (runRetention now predictionRetentionDays dryRun faults table).2) :
    ∀ p ∈ (runRetention now predictionRetentionDays dryRun faults table).1,
      p.predictedAt < predictionCutoff now predictionRetentionDays →
        isProtected (runRetention now predictionRetentionDays dryRun faults table).1 now p =
          true := by
  obtain ⟨res, hres, herror, hdeleted⟩ := h
  rw [runRetention] at hres ⊢
  cases hfloor : faults.floor with
  | some message =>
    rw [hfloor] at hres
    cases hres
  | none =>
    rw [hfloor] at hres
    obtain rfl := Except.ok.inj hres
    obtain ⟨hkept, hclean⟩ := deleteBatched_clean herror hdeleted
    intro p hp hold
    dsimp only at hp ⊢
    rw [hkept] at hp ⊢
    simpa [deletable, hold] using hclean p hp

theorem length_runRetention_le (now : Instant) (predictionRetentionDays : ℤ) (dryRun : Bool)
    (faults : Faults) (table : List StoredPrediction) :
    (runRetention now predictionRetentionDays dryRun faults table).1.length ≤ table.length := by
  rw [runRetention]
  split
  · exact le_rfl
  · exact deleteBatched_preserves (I := fun t ↦ t.length ≤ table.length)
      (fun t ht ↦ (List.length_filter_le _ t).trans ht) dryRun faults le_rfl

theorem runRetention_of_clear {faults : Faults} (h : faults.Clear) (now : Instant)
    (predictionRetentionDays : ℤ) (table : List StoredPrediction) :
    DeletesNothing (runRetention now predictionRetentionDays false faults table).2 ∨
      (runRetention now predictionRetentionDays false faults table).1.length < table.length := by
  rw [runRetention, h.floor]
  dsimp only
  obtain ⟨herror, hlen⟩ := deleteBatched_of_clear (fun p : StoredPrediction ↦ p.id)
    (deletable now predictionRetentionDays) h table
  by_cases hdeleted : (deleteBatched (fun p : StoredPrediction ↦ p.id)
      (deletable now predictionRetentionDays) false faults table).2.deleted = 0
  · exact .inl ⟨_, rfl, herror, hdeleted⟩
  · right
    omega

theorem length_afterRetention_le {now : Instant} {predictionRetentionDays : ℤ} {dryRun : Bool}
    {faults : ℕ → Faults} {table : List StoredPrediction} {m n : ℕ} (h : m ≤ n) :
    (afterRetention now predictionRetentionDays dryRun faults table n).length ≤
      (afterRetention now predictionRetentionDays dryRun faults table m).length := by
  induction n, h using Nat.le_induction with
  | base => exact le_rfl
  | succ n _ ih => exact (length_runRetention_le _ _ _ _ _).trans ih

theorem exists_deletesNothing {faults : ℕ → Faults} (h : ∀ m, ∃ n ≥ m, (faults n).Clear)
    (now : Instant) (predictionRetentionDays : ℤ) (table : List StoredPrediction) (len m : ℕ)
    (hlen : (afterRetention now predictionRetentionDays false faults table m).length ≤ len) :
    ∃ n ≥ m, DeletesNothing (runRetention now predictionRetentionDays false (faults n)
      (afterRetention now predictionRetentionDays false faults table n)).2 := by
  induction len generalizing m with
  | zero =>
    obtain ⟨n, hn, hclear⟩ := h m
    have hshort := (length_afterRetention_le hn).trans hlen
    rcases runRetention_of_clear hclear now predictionRetentionDays _ with hnone | hlt
    · exact ⟨n, hn, hnone⟩
    · exact absurd (hlt.trans_le hshort) (Nat.not_lt_zero _)
  | succ len ih =>
    obtain ⟨n, hn, hclear⟩ := h m
    have hshort := (length_afterRetention_le hn).trans hlen
    rcases runRetention_of_clear hclear now predictionRetentionDays _ with hnone | hlt
    · exact ⟨n, hn, hnone⟩
    · obtain ⟨k, hk, hnone⟩ := ih (n + 1) (Nat.le_of_lt_succ (hlt.trans_le hshort))
      exact ⟨k, hn.trans ((Nat.le_succ n).trans hk), hnone⟩

/-- Wherever the passes stop, the loops read what they read before; and the passes go on
until no unprotected row is older than the cutoff. -/
theorem retention_keeps_loopReads {table : List StoredPrediction}
    (hids : (table.map (·.id)).Nodup) (htimes : (table.map (·.targetTime)).Nodup) (now : Instant)
    (predictionRetentionDays : ℤ) (dryRun : Bool) (faults : ℕ → Faults) :
    (∀ n, loopReads now (afterRetention now predictionRetentionDays dryRun faults table n) =
      loopReads now table) ∧
    (∀ n, DeletesNothing (runRetention now predictionRetentionDays dryRun (faults n)
        (afterRetention now predictionRetentionDays dryRun faults table n)).2 →
      ∀ p ∈ afterRetention now predictionRetentionDays dryRun faults table (n + 1),
        p.predictedAt < predictionCutoff now predictionRetentionDays →
          isProtected (afterRetention now predictionRetentionDays dryRun faults table (n + 1))
            now p = true) ∧
    ((∀ m, ∃ n ≥ m, (faults n).Clear) →
      ∃ n, DeletesNothing (runRetention now predictionRetentionDays false (faults n)
        (afterRetention now predictionRetentionDays false faults table n)).2) := by
  have hretained : Retained now table table := ⟨hids, htimes, rfl⟩
  refine ⟨fun n ↦ (hretained.afterRetention predictionRetentionDays dryRun faults n).reads,
    fun n hnone ↦ no_deletable_of_deletesNothing hnone, fun hclear ↦ ?_⟩
  obtain ⟨n, _, hnone⟩ := exists_deletesNothing hclear now predictionRetentionDays table _ 0 le_rfl
  exact ⟨n, hnone⟩

/-- Two forecasts of one series, one of them never matured. -/
def agedTable : List StoredPrediction :=
  [{ id := 1, symbol := "XAUUSD", horizon := "1d", predictedAt := days 0, targetTime := days 1
     pointForecast := 10, expectedChangePct := 1, actualValue := none, actualRecordedAt := none
     modelName := "naive" },
    { id := 2, symbol := "XAUUSD", horizon := "1d", predictedAt := days 1, targetTime := days 2
      pointForecast := 10, expectedChangePct := 1, actualValue := some 11
      actualRecordedAt := some (days 2), modelName := "naive" }]

theorem agedTable_reads :
    loopReads (days 1000)
        (afterRetention (days 1000) 0 false (fun _ ↦ ⟨none, none, fun _ ↦ none⟩) agedTable 2) =
      loopReads (days 1000) agedTable :=
  (retention_keeps_loopReads (by decide) (by decide) (days 1000) 0 false
    (fun _ ↦ ⟨none, none, fun _ ↦ none⟩)).1 2

end Predictions

end TalaPala.Forecast
