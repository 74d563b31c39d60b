import TalaPala.Forecast.Tournament
import Mathlib.Data.Prod.Lex

namespace TalaPala.Forecast

open List

/-- What one fit makes of a prefix: a finite prediction, one that is not, a failure, or
word that the model cannot run at all. -/
inductive FitOutcome
  | value (pred : ℚ)
  | nonFinite
  | failed (why : String)
  | unavailable (why : String)

structure ForecastModel (Context State : Type*) where
  name : String
  reuseAcrossFolds : Bool
  tabular : Bool
  fresh : State
  fit : State → List ℚ → ℕ → Context → State × FitOutcome

inductive WalkLog
  | skipped (model why : String)
  | foldFailed (model : String) (index : ℕ) (why : String)

structure ChunkResult where
  preds : List (ℕ × ℚ)
  unavailable : Option String
  failures : List (ℕ × String)

/-- At most `nChunks` contiguous parts of nearly one size. -/
def chunks (indices : List ℕ) (nChunks : ℤ) : List (List ℕ) :=
  let nChunks := (max 1 (min nChunks indices.length)).toNat
  let size := (indices.length + nChunks - 1) / nChunks
  (rangeStep 0 indices.length size).map (fun k ↦ (indices.drop k).take size)

def workerCount (cores memoryCap : ℤ) : Option ℤ → ℤ
  | some n => if 0 < n then n else max 1 (min (cores - 1) memoryCap)
  | none => max 1 (min (cores - 1) memoryCap)

def walkLoop {State : Type*} (name : String) (fit : State → ℕ → State × FitOutcome)
    (state : State) (preds : List (ℕ × ℚ)) (log : List WalkLog) :
    List ℕ → Option (List (ℕ × ℚ)) × List WalkLog
  | [] => (some preds, log)
  | i :: rest =>
    match fit state i with
    | (_, .unavailable why) => (none, log ++ [.skipped name why])
    | (next, .failed why) => walkLoop name fit next preds (log ++ [.foldFailed name i why]) rest
    | (next, .nonFinite) => walkLoop name fit next preds log rest
    | (next, .value pred) => walkLoop name fit next (preds ++ [(i, pred)]) log rest

section Walk

variable {Context State : Type*} (predictionContext : List (Instant × ℚ) → Context → Context)
  (series : List (Instant × ℚ)) (model : ForecastModel Context State) (horizonSteps : ℕ)
  (context : Context)

def foldContext : Context :=
  if model.tabular then predictionContext series context else context

def fitAt (state : State) (i : ℕ) : State × FitOutcome :=
  model.fit state ((series.take (i + 1)).map Prod.snd) horizonSteps
    (foldContext predictionContext series model context)

def fitFoldChunk (preds : List (ℕ × ℚ)) (failures : List (ℕ × String)) :
    List ℕ → ChunkResult
  | [] => ⟨preds, none, failures⟩
  | i :: rest =>
    match (fitAt predictionContext series model horizonSteps context model.fresh i).2 with
    | .unavailable why => ⟨[], some why, failures⟩
    | .failed why => fitFoldChunk preds (failures ++ [(i, why)]) rest
    | .nonFinite => fitFoldChunk preds failures rest
    | .value pred => fitFoldChunk (preds ++ [(i, pred)]) failures rest

def mergeChunks (name : String) (preds : List (ℕ × ℚ)) (log : List WalkLog) :
    List ChunkResult → Option (List (ℕ × ℚ)) × List WalkLog
  | [] => (some preds, log)
  | r :: rest =>
    let log := log ++ r.failures.map (fun (i, why) ↦ .foldFailed name i why)
    match r.unavailable with
    | some why => (none, log ++ [.skipped name why])
    | none => mergeChunks name (preds ++ r.preds) log rest

def foldOf (p : ℕ × ℚ) : Option Fold :=
  match series[p.1]?, series[p.1 + horizonSteps]? with
  | some (time, base), some (_, actual) => some ⟨p.1, time, base, p.2, actual⟩
  | _, _ => none

def foldsOf (preds : List (ℕ × ℚ)) : List Fold := preds.filterMap (foldOf series horizonSteps)

/-- Expanding-window validation, over worker processes where `nJobs` asks for them, and
what it logs. -/
def walkForward (minTrain maxFolds : ℕ) (cores memoryCap : ℤ) (nJobs : Option ℤ) :
    List Fold × List WalkLog :=
  let indices := foldIndices series.length horizonSteps minTrain maxFolds
  if indices = [] then ([], [])
  else if model.reuseAcrossFolds then
    let (preds, log) := walkLoop model.name
      (fitAt predictionContext series model horizonSteps context) model.fresh [] [] indices
    (preds.elim [] (foldsOf series horizonSteps), log)
  else
    let workers := if nJobs = some 1 then 1 else workerCount cores memoryCap nJobs
    let (preds, log) := mergeChunks model.name [] [] ((chunks indices workers).map
      (fitFoldChunk predictionContext series model horizonSteps context [] []))
    (preds.elim [] (fun preds ↦
      foldsOf series horizonSteps (preds.insertionSort (fun p q ↦ toLex p ≤ toLex q))), log)

end Walk

section Indices

theorem flatten_slices {α : Type*} (l : List α) (size count : ℕ) :
    ((List.range count).map (fun k ↦ (l.drop (k * size)).take size)).flatten =
      l.take (count * size) := by
  induction count with
  | zero => rw [Nat.zero_mul, take_zero, range_zero, map_nil, flatten_nil]
  | succ count ih =>
    rw [range_succ, map_append, flatten_append, ih, map_singleton,
      flatten_singleton, Nat.succ_mul, take_add]

theorem le_ceil_mul {len size : ℕ} (hsize : 0 < size) : len ≤ (len + size - 1) / size * size := by
  have hdiv : size * ((len + size - 1) / size) + (len + size - 1) % size = len + size - 1 :=
    Nat.div_add_mod _ _
  have hmod : (len + size - 1) % size < size := Nat.mod_lt _ hsize
  rw [Nat.mul_comm] at hdiv
  omega

theorem chunks_flatten (indices : List ℕ) (nChunks : ℤ) :
    (chunks indices nChunks).flatten = indices := by
  rw [chunks]
  set count := (max 1 (min nChunks indices.length)).toNat with hcount
  have hpos : 0 < count := by omega
  rcases Nat.eq_zero_or_pos indices.length with hnil | hlen
  · rw [length_eq_zero_iff.mp hnil]
    have hsize : (0 + count - 1) / count = 0 := Nat.div_eq_of_lt (by omega)
    simp only [length_nil, hsize]
    rfl
  · have hsize : 0 < (indices.length + count - 1) / count := Nat.div_pos (by omega) hpos
    rw [rangeStep, map_map, Nat.sub_zero]
    simp only [Function.comp_def, Nat.zero_add]
    rw [flatten_slices, take_of_length_le (le_ceil_mul hsize)]

theorem rangeStep_ascending (start stop : ℕ) {step : ℕ} (hstep : 0 < step) :
    (rangeStep start stop step).Pairwise (· < ·) := by
  rw [rangeStep, pairwise_map]
  exact pairwise_lt_range.imp (fun h ↦
    Nat.add_lt_add_left (Nat.mul_lt_mul_of_pos_right h hstep) start)

theorem foldIndices_ascending (n horizonSteps minTrain maxFolds : ℕ) :
    (foldIndices n horizonSteps minTrain maxFolds).Pairwise (· < ·) := by
  rw [foldIndices]
  split
  · exact .nil
  · exact rangeStep_ascending _ _ (by omega)

theorem foldIndices_horizon {n horizonSteps minTrain maxFolds i : ℕ}
    (hi : i ∈ foldIndices n horizonSteps minTrain maxFolds) : i + horizonSteps < n := by
  rw [foldIndices] at hi
  split at hi
  · cases hi
  · have hstop := (mem_rangeStep hi).2
    omega

theorem foldIndices_length {n horizonSteps minTrain maxFolds : ℕ} (hmax : 0 < maxFolds) :
    (foldIndices n horizonSteps minTrain maxFolds).length ≤ maxFolds := by
  rw [foldIndices]
  split
  · exact Nat.zero_le _
  · rename_i hspan
    obtain ⟨d, hd⟩ := Int.eq_ofNat_of_zero_le
      (show 0 ≤ (n : ℤ) - 1 - horizonSteps - (minTrain - 1) by omega)
    have hstep : (max 1 (((n : ℤ) - 1 - horizonSteps - (minTrain - 1)) / maxFolds + 1)).toNat =
        d / maxFolds + 1 := by
      rw [hd, ← Int.natCast_div]
      generalize d / maxFolds = q
      omega
    dsimp only
    rw [hstep, rangeStep, length_map, length_range]
    have hlt : d < maxFolds * (d / maxFolds + 1) := Nat.lt_mul_div_succ d hmax
    have hpos : 0 < d / maxFolds + 1 := Nat.succ_pos _
    refine Nat.lt_succ_iff.mp ((Nat.div_lt_iff_lt_mul hpos).mpr ?_)
    rw [Nat.succ_mul]
    omega

end Indices

section Merge

variable {Context State : Type*} {predictionContext : List (Instant × ℚ) → Context → Context}
  {series : List (Instant × ℚ)} {model : ForecastModel Context State} {horizonSteps : ℕ}
  {context : Context}

variable (predictionContext series model horizonSteps context) in
def fitFresh (state : State) (i : ℕ) : State × FitOutcome :=
  (state, (fitAt predictionContext series model horizonSteps context model.fresh i).2)

theorem walkLoop_append (state : State) (preds done : List (ℕ × ℚ)) (log : List WalkLog)
    (failures : List (ℕ × String)) (chunk rest : List ℕ) :
    walkLoop model.name (fitFresh predictionContext series model horizonSteps context) state
        (preds ++ done) (log ++ failures.map (fun (i, why) ↦ .foldFailed model.name i why))
        (chunk ++ rest) =
      let r := fitFoldChunk predictionContext series model horizonSteps context done failures chunk
      let log := log ++ r.failures.map (fun (i, why) ↦ .foldFailed model.name i why)
      match r.unavailable with
      | some why => (none, log ++ [.skipped model.name why])
      | none => walkLoop model.name (fitFresh predictionContext series model horizonSteps context)
          state (preds ++ r.preds) log rest := by
  induction chunk generalizing done failures with
  | nil => rfl
  | cons i chunk ih =>
    rw [cons_append, walkLoop, fitFoldChunk, fitFresh]
    cases (fitAt predictionContext series model horizonSteps context model.fresh i).2 with
    | unavailable why => rfl
    | failed why =>
      dsimp only
      rw [← ih, map_append, append_assoc]
      rfl
    | nonFinite => exact ih done failures
    | value pred =>
      dsimp only
      rw [← ih, append_assoc]

theorem mergeChunks_eq (state : State) (preds : List (ℕ × ℚ)) (log : List WalkLog)
    (parts : List (List ℕ)) :
    mergeChunks model.name preds log (parts.map
        (fitFoldChunk predictionContext series model horizonSteps context [] [])) =
      walkLoop model.name (fitFresh predictionContext series model horizonSteps context) state
        preds log parts.flatten := by
  induction parts generalizing preds log with
  | nil => rfl
  | cons chunk parts ih =>
    have hchunk : walkLoop model.name
        (fitFresh predictionContext series model horizonSteps context) state (preds ++ [])
        (log ++ []) (chunk ++ parts.flatten) = _ :=
      walkLoop_append state preds [] log [] chunk parts.flatten
    rw [append_nil, append_nil] at hchunk
    rw [map_cons, flatten_cons, hchunk, mergeChunks]
    dsimp only
    split
    · rfl
    · exact ih _ _

theorem walkLoop_indices {name : String} {fit : State → ℕ → State × FitOutcome} {state : State}
    {preds out : List (ℕ × ℚ)} {log : List WalkLog} {indices : List ℕ}
    (h : (walkLoop name fit state preds log indices).1 = some out) :
    ∃ new, out = preds ++ new ∧ (new.map Prod.fst).Sublist indices := by
  induction indices generalizing state preds log with
  | nil => exact ⟨[], by rw [append_nil, Option.some.inj h], List.Sublist.refl _⟩
  | cons i rest ih =>
    rw [walkLoop] at h
    split at h
    · cases h
    · obtain ⟨new, hnew, hsub⟩ := ih h
      exact ⟨new, hnew, hsub.cons i⟩
    · obtain ⟨new, hnew, hsub⟩ := ih h
      exact ⟨new, hnew, hsub.cons i⟩
    · rename_i next pred _
      obtain ⟨new, hnew, hsub⟩ := ih h
      refine ⟨(i, pred) :: new, ?_, hsub.cons_cons i⟩
      rw [hnew, append_assoc, singleton_append]

theorem foldsOf_ascending {preds : List (ℕ × ℚ)}
    (h : (preds.map Prod.fst).Pairwise (· < ·)) :
    ((foldsOf series horizonSteps preds).map Fold.tIndex).Pairwise (· < ·) := by
  rw [foldsOf, pairwise_map, pairwise_filterMap]
  refine (pairwise_map.mp h).imp (fun {p q} hpq f hf g hg ↦ ?_)
  have hindex (p : ℕ × ℚ) (f : Fold) (hf : foldOf series horizonSteps p = some f) :
      f.tIndex = p.1 := by
    rw [foldOf] at hf
    split at hf
    · rw [← Option.some.inj hf]
    · cases hf
  rw [hindex p f hf, hindex q g hg]
  exact hpq

end Merge

section Parallel

variable {Context State : Type*} (predictionContext : List (Instant × ℚ) → Context → Context)
  (series : List (Instant × ℚ)) (model : ForecastModel Context State) (horizonSteps : ℕ)
  (context : Context) (minTrain maxFolds : ℕ)

theorem walkForward_eq (cores memoryCap : ℤ) (nJobs : Option ℤ) :
    walkForward predictionContext series model horizonSteps context minTrain maxFolds cores
        memoryCap nJobs =
      let indices := foldIndices series.length horizonSteps minTrain maxFolds
      let fit := if model.reuseAcrossFolds then
        fitAt predictionContext series model horizonSteps context
        else fitFresh predictionContext series model horizonSteps context
      let run := walkLoop model.name fit model.fresh [] [] indices
      (run.1.elim [] (foldsOf series horizonSteps), run.2) := by
  have hasc := foldIndices_ascending series.length horizonSteps minTrain maxFolds
  rw [walkForward]
  dsimp only
  by_cases hnil : foldIndices series.length horizonSteps minTrain maxFolds = []
  · rw [if_pos hnil, hnil]
    rfl
  · rw [if_neg hnil]
    by_cases hreuse : model.reuseAcrossFolds = true
    · rw [if_pos hreuse, if_pos hreuse]
    · rw [if_neg hreuse, if_neg hreuse, mergeChunks_eq model.fresh, chunks_flatten]
      cases hpreds : (walkLoop model.name
        (fitFresh predictionContext series model horizonSteps context) model.fresh [] []
        (foldIndices series.length horizonSteps minTrain maxFolds)).1 with
      | none => rfl
      | some preds =>
        obtain ⟨new, rfl, hsub⟩ := walkLoop_indices hpreds
        have hsorted : preds.Pairwise (fun p q ↦ toLex p ≤ toLex q) :=
          (pairwise_map.mp (hasc.sublist hsub)).imp (fun h ↦
            (Prod.Lex.toLex_lt_toLex.mpr (.inl h)).le)
        rw [Option.elim_some, Option.elim_some, hsorted.insertionSort_eq]

/-- Neither folds nor log depend on how many workers fit them; the folds are in time
order, on indices that are chosen and shared out as they should be. -/
theorem walkForward_parallel :
    (∀ cores memoryCap cores' memoryCap' nJobs,
      walkForward predictionContext series model horizonSteps context minTrain maxFolds cores
          memoryCap nJobs =
        walkForward predictionContext series model horizonSteps context minTrain maxFolds cores'
          memoryCap' (some 1)) ∧
    (∀ cores memoryCap nJobs, ((walkForward predictionContext series model horizonSteps context
      minTrain maxFolds cores memoryCap nJobs).1.map Fold.tIndex).Pairwise (· < ·)) ∧
    (foldIndices series.length horizonSteps minTrain maxFolds).Pairwise (· < ·) ∧
    (0 < maxFolds →
      (foldIndices series.length horizonSteps minTrain maxFolds).length ≤ maxFolds) ∧
    (∀ i ∈ foldIndices series.length horizonSteps minTrain maxFolds,
      i + horizonSteps < series.length) ∧
    ∀ nChunks, (chunks (foldIndices series.length horizonSteps minTrain maxFolds)
      nChunks).flatten = foldIndices series.length horizonSteps minTrain maxFolds := by
  have hasc := foldIndices_ascending series.length horizonSteps minTrain maxFolds
  refine ⟨fun cores memoryCap cores' memoryCap' nJobs ↦ ?_, fun cores memoryCap nJobs ↦ ?_, hasc,
    foldIndices_length, fun i hi ↦ foldIndices_horizon hi, chunks_flatten _⟩
  · rw [walkForward_eq, walkForward_eq]
  · rw [walkForward_eq]
    dsimp only
    cases hpreds : (walkLoop model.name _ model.fresh [] []
      (foldIndices series.length horizonSteps minTrain maxFolds)).1 with
    | none => exact .nil
    | some preds =>
      obtain ⟨new, rfl, hsub⟩ := walkLoop_indices hpreds
      exact foldsOf_ascending (hasc.sublist hsub)

end Parallel

def naive : ForecastModel Unit Unit where
  name := "naive"
  reuseAcrossFolds := false
  tabular := false
  fresh := ()
  fit state closes _ _ := (state, closes.getLast?.elim .nonFinite .value)

def sixDays : List (Instant × ℚ) := [(0, 1), (1, 2), (2, 4), (3, 3), (4, 5), (5, 6)]

theorem walkForward_parallel_naive :
    walkForward (fun _ ↦ id) sixDays naive 1 () 2 3 8 4 (some 2) =
        walkForward (fun _ ↦ id) sixDays naive 1 () 2 3 1 1 (some 1) ∧
      (walkForward (fun _ ↦ id) sixDays naive 1 () 2 3 8 4 (some 2)).1.map Fold.pred = [2, 3] :=
  ⟨(walkForward_parallel (fun _ ↦ id) sixDays naive 1 () 2 3).1 8 4 1 1 (some 2),
    by decide +kernel⟩

section Specification

def FitOutcome.pred? : FitOutcome → Option ℚ
  | .value pred => some pred
  | _ => none

def FitOutcome.isUnavailable : FitOutcome → Bool
  | .unavailable _ => true
  | _ => false

variable {Context State : Type*} (predictionContext : List (Instant × ℚ) → Context → Context)
  (series : List (Instant × ℚ)) (model : ForecastModel Context State) (horizonSteps : ℕ)
  (context : Context)

/-- What the model makes of the series up to an index and of nothing else. -/
def outcomeAt (i : ℕ) : FitOutcome :=
  (fitAt predictionContext series model horizonSteps context model.fresh i).2

theorem walkLoop_fresh (state : State) (preds : List (ℕ × ℚ)) (log : List WalkLog)
    (indices : List ℕ) :
    let outcome := outcomeAt predictionContext series model horizonSteps context
    (walkLoop model.name (fitFresh predictionContext series model horizonSteps context) state
        preds log indices).1 =
      if indices.any (fun i ↦ (outcome i).isUnavailable) then none
      else some (preds ++ indices.filterMap (fun i ↦ (outcome i).pred?.map (i, ·))) := by
  dsimp only
  induction indices generalizing state preds log with
  | nil => simp [walkLoop]
  | cons i rest ih =>
    rw [walkLoop, fitFresh, any_cons, filterMap_cons, ← outcomeAt]
    cases outcomeAt predictionContext series model horizonSteps context i with
    | unavailable why => rfl
    | failed why => exact ih ..
    | nonFinite => exact ih ..
    | value pred => exact (ih ..).trans (by simp [FitOutcome.pred?, FitOutcome.isUnavailable])

end Specification

end TalaPala.Forecast
