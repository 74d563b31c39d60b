import Mathlib.Algebra.Order.Group.Int
import Mathlib.Data.List.Basic

namespace TalaPala.Forecast

open List

def minTrainPoints : ℕ := 60

def maxFolds : ℕ := 40

def holdoutMin : ℕ := 5

def holdoutMinTotal : ℕ := 15

/-- `range(start, stop, step)` of naturals. -/
def rangeStep (start stop step : ℕ) : List ℕ :=
  (List.range ((stop - start + step - 1) / step)).map (fun k ↦ start + k * step)

/-- The `now` positions walk-forward fits at, in time order. -/
def foldIndices (n horizonSteps minTrain maxFolds : ℕ) : List ℕ :=
  let lastNow : ℤ := n - 1 - horizonSteps
  let firstNow : ℤ := minTrain - 1
  if lastNow < firstNow then []
  else
    let step := max 1 ((lastNow - firstNow) / maxFolds + 1)
    rangeStep firstNow.toNat (lastNow + 1).toNat step.toNat

def foldStep (n horizonSteps maxFolds : ℕ) : ℕ :=
  let lastNow : ℤ := n - 1 - horizonSteps
  let firstNow : ℤ := minTrainPoints - 1
  if lastNow < firstNow then 1 else (max 1 ((lastNow - firstNow) / maxFolds + 1)).toNat

theorem mem_rangeStep {start stop step i : ℕ} (hi : i ∈ rangeStep start stop step) :
    start ≤ i ∧ i < stop := by
  obtain ⟨k, hk, rfl⟩ := mem_map.1 hi
  refine ⟨Nat.le_add_right _ _, ?_⟩
  rcases Nat.eq_zero_or_pos step with rfl | hstep
  · simp at hk
  · have hlast := (Nat.le_div_iff_mul_le hstep).1 (Nat.succ_le_of_lt (mem_range.1 hk))
    rw [Nat.succ_mul] at hlast
    generalize k * step = d at *
    omega

theorem start_mem_rangeStep {start stop step : ℕ} (hstep : 0 < step) (h : start < stop) :
    start ∈ rangeStep start stop step := by
  refine mem_map.2 ⟨0, mem_range.2 (Nat.div_pos (by omega) hstep), by omega⟩

theorem mem_foldIndices {n horizonSteps minTrain maxFolds i : ℕ} (h : 0 < minTrain)
    (hi : i ∈ foldIndices n horizonSteps minTrain maxFolds) : minTrain - 1 ≤ i ∧ i < n := by
  rw [foldIndices] at hi
  split at hi
  · cases hi
  · have := mem_rangeStep hi
    omega

theorem first_mem_foldIndices {n horizonSteps minTrain maxFolds : ℕ} (h : 0 < minTrain)
    (hrun : foldIndices n horizonSteps minTrain maxFolds ≠ []) :
    minTrain - 1 ∈ foldIndices n horizonSteps minTrain maxFolds := by
  rw [foldIndices] at hrun ⊢
  split
  next hshort => exact absurd (if_pos hshort) hrun
  next hshort =>
    have hfirst : ((minTrain : ℤ) - 1).toNat = minTrain - 1 := by omega
    rw [hfirst]
    exact start_mem_rangeStep (by omega) (by omega)

def splitFolds {α : Type*} (folds : List α) (horizonSteps step : ℕ) : List α × List α :=
  if folds.length < holdoutMinTotal then (folds, [])
  else
    let nHold := max holdoutMin (folds.length * 3 / 10)
    let embargo := (max 1 horizonSteps + max 1 step - 1) / max 1 step - 1
    let embargo := min embargo (folds.length - nHold - holdoutMin)
    let holdout := folds.drop (folds.length - nHold)
    let selection := folds.take (folds.length - nHold - embargo)
    if selection.length < holdoutMin then (folds, []) else (selection, holdout)

/-- How many of `n` folds are in the selection block. -/
def selectionLength (n horizonSteps step : ℕ) : ℕ :=
  (splitFolds (List.range n) horizonSteps step).1.length

theorem splitFolds_selection {α : Type*} (folds : List α) (horizonSteps step : ℕ) :
    (splitFolds folds horizonSteps step).1 =
      folds.take (selectionLength folds.length horizonSteps step) := by
  simp only [selectionLength, splitFolds, length_range, length_take]
  split_ifs
  · rw [length_range, take_length]
  · rw [length_range, take_length]
  · rw [length_take, length_range, ← take_eq_take_min]

end TalaPala.Forecast
