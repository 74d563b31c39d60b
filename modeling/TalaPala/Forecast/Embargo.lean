import TalaPala.Forecast.WalkForward
import Mathlib.Data.List.Infix
import Mathlib.Tactic.Linarith

namespace TalaPala.Forecast

open List

def runStep (n horizonSteps minTrain maxFolds : ℕ) : ℕ :=
  let lastNow : ℤ := n - 1 - horizonSteps
  let firstNow : ℤ := minTrain - 1
  if lastNow < firstNow then 1 else (max 1 ((lastNow - firstNow) / maxFolds + 1)).toNat

structure Separated (horizonSteps : ℕ) (selection holdout : List ℕ) : Prop where
  targets : ∀ i ∈ selection, ∀ first ∈ holdout.head?, i + horizonSteps ≤ first
  inOrder : (selection ++ holdout).Pairwise (· < ·)
  selection_min : holdoutMin ≤ selection.length
  holdout_min : holdoutMin ≤ holdout.length

def HoldoutSeparated (folds : List ℕ) (horizonSteps step : ℕ) : Prop :=
  let split := splitFolds folds horizonSteps step
  split.2 ≠ [] → Separated horizonSteps split.1 split.2

def holdoutLength (folds : ℕ) : ℕ := max holdoutMin (folds * 3 / 10)

def wholeEmbargo (horizonSteps step : ℕ) : ℕ :=
  (max 1 horizonSteps + max 1 step - 1) / max 1 step - 1

def EmbargoFits (folds : List ℕ) (horizonSteps step : ℕ) : Prop :=
  folds.length < holdoutMinTotal ∨
    wholeEmbargo horizonSteps step + holdoutMin + holdoutLength folds.length ≤ folds.length ∨
    ∃ i first, folds[holdoutMin - 1]? = some i ∧
      folds[folds.length - holdoutLength folds.length]? = some first ∧ i + horizonSteps ≤ first

section Spacing

variable {folds : List ℕ} {step : ℕ}

theorem rangeStep_spaced (start stop step : ℕ) :
    (rangeStep start stop step).Pairwise (fun i j ↦ i + step ≤ j) := by
  rw [rangeStep, pairwise_map]
  refine pairwise_lt_range.imp (fun {a b} hab ↦ ?_)
  have hmul : (a + 1) * step ≤ b * step := Nat.mul_le_mul_right step hab
  rw [Nat.succ_mul] at hmul
  omega

theorem foldIndices_spaced (n horizonSteps minTrain maxFolds : ℕ) :
    (foldIndices n horizonSteps minTrain maxFolds).Pairwise
      (fun i j ↦ i + runStep n horizonSteps minTrain maxFolds ≤ j) := by
  rw [foldIndices, runStep]
  split
  · exact .nil
  · exact rangeStep_spaced _ _ _

theorem spaced_getElem (h : folds.Pairwise (fun i j ↦ i + step ≤ j)) {a b i j : ℕ}
    (hi : folds[a]? = some i) (hj : folds[b]? = some j) (hab : a ≤ b) :
    i + (b - a) * step ≤ j := by
  induction b, hab using Nat.le_induction generalizing j with
  | base =>
    rw [hi] at hj
    rw [Nat.sub_self, Nat.zero_mul, Option.some.inj hj]
    exact le_rfl
  | succ b hab ih =>
    obtain ⟨hlt, rfl⟩ := List.getElem?_eq_some_iff.mp hj
    have hprev : folds[b]? = some folds[b] := getElem?_eq_getElem (by omega)
    have hstep := pairwise_iff_getElem.mp h b (b + 1) (by omega) hlt (Nat.lt_succ_self b)
    have hrec := ih hprev
    rw [Nat.succ_sub hab, Nat.succ_mul]
    omega

end Spacing

theorem horizon_le_embargo (horizonSteps step : ℕ) :
    horizonSteps ≤ (wholeEmbargo horizonSteps step + 1) * max 1 step := by
  rw [wholeEmbargo]
  set s := max 1 step with hs
  set q := (max 1 horizonSteps + s - 1) / s with hq
  have hspos : 1 ≤ s := le_max_left _ _
  have hdiv : s * q + (max 1 horizonSteps + s - 1) % s = max 1 horizonSteps + s - 1 :=
    Nat.div_add_mod _ _
  have hmod : (max 1 horizonSteps + s - 1) % s < s := Nat.mod_lt _ hspos
  have hle : horizonSteps ≤ max 1 horizonSteps := le_max_right _ _
  have hcover : horizonSteps ≤ s * q := by omega
  have hsub : q ≤ q - 1 + 1 := by omega
  calc horizonSteps ≤ s * q := hcover
    _ ≤ s * (q - 1 + 1) := Nat.mul_le_mul_left s hsub
    _ = (q - 1 + 1) * s := Nat.mul_comm _ _

theorem runStep_pos (n horizonSteps minTrain maxFolds : ℕ) :
    1 ≤ runStep n horizonSteps minTrain maxFolds := by
  rw [runStep]
  split <;> omega

theorem holdoutLength_le {folds : ℕ} (h : holdoutMinTotal ≤ folds) :
    holdoutLength folds + 2 * holdoutMin ≤ folds := by
  rw [holdoutLength]
  simp only [holdoutMinTotal, holdoutMin] at h ⊢
  omega

section Split

variable {folds : List ℕ} {horizonSteps step : ℕ}

theorem splitFolds_blocks (h : holdoutMinTotal ≤ folds.length) :
    splitFolds folds horizonSteps step =
      (folds.take (folds.length - holdoutLength folds.length -
          min (wholeEmbargo horizonSteps step)
            (folds.length - holdoutLength folds.length - holdoutMin)),
        folds.drop (folds.length - holdoutLength folds.length)) := by
  have hle := holdoutLength_le h
  rw [splitFolds, if_neg (not_lt.mpr h)]
  dsimp only
  rw [if_neg]
  · rfl
  · rw [length_take]
    change ¬ min (folds.length - holdoutLength folds.length -
      min (wholeEmbargo horizonSteps step)
        (folds.length - holdoutLength folds.length - holdoutMin)) folds.length < holdoutMin
    omega

theorem separated_iff {k m i first : ℕ} (hasc : folds.Pairwise (· < ·)) (hkm : k < m)
    (hi : folds[k]? = some i) (hfirst : folds[m]? = some first) (hk : holdoutMin ≤ k + 1)
    (hm : holdoutMin + m ≤ folds.length) :
    Separated horizonSteps (folds.take (k + 1)) (folds.drop m) ↔ i + horizonSteps ≤ first := by
  have hhead : (folds.drop m).head? = some first := by rw [head?_drop, hfirst]
  obtain ⟨hklt, rfl⟩ := List.getElem?_eq_some_iff.mp hi
  have hlast : folds[k] ∈ folds.take (k + 1) :=
    mem_take_iff_getElem.mpr ⟨k, by omega, rfl⟩
  constructor
  · exact fun h ↦ h.targets _ hlast first hhead
  · intro hle
    refine ⟨fun j hj first' hfirst' ↦ ?_, ?_, ?_, ?_⟩
    · obtain rfl : first = first' := Option.some.inj (hhead.symm.trans hfirst')
      obtain ⟨a, ha, rfl⟩ := mem_take_iff_getElem.mp hj
      rcases Nat.lt_or_eq_of_le (Nat.le_of_lt_succ (lt_min_iff.mp ha).1) with hlt | rfl
      · have hbefore := pairwise_iff_getElem.mp hasc a k (by omega) hklt hlt
        omega
      · exact hle
    · have hsub : (folds.take (k + 1) ++ folds.drop m).Sublist folds := by
        have hdrop : folds.drop m = (folds.drop (k + 1)).drop (m - (k + 1)) := by
          rw [drop_drop, Nat.add_sub_cancel' hkm]
        rw [hdrop]
        conv_rhs => rw [← take_append_drop (k + 1) folds]
        exact (drop_sublist _ _).append_left _
      exact hasc.sublist hsub
    · rw [length_take]
      omega
    · rw [length_drop]
      omega

end Split

/-- A holdout is separated from the selection just when the embargo did not have to be
cut, or when folds are missing in its place. -/
theorem holdoutSeparated_iff (n horizonSteps minTrain maxFolds : ℕ) {folds : List ℕ}
    (hsub : folds.Sublist (foldIndices n horizonSteps minTrain maxFolds)) :
    HoldoutSeparated folds horizonSteps (runStep n horizonSteps minTrain maxFolds) ↔
      EmbargoFits folds horizonSteps (runStep n horizonSteps minTrain maxFolds) := by
  have hpos := runStep_pos n horizonSteps minTrain maxFolds
  have hspaced := (foldIndices_spaced n horizonSteps minTrain maxFolds).sublist hsub
  set step := runStep n horizonSteps minTrain maxFolds
  have hasc : folds.Pairwise (· < ·) := hspaced.imp (fun h ↦ by omega)
  rw [HoldoutSeparated, EmbargoFits]
  by_cases hshort : folds.length < holdoutMinTotal
  · have hnone : (splitFolds folds horizonSteps step).2 = [] := by rw [splitFolds, if_pos hshort]
    exact ⟨fun _ ↦ .inl hshort, fun _ hne ↦ absurd hnone hne⟩
  · have hle := holdoutLength_le (not_lt.mp hshort)
    set held := holdoutLength folds.length
    set whole := wholeEmbargo horizonSteps step with hwhole
    set m := folds.length - held with hm
    obtain ⟨k, hk⟩ : ∃ k, m - min whole (m - holdoutMin) = k + 1 :=
      Nat.exists_eq_add_one.mpr (by simp only [holdoutMin] at *; omega)
    have hmlt : m < folds.length := by
      have hheld : holdoutMin ≤ held := le_max_left _ _
      simp only [holdoutMin] at *
      omega
    have hkm : k < m := by omega
    have hi : folds[k]? = some folds[k] := getElem?_eq_getElem (by omega)
    have hfirst : folds[m]? = some folds[m] := getElem?_eq_getElem hmlt
    have hblocks : splitFolds folds horizonSteps step = (folds.take (k + 1), folds.drop m) := by
      rw [splitFolds_blocks (not_lt.mp hshort), ← hk]
    have hne : folds.drop m ≠ [] := by
      rw [Ne, drop_eq_nil_iff]
      omega
    have hseparated : Separated horizonSteps (folds.take (k + 1)) (folds.drop m) ↔
        folds[k] + horizonSteps ≤ folds[m] := by
      have hheld : holdoutMin ≤ held := le_max_left _ _
      exact separated_iff hasc hkm hi hfirst (by omega) (by omega)
    rw [hblocks]
    dsimp only
    rw [imp_iff_right hne, hseparated]
    by_cases hfit : whole + holdoutMin + held ≤ folds.length
    · -- The whole embargo is dropped: a step for each of its folds and one more.
      have hcover := horizon_le_embargo horizonSteps step
      rw [max_eq_right hpos, ← hwhole] at hcover
      have hplaces : m - k = whole + 1 := by omega
      have hgap := spaced_getElem hspaced hi hfirst hkm.le
      rw [hplaces] at hgap
      exact iff_of_true (by omega) (.inr (.inl hfit))
    · -- The embargo is cut, and the selection is of the least length.
      have hleast : k = holdoutMin - 1 := by omega
      subst hleast
      constructor
      · exact fun h ↦ .inr (.inr ⟨_, _, hi, hfirst, h⟩)
      · rintro (hcontra | hcontra | ⟨i, first, hi', hfirst', h⟩)
        · exact absurd hcontra hshort
        · exact absurd hcontra hfit
        · rw [Option.some.inj (hi.symm.trans hi'), Option.some.inj (hfirst.symm.trans hfirst')]
          exact h

theorem holdoutSeparated_long_history :
    HoldoutSeparated (foldIndices 300 30 minTrainPoints maxFolds) 30
      (runStep 300 30 minTrainPoints maxFolds) :=
  (holdoutSeparated_iff 300 30 minTrainPoints maxFolds (List.Sublist.refl _)).mpr
    (.inr (.inl (by decide)))

/-- On a short history with a long horizon the embargo is cut, and the last selection
target, at 93, lies beyond the first holdout fold, at 81. -/
theorem holdout_overlaps_short_history :
    ¬ HoldoutSeparated (foldIndices 120 30 minTrainPoints maxFolds) 30
      (runStep 120 30 minTrainPoints maxFolds) := by
  intro h
  have hne : (splitFolds (foldIndices 120 30 minTrainPoints maxFolds) 30
      (runStep 120 30 minTrainPoints maxFolds)).2 ≠ [] := by decide
  have hle : 63 + 30 ≤ 81 := (h hne).targets 63 (by decide) 81 (by decide)
  omega

end TalaPala.Forecast
