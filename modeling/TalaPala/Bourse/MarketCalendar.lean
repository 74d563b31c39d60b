import TalaPala.Bourse.SectorFlows
import Mathlib.Algebra.BigOperators.Ring.List
import Mathlib.Algebra.Order.BigOperators.Group.List

namespace TalaPala.Bourse

open List

def SessionCount.floored (x : SessionCount) : SessionCount := { x with day := dayFloor x.day }

structure Calendaring where
  cal : MarketCalendar
  pending : ℕ

def Calendaring.step (keep : ℕ) (s : Calendaring) (x : SessionCount) : Calendaring :=
  if keep ≤ s.cal.sessions.length then s
  else
    let x := x.floored
    if ¬x.marketSession then
      if s.cal.sessions.length = 0 then
        { s with cal := { s.cal with
            thinAfterNewest := s.cal.thinAfterNewest + 1
            newestThin := s.cal.newestThin.orElse (fun _ ↦ some x) } }
      else { s with pending := s.pending + 1 }
    else
      { cal := { s.cal with
          thinSkipped := s.cal.thinSkipped + s.pending
          sessions := s.cal.sessions ++ [x.day]
          counts := s.cal.counts ++ [x] }
        pending := 0 }

def newestFirst (counts : List SessionCount) : List SessionCount :=
  counts.insertionSort (fun a b ↦ b.day ≤ a.day)

def buildMarketCalendar (counts : List SessionCount) (keep : ℕ) : MarketCalendar :=
  let s := newestFirst counts
  let files := s.filter SessionCount.dayFile
  let start : MarketCalendar :=
    { sessions := [], counts := [], newestStored := s.head?.map SessionCount.floored
      thinAfterNewest := 0, newestThin := none, thinSkipped := 0
      newestDayFile := files.head?.map SessionCount.floored, dayFiles := files.length }
  (s.foldl (Calendaring.step keep) ⟨start, 0⟩).cal

section Sessions

theorem dayFloor_mono {s t : Instant} (h : s ≤ t) : dayFloor s ≤ dayFloor t := by
  have hpos : (0 : ℤ) < microsPerDay := by decide
  exact Int.mul_le_mul_of_nonneg_right (Int.ediv_le_ediv hpos h) hpos.le

theorem Calendaring.foldl_step_sessions {keep : ℕ} (l : List SessionCount) {s : Calendaring}
    (h : s.cal.sessions = s.cal.counts.map SessionCount.day) :
    (l.foldl (step keep) s).cal.sessions =
      (l.foldl (step keep) s).cal.counts.map SessionCount.day := by
  induction l generalizing s with
  | nil => exact h
  | cons x rest ih =>
    refine ih ?_
    unfold step
    split
    · exact h
    · dsimp only
      split
      · split <;> exact h
      · rw [h, map_append, map_cons, map_nil]

theorem Calendaring.foldl_step_counts {keep : ℕ} (l : List SessionCount) {s : Calendaring}
    (h : s.cal.sessions.length = s.cal.counts.length) :
    (l.foldl (step keep) s).cal.counts = s.cal.counts ++
      ((l.map SessionCount.floored).filter SessionCount.marketSession).take
        (keep - s.cal.sessions.length) := by
  induction l generalizing s with
  | nil => simp
  | cons x rest ih =>
    rw [foldl_cons, map_cons]
    by_cases hfull : keep ≤ s.cal.sessions.length
    · have hstep : step keep s x = s := if_pos hfull
      rw [hstep, ih h, Nat.sub_eq_zero_of_le hfull, take_zero, take_zero]
    · cases hx : x.floored.marketSession with
      | false =>
        have hsame : (step keep s x).cal.counts = s.cal.counts ∧
            (step keep s x).cal.sessions = s.cal.sessions := by
          simp only [step, if_neg hfull, hx, Bool.false_eq_true, not_false_eq_true, if_true]
          split <;> exact ⟨rfl, rfl⟩
        rw [ih (by rw [hsame.1, hsame.2]; exact h), hsame.1, hsame.2,
          filter_cons_of_neg (by rw [hx]; exact Bool.false_ne_true)]
      | true =>
        have hnext : (step keep s x).cal.counts = s.cal.counts ++ [x.floored] ∧
            (step keep s x).cal.sessions = s.cal.sessions ++ [x.floored.day] := by
          simp only [step, if_neg hfull, hx, not_true_eq_false, if_false, and_self]
        have hroom : keep - s.cal.sessions.length =
            keep - (s.cal.sessions.length + 1) + 1 := by omega
        rw [ih (by simp only [hnext.1, hnext.2, length_append, h, length_singleton]),
          hnext.1, hnext.2, filter_cons_of_pos hx, length_append, length_singleton,
          hroom, take_succ_cons, append_assoc, singleton_append]

variable (counts : List SessionCount) (keep : ℕ)

theorem counts_buildMarketCalendar : (buildMarketCalendar counts keep).counts =
    (((newestFirst counts).map SessionCount.floored).filter
      SessionCount.marketSession).take keep := by
  rw [buildMarketCalendar, Calendaring.foldl_step_counts _ (by rfl)]
  simp

theorem sessions_buildMarketCalendar : (buildMarketCalendar counts keep).sessions =
    (buildMarketCalendar counts keep).counts.map SessionCount.day :=
  Calendaring.foldl_step_sessions _ rfl

theorem marketSession_of_mem {x : SessionCount}
    (h : x ∈ (buildMarketCalendar counts keep).counts) : x.marketSession := by
  rw [counts_buildMarketCalendar] at h
  exact (mem_filter.mp (mem_of_mem_take h)).2

theorem pairwise_sessions (hdays : (counts.map (fun x ↦ dayFloor x.day)).Nodup) :
    (buildMarketCalendar counts keep).sessions.Pairwise (· > ·) := by
  have hsorted : (newestFirst counts).Pairwise (fun a b ↦ b.day ≤ a.day) := by
    have : Std.Total (fun a b : SessionCount ↦ b.day ≤ a.day) :=
      ⟨fun a b ↦ le_total b.day a.day⟩
    have : IsTrans SessionCount (fun a b ↦ b.day ≤ a.day) := ⟨fun a b c h h' ↦ h'.trans h⟩
    exact pairwise_insertionSort _ counts
  have hne : (newestFirst counts).Pairwise (fun a b ↦ dayFloor a.day ≠ dayFloor b.day) := by
    have hperm : (newestFirst counts).Perm counts := perm_insertionSort _ counts
    have hnodup : ((newestFirst counts).map (fun x ↦ dayFloor x.day)).Nodup :=
      (hperm.map _).nodup_iff.mpr hdays
    exact pairwise_map.mp hnodup
  have hstrict : (newestFirst counts).Pairwise (fun a b ↦ dayFloor a.day > dayFloor b.day) :=
    hsorted.imp₂ (fun a b hle hne ↦ lt_of_le_of_ne (dayFloor_mono hle) (Ne.symm hne)) hne
  have hfloored : ((newestFirst counts).map SessionCount.floored).Pairwise
      (fun a b ↦ a.day > b.day) := pairwise_map.mpr hstrict
  rw [sessions_buildMarketCalendar, counts_buildMarketCalendar, pairwise_map]
  exact (hfloored.filter _).sublist (take_sublist _ _)

end Sessions

section Coverage

theorem SessionCount.covered_of_marketSession {x : SessionCount} (h : x.marketSession) :
    minFlowCoverage * x.dayTraded ≤ x.covered ∧ minFlowCoverage * x.dayValue ≤ x.coveredValue := by
  obtain ⟨hfile, htraded, hshare, hvalue⟩ := of_decide_eq_true h
  rw [shareCoverage] at hshare
  rw [valueCoverage] at hvalue
  split at hshare
  · cases hshare
  split at hvalue
  · cases hvalue
  rename_i hsome hpos
  have hcount : (0 : ℚ) < x.dayTraded := Nat.cast_pos.mpr (lt_of_lt_of_le (by decide) htraded)
  have hday : 0 < x.dayValue := not_le.mp (fun h ↦ hpos (.inr h))
  exact ⟨(le_div_iff₀ hcount).mp (of_decide_eq_true hshare),
    (le_div_iff₀ hday).mp (of_decide_eq_true hvalue)⟩

theorem mul_sum_le {c : ℚ} {f g : SessionCount → ℚ} {l : List SessionCount}
    (h : ∀ x ∈ l, c * f x ≤ g x) : c * (l.map f).sum ≤ (l.map g).sum := by
  rw [← sum_map_mul_left]
  exact sum_le_sum h

theorem window_covered (counts : List SessionCount) (keep n : ℕ) :
    let held := (buildMarketCalendar counts keep).counts.take n
    minFlowCoverage * (held.map (fun x ↦ (x.dayTraded : ℚ))).sum ≤
        (held.map (fun x ↦ (x.covered : ℚ))).sum ∧
      minFlowCoverage * (held.map SessionCount.dayValue).sum ≤
        (held.map SessionCount.coveredValue).sum := by
  have hsession : ∀ x ∈ (buildMarketCalendar counts keep).counts.take n, x.marketSession :=
    fun x hx ↦ marketSession_of_mem counts keep (mem_of_mem_take hx)
  exact ⟨mul_sum_le (fun x hx ↦ (SessionCount.covered_of_marketSession (hsession x hx)).1),
    mul_sum_le (fun x hx ↦ (SessionCount.covered_of_marketSession (hsession x hx)).2)⟩

end Coverage

end TalaPala.Bourse
