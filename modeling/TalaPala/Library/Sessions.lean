import Mathlib.Algebra.Order.Ring.Int
import Mathlib.Data.List.Basic

namespace TalaPala.Library

open List

/-! Markets that open and close on a timetable, over the integers as instants. -/

/-- The closure that contains `t` began at `c`: the market is shut from `c` to `t`
and was open on an interval that ends at `c`. -/
structure ClosureStart (isOpen : ℤ → Bool) (t c : ℤ) : Prop where
  le : c ≤ t
  shut : ∀ s, c ≤ s → s ≤ t → isOpen s = false
  session : ∃ b < c, ∀ s, b ≤ s → s < c → isOpen s = true

theorem ClosureStart.shift {isOpen isOpen' : ℤ → Bool} {t c k : ℤ}
    (h : ClosureStart isOpen (t + k) (c + k)) (heq : ∀ s, isOpen' s = isOpen (s + k)) :
    ClosureStart isOpen' t c := by
  obtain ⟨b, hb, hsession⟩ := h.session
  refine ⟨by have := h.le; omega, fun s hs hst ↦ ?_, b - k, by omega, fun s hs hsc ↦ ?_⟩
  · rw [heq]
    exact h.shut (s + k) (by omega) (by omega)
  · rw [heq]
    exact hsession (s + k) (by omega) (by omega)

section Daily

/-- A session from `openAt` to `closeAt` of every day that is not off. -/
structure DailySessions where
  day : ℤ
  off : ℤ → Bool
  openAt : ℤ
  closeAt : ℤ
  day_pos : 0 < day
  open_nonneg : 0 ≤ openAt
  open_lt : openAt < closeAt
  close_le : closeAt ≤ day

variable (S : DailySessions)

def DailySessions.isOpen (t : ℤ) : Bool :=
  if S.off (t / S.day) then false
  else decide (S.openAt ≤ t % S.day) && decide (t % S.day < S.closeAt)

/-- The close of the day `i` days ago, when that day has one and it is past. -/
def DailySessions.closeBefore (t : ℤ) (i : ℕ) : Option ℤ :=
  let d := t / S.day - i
  let closeT := d * S.day + S.closeAt
  if S.off d then none else if closeT ≤ t then some closeT else none

variable {S}

theorem DailySessions.isOpen_eq_true {t : ℤ} : S.isOpen t = true ↔
    S.off (t / S.day) = false ∧ S.openAt ≤ t % S.day ∧ t % S.day < S.closeAt := by
  rw [isOpen]
  split_ifs with h
  · simp [h]
  · simp [Bool.not_eq_true _ ▸ h]

theorem DailySessions.closeBefore_eq_some {t c : ℤ} {i : ℕ} : S.closeBefore t i = some c ↔
    S.off (t / S.day - i) = false ∧ (t / S.day - i) * S.day + S.closeAt = c ∧ c ≤ t := by
  simp only [closeBefore]
  split_ifs with hoff hle
  · simp [hoff]
  · rw [Bool.not_eq_true] at hoff
    constructor
    · rintro ⟨⟩
      exact ⟨hoff, rfl, hle⟩
    · rintro ⟨-, rfl, -⟩
      rfl
  · rw [Bool.not_eq_true] at hoff
    constructor
    · rintro ⟨⟩
    · rintro ⟨-, rfl, hle'⟩
      exact absurd hle' hle

theorem DailySessions.closureStart {t c : ℤ} {i : ℕ} (hshut : S.isOpen t = false)
    (hclose : S.closeBefore t i = some c) (hlater : ∀ j < i, S.closeBefore t j = none) :
    ClosureStart S.isOpen t c := by
  obtain ⟨hwork, rfl, hle⟩ := closeBefore_eq_some.mp hclose
  have hday := S.day_pos
  have hopen := S.open_nonneg
  have hspan := S.open_lt
  have hend := S.close_le
  refine ⟨hle, fun s hs hst ↦ ?_, (t / S.day - i) * S.day + S.openAt, by omega,
    fun s hs hsc ↦ ?_⟩
  · by_contra htrade
    rw [Bool.not_eq_false, isOpen_eq_true] at htrade
    obtain ⟨hon, hfrom, huntil⟩ := htrade
    have hs_eq := Int.mul_ediv_add_emod s S.day
    have ht_eq := Int.mul_ediv_add_emod t S.day
    have hs_nonneg := Int.emod_nonneg s hday.ne'
    have ht_lt := Int.emod_lt_of_pos t hday
    have hs_le : s / S.day ≤ t / S.day := Int.ediv_le_ediv hday hst
    have hi_le : t / S.day - i ≤ s / S.day := by
      rw [Int.le_ediv_iff_mul_le hday]
      omega
    have hnone := hlater (t / S.day - s / S.day).toNat ?_
    · have hback : t / S.day - ((t / S.day - s / S.day).toNat : ℤ) = s / S.day := by omega
      have hlate : t < s / S.day * S.day + S.closeAt := by
        by_contra hpast
        have hsome := closeBefore_eq_some.mpr
          ⟨hback.symm ▸ hon, rfl, hback.symm ▸ not_lt.mp hpast⟩
        rw [hnone] at hsome
        cases hsome
      -- The session that is not over yet is today's, so `t` itself stands in it.
      have hsame : t / S.day = s / S.day := by
        refine le_antisymm (Int.lt_add_one_iff.mp ?_) hs_le
        rw [Int.ediv_lt_iff_lt_mul hday, add_mul, one_mul]
        omega
      have htrue : S.isOpen t = true := by
        rw [isOpen_eq_true, hsame]
        rw [hsame] at ht_eq
        rw [mul_comm] at hlate
        exact ⟨hon, by omega, by omega⟩
      rw [hshut] at htrue
      cases htrue
    · rcases hi_le.eq_or_lt with heq | hlt
      · rw [heq, mul_comm] at hs
        omega
      · omega
  · have hdiv : s / S.day = t / S.day - i := by
      refine le_antisymm (Int.lt_add_one_iff.mp ?_) ?_
      · rw [Int.ediv_lt_iff_lt_mul hday, add_mul, one_mul]
        omega
      · rw [Int.le_ediv_iff_mul_le hday]
        omega
    have hs_eq := Int.mul_ediv_add_emod s S.day
    rw [hdiv, mul_comm] at hs_eq
    rw [isOpen_eq_true, hdiv]
    exact ⟨hwork, by omega, by omega⟩

theorem DailySessions.closureStart_walk {n : ℕ} (hwork : ∀ d, ∃ i < n, 0 < i ∧ S.off (d - i) = false)
    {t : ℤ} (hshut : S.isOpen t = false) (default : ℤ) : ClosureStart S.isOpen t
      (((List.range n).findSome? (S.closeBefore t)).getD default) := by
  cases h : (List.range n).findSome? (S.closeBefore t) with
  | none =>
    obtain ⟨i, hi, hpos, hon⟩ := hwork (t / S.day)
    have hnone := findSome?_eq_none_iff.mp h i (mem_range.mpr hi)
    have hpast : (t / S.day - i) * S.day + S.closeAt ≤ t := by
      have ht_eq := Int.mul_ediv_add_emod t S.day
      have ht_nonneg := Int.emod_nonneg t S.day_pos.ne'
      have hback : (t / S.day - i) * S.day ≤ (t / S.day - 1) * S.day :=
        mul_le_mul_of_nonneg_right (by omega) S.day_pos.le
      have hyesterday : (t / S.day - 1) * S.day = S.day * (t / S.day) - S.day := by
        rw [sub_mul, one_mul, mul_comm]
      have hend := S.close_le
      omega
    rw [closeBefore_eq_some.mpr ⟨hon, rfl, hpast⟩] at hnone
    cases hnone
  | some c =>
    obtain ⟨front, i, back, hrange, hclose, hfront⟩ := findSome?_eq_some_iff.mp h
    refine closureStart hshut hclose (fun j hj ↦ hfront j ?_)
    have hlength : front.length = i := by
      have hget := congrArg (fun l ↦ l[front.length]?) hrange
      have hlt : front.length < n := by
        have := congrArg List.length hrange
        rw [length_range, length_append, length_cons] at this
        omega
      simpa [getElem?_append_right, getElem?_range hlt] using hget
    have htake := congrArg (List.take front.length) hrange
    rw [take_left, take_range] at htake
    rw [← htake, mem_range]
    have := congrArg List.length htake
    rw [length_range] at this
    omega

theorem DailySessions.closureStart_walk_shift {n : ℕ}
    (hwork : ∀ d, ∃ i < n, 0 < i ∧ S.off (d - i) = false) {t k : ℤ}
    (hshut : S.isOpen (t + k) = false) : ClosureStart (fun s ↦ S.isOpen (s + k)) t
      (((List.range n).findSome? (fun (i : ℕ) ↦
        let d := (t + k) / S.day - i
        let closeT := d * S.day + S.closeAt - k
        if S.off d then none else if closeT ≤ t then some closeT else none)).getD t) := by
  have hback (i : ℕ) : S.closeBefore (t + k) i =
      Option.map (· + k) (let d := (t + k) / S.day - i
        let closeT := d * S.day + S.closeAt - k
        if S.off d then none else if closeT ≤ t then some closeT else none) := by
    simp only [closeBefore, apply_ite (Option.map (· + k)), Option.map_none, Option.map_some,
      sub_add_cancel, sub_le_iff_le_add]
  have hwalk := closureStart_walk hwork hshut (t + k)
  rw [funext hback, ← Function.comp_def (Option.map _), ← map_findSome?] at hwalk
  have hgetD := Option.getD_map (· + k) t
  exact (hgetD _ ▸ hwalk).shift (fun _ ↦ rfl)

end Daily

section Periodic

/-- Open for the first `length` of every period. -/
structure PeriodicSession where
  origin : ℤ
  period : ℤ
  length : ℤ
  length_pos : 0 < length
  length_lt : length < period

variable (S : PeriodicSession)

def PeriodicSession.isOpen (t : ℤ) : Bool := decide ((t - S.origin) % S.period < S.length)

def PeriodicSession.closure (t : ℤ) : ℤ := t - (t - S.origin) % S.period + S.length

variable {S}

theorem PeriodicSession.closureStart {t : ℤ} (hshut : S.isOpen t = false) :
    ClosureStart S.isOpen t (S.closure t) := by
  have hpos := S.length_pos
  have hlt := S.length_lt
  have hmod := Int.emod_lt_of_pos (t - S.origin) (hpos.trans hlt)
  have hlate : S.length ≤ (t - S.origin) % S.period := by
    simpa [isOpen] using hshut
  -- Instants of the same period differ by what they are past its beginning.
  have hsame (s : ℤ) (hfrom : t - (t - S.origin) % S.period ≤ s)
      (huntil : s < t - (t - S.origin) % S.period + S.period) :
      (s - S.origin) % S.period = s - (t - (t - S.origin) % S.period) := by
    have hsplit : s - S.origin = s - (t - (t - S.origin) % S.period) +
        S.period * ((t - S.origin) / S.period) := by
      have := Int.emod_add_mul_ediv (t - S.origin) S.period
      omega
    rw [hsplit, Int.add_mul_emod_self_left, Int.emod_eq_of_lt (by omega) (by omega)]
  refine ⟨by rw [closure]; omega, fun s hs hst ↦ ?_,
    t - (t - S.origin) % S.period, by rw [closure]; omega, fun s hs hsc ↦ ?_⟩
  · rw [closure] at hs
    rw [isOpen, hsame s (by omega) (by omega), decide_eq_false_iff_not]
    omega
  · rw [closure] at hsc
    rw [isOpen, hsame s (by omega) (by omega), decide_eq_true_iff]
    omega

end Periodic

end TalaPala.Library
