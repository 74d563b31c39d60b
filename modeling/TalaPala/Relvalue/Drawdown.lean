import TalaPala.Relvalue.Statistics
import Mathlib.Algebra.Order.Field.Basic
import Mathlib.Tactic.Linarith

namespace TalaPala.Relvalue

open Library List

structure PeakScan where
  peak : Option ℚ
  worst : ℚ

def PeakScan.step (scan : PeakScan) (p : DailyPoint) : PeakScan :=
  let peak := scan.peak.elim p.close (fun peak ↦ if peak < p.close then p.close else peak)
  if peak ≤ 0 then { scan with peak := some peak }
  else
    let d := (p.close / peak - 1) * 100
    { peak := some peak
      worst := if d < scan.worst then d else scan.worst }

def maxDrawdownPct (s : DailySeries) : Option ℚ :=
  if s.points.length < 2 then none
  else
    let scan := s.points.foldl PeakScan.step ⟨none, 0⟩
    scan.peak.map (fun _ ↦ scan.worst)

def falls (points : List DailyPoint) : Set ℚ :=
  {d | ∃ p ∈ points, ∃ q ∈ points, p.day < q.day ∧ d = 100 * (q.close / p.close - 1)}

structure Episode (points : List DailyPoint) (peak trough : DailyPoint) : Prop where
  peak_mem : peak ∈ points
  trough_mem : trough ∈ points
  before : peak.day < trough.day
  highest : ∀ p ∈ points, p.day < trough.day → p.close ≤ peak.close

structure DrawdownScan.Passed (done : List DailyPoint) (scan : DrawdownScan) : Prop where
  peak : ∃ p ∈ done, scan.peak = some p ∧ ∀ q ∈ done, q.close ≤ p.close
  least : IsLeast (insert 0 (falls done)) scan.worst
  episode : ∀ fall ∈ scan.fall, fall.pct < 0 ∧ ∃ peak trough, Episode done peak trough ∧
    fall = ⟨100 * (trough.close / peak.close - 1), peak.day, trough.day⟩

section Scan

variable {done : List DailyPoint} {scan : DrawdownScan} {p : DailyPoint}

theorem fall_mono {a b q : ℚ} (ha : 0 < a) (hab : a ≤ b) (hq : 0 < q) :
    100 * (q / b - 1) ≤ 100 * (q / a - 1) := by
  have hdiv : q / b ≤ q / a := div_le_div_of_nonneg_left hq.le ha hab
  linarith

theorem falls_concat (hlater : ∀ q ∈ done, q.day < p.day) :
    falls (done ++ [p]) =
      falls done ∪ {d | ∃ q ∈ done, d = 100 * (p.close / q.close - 1)} := by
  ext d
  constructor
  · rintro ⟨a, ha, b, hb, hab, rfl⟩
    rcases mem_append.mp hb with hb | hb
    · rcases mem_append.mp ha with ha | ha
      · exact .inl ⟨a, ha, b, hb, hab, rfl⟩
      · rw [mem_singleton.mp ha] at hab
        exact absurd hab (hlater b hb).asymm
    · rw [mem_singleton] at hb
      subst hb
      rcases mem_append.mp ha with ha | ha
      · exact .inr ⟨a, ha, rfl⟩
      · rw [mem_singleton.mp ha] at hab
        exact absurd hab (lt_irrefl _)
  · rintro (⟨a, ha, b, hb, hab, rfl⟩ | ⟨a, ha, rfl⟩)
    · exact ⟨a, mem_append_left _ ha, b, mem_append_left _ hb, hab, rfl⟩
    · exact ⟨a, mem_append_left _ ha, p, mem_append_right _ (mem_singleton_self _),
        hlater a ha, rfl⟩

theorem DrawdownScan.passed_first (hpos : 0 < p.close) :
    (DrawdownScan.step ⟨none, none⟩ p).Passed [p] := by
  have hone : p.close / p.close - 1 = 0 := by rw [div_self hpos.ne', sub_self]
  have hstep : DrawdownScan.step ⟨none, none⟩ p = ⟨some p, none⟩ := by
    rw [DrawdownScan.step, if_neg (not_le.mpr hpos)]
    simp [DrawdownScan.worst, hone]
  rw [hstep]
  refine ⟨⟨p, mem_singleton_self p, rfl, fun q hq ↦ ?_⟩, ⟨Set.mem_insert _ _, ?_⟩,
    fun fall h ↦ nomatch h⟩
  · rw [mem_singleton.mp hq]
  · rintro d (rfl | ⟨a, ha, b, hb, hab, -⟩)
    · exact le_rfl
    · rw [mem_singleton.mp ha, mem_singleton.mp hb] at hab
      exact absurd hab (lt_irrefl _)

theorem Episode.concat {peak trough : DailyPoint} (h : Episode done peak trough)
    (hlater : ∀ q ∈ done, q.day < p.day) : Episode (done ++ [p]) peak trough where
  peak_mem := mem_append_left _ h.peak_mem
  trough_mem := mem_append_left _ h.trough_mem
  before := h.before
  highest q hq hday := by
    rcases mem_append.mp hq with hq | hq
    · exact h.highest q hq hday
    · rw [mem_singleton.mp hq] at hday
      exact absurd hday (hlater trough h.trough_mem).asymm

theorem least_concat {worst : ℚ} {peak : DailyPoint} (hpeak : peak ∈ done)
    (hmax : ∀ q ∈ done, q.close ≤ peak.close) (hpos : ∀ q ∈ done, 0 < q.close)
    (hp : 0 < p.close) (hlater : ∀ q ∈ done, q.day < p.day)
    (hleast : IsLeast (insert 0 (falls done)) worst) :
    IsLeast (insert 0 (falls (done ++ [p])))
      (min worst (100 * (p.close / peak.close - 1))) := by
  rw [falls_concat hlater]
  constructor
  · rcases min_choice worst (100 * (p.close / peak.close - 1)) with h | h
    · rw [h]
      exact hleast.1.imp id (fun hfall ↦ .inl hfall)
    · rw [h]
      exact .inr (.inr ⟨peak, hpeak, rfl⟩)
  · rintro d (rfl | hd | ⟨q, hq, rfl⟩)
    · exact (min_le_left _ _).trans (hleast.2 (Set.mem_insert _ _))
    · exact (min_le_left _ _).trans (hleast.2 (Set.mem_insert_of_mem _ hd))
    · exact (min_le_right _ _).trans (fall_mono (hpos q hq) (hmax q hq) hp)

theorem DrawdownScan.Passed.step (h : scan.Passed done) (hpos : ∀ q ∈ done, 0 < q.close)
    (hp : 0 < p.close) (hlater : ∀ q ∈ done, q.day < p.day) :
    (scan.step p).Passed (done ++ [p]) := by
  obtain ⟨peak, hpeak, heq, hmax⟩ := h.peak
  have hworst : scan.worst ≤ 0 := h.least.2 (Set.mem_insert _ _)
  have hleast := least_concat hpeak hmax hpos hp hlater h.least
  have hkept : ∀ fall ∈ scan.fall, fall.pct < 0 ∧ ∃ peak trough,
      Episode (done ++ [p]) peak trough ∧
        fall = ⟨100 * (trough.close / peak.close - 1), peak.day, trough.day⟩ := by
    intro fall hfall
    obtain ⟨hneg, a, b, hab, rfl⟩ := h.episode fall hfall
    exact ⟨hneg, a, b, hab.concat hlater, rfl⟩
  have hpeakpos := hpos peak hpeak
  rw [DrawdownScan.step, if_neg (not_le.mpr hp), heq]
  dsimp only [Option.elim_some]
  by_cases hrise : peak.close < p.close
  · -- At a new highest close there is no fall to it.
    have hone : p.close / p.close - 1 = 0 := by rw [div_self hp.ne', sub_self]
    have hup : 0 ≤ 100 * (p.close / peak.close - 1) := by
      have hratio : 1 ≤ p.close / peak.close := (one_le_div hpeakpos).mpr hrise.le
      linarith
    rw [if_pos hrise, hone, zero_mul, if_neg (not_lt.mpr hworst)]
    rw [min_eq_left (hworst.trans hup)] at hleast
    refine ⟨⟨p, mem_append_right _ (mem_singleton_self _), rfl, fun q hq ↦ ?_⟩, hleast, hkept⟩
    rcases mem_append.mp hq with hq | hq
    · exact (hmax q hq).trans hrise.le
    · rw [mem_singleton.mp hq]
  · have hstill : ∀ q ∈ done ++ [p], q.close ≤ peak.close := by
      intro q hq
      rcases mem_append.mp hq with hq | hq
      · exact hmax q hq
      · rw [mem_singleton.mp hq]
        exact not_lt.mp hrise
    rw [if_neg hrise, mul_comm]
    by_cases hdeep : 100 * (p.close / peak.close - 1) < scan.worst
    · rw [if_pos hdeep]
      rw [min_eq_right hdeep.le] at hleast
      refine ⟨⟨peak, mem_append_left _ hpeak, rfl, hstill⟩, hleast, fun fall hfall ↦ ?_⟩
      cases hfall
      exact ⟨hdeep.trans_le hworst, peak, p,
        ⟨mem_append_left _ hpeak, mem_append_right _ (mem_singleton_self _),
          hlater peak hpeak, fun q hq _ ↦ hstill q hq⟩, rfl⟩
    · rw [if_neg hdeep]
      rw [min_eq_left (not_lt.mp hdeep)] at hleast
      exact ⟨⟨peak, mem_append_left _ hpeak, rfl, hstill⟩, hleast, hkept⟩

theorem DrawdownScan.Passed.run {rest : List DailyPoint} (h : scan.Passed done)
    (hasc : AscendingBy DailyPoint.day (done ++ rest))
    (hpos : ∀ q ∈ done ++ rest, 0 < q.close) :
    (rest.foldl DrawdownScan.step scan).Passed (done ++ rest) := by
  induction rest generalizing done scan with
  | nil => simpa using h
  | cons p rest ih =>
    have hlater : ∀ q ∈ done, q.day < p.day := fun q hq ↦
      (pairwise_append.mp hasc).2.2 q hq p mem_cons_self
    have hstep := h.step (fun q hq ↦ hpos q (mem_append_left _ hq))
      (hpos p (mem_append_right _ mem_cons_self)) hlater
    rw [append_cons] at hasc hpos ⊢
    exact ih hstep hasc hpos

theorem passed_all {first : DailyPoint} {rest : List DailyPoint}
    (hasc : AscendingBy DailyPoint.day (first :: rest))
    (hpos : ∀ q ∈ first :: rest, 0 < q.close) :
    ((first :: rest).foldl DrawdownScan.step ⟨none, none⟩).Passed (first :: rest) :=
  (DrawdownScan.passed_first (hpos first mem_cons_self)).run hasc hpos

theorem step_worst (scan : DrawdownScan) (hp : 0 < p.close) :
    (scan.step p).worst =
      let peak := scan.peak.elim p (fun peak ↦ if peak.close < p.close then p else peak)
      let d := (p.close / peak.close - 1) * 100
      if d < scan.worst then d else scan.worst := by
  rw [DrawdownScan.step, if_neg (not_le.mpr hp)]
  dsimp only
  rw [DrawdownScan.worst, apply_ite (Option.elim · 0 Fall.pct), Option.elim_some]
  rfl

theorem PeakScan.step_of_pos (scan : PeakScan) {peak : ℚ} (hpos : 0 < peak)
    (hpeak : peak = scan.peak.elim p.close
      (fun peak ↦ if peak < p.close then p.close else peak)) :
    PeakScan.step scan p = ⟨some peak, if (p.close / peak - 1) * 100 < scan.worst then
      (p.close / peak - 1) * 100 else scan.worst⟩ := by
  subst hpeak
  rw [PeakScan.step, if_neg (not_le.mpr hpos)]

theorem foldl_peakScan (points : List DailyPoint) (hpos : ∀ q ∈ points, 0 < q.close)
    (scan : DrawdownScan) (hscan : ∀ q ∈ scan.peak, 0 < q.close) :
    points.foldl PeakScan.step ⟨scan.peak.map DailyPoint.close, scan.worst⟩ =
      ⟨(points.foldl DrawdownScan.step scan).peak.map DailyPoint.close,
        (points.foldl DrawdownScan.step scan).worst⟩ := by
  induction points generalizing scan with
  | nil => rfl
  | cons p rest ih =>
    have hp := hpos p mem_cons_self
    have hpeak : ∀ q ∈ (scan.step p).peak, 0 < q.close := by
      rw [DrawdownScan.step, if_neg (not_le.mpr hp)]
      rintro q ⟨⟩
      cases hsome : scan.peak with
      | none => exact hp
      | some peak =>
        rw [Option.elim_some]
        split
        · exact hp
        · exact hscan peak hsome
    have hstep : PeakScan.step ⟨scan.peak.map DailyPoint.close, scan.worst⟩ p =
        ⟨(scan.step p).peak.map DailyPoint.close, (scan.step p).worst⟩ := by
      rw [step_worst scan hp, DrawdownScan.step, if_neg (not_le.mpr hp)]
      cases hsome : scan.peak with
      | none => exact PeakScan.step_of_pos _ hp rfl
      | some peak =>
        have hclose : (if peak.close < p.close then p.close else peak.close) =
            (if peak.close < p.close then p else peak).close := by split <;> rfl
        have hhigh : 0 < (if peak.close < p.close then p else peak).close := by
          split
          · exact hp
          · exact hscan peak hsome
        exact PeakScan.step_of_pos _ hhigh hclose.symm
    rw [foldl_cons, foldl_cons, hstep]
    exact ih (fun q hq ↦ hpos q (mem_cons_of_mem _ hq)) _ hpeak

end Scan

section Result

variable {points : List DailyPoint}

theorem foldl_max_le_iff (a x : ℚ) :
    points.foldl (fun peak p ↦ max peak p.close) a ≤ x ↔ a ≤ x ∧ ∀ p ∈ points, p.close ≤ x := by
  induction points generalizing a with
  | nil => simp
  | cons p rest ih => rw [foldl_cons, ih, max_le_iff, forall_mem_cons, and_assoc]

theorem currentPct_eq_zero {first last : DailyPoint} (hfirst : first ∈ points)
    (hlast : last ∈ points) (hpos : ∀ p ∈ points, 0 < p.close) (fall : Fall) :
    (drawdownOf points first last fall).currentPct = some 0 ↔
      ∀ p ∈ points, p.close ≤ last.close := by
  set runPeak := points.foldl (fun peak p ↦ max peak p.close) first.close with hrun
  have hup : first.close ≤ runPeak ∧ ∀ p ∈ points, p.close ≤ runPeak :=
    (foldl_max_le_iff _ _).mp le_rfl
  have hrunpos : 0 < runPeak := (hpos first hfirst).trans_le hup.1
  have hcurrent : (drawdownOf points first last fall).currentPct =
      some ((last.close / runPeak - 1) * 100) := by
    rw [drawdownOf, ← hrun, if_pos hrunpos]
    split <;> rfl
  have hhigh : runPeak ≤ last.close ↔ ∀ p ∈ points, p.close ≤ last.close := by
    rw [hrun, foldl_max_le_iff]
    exact ⟨And.right, fun h ↦ ⟨h first hfirst, h⟩⟩
  rw [hcurrent, ← hhigh, Option.some.injEq]
  constructor
  · intro h
    have hone : last.close / runPeak = 1 := by linarith
    exact ((div_eq_one_iff_eq hrunpos.ne').mp hone).ge
  · intro h
    rw [le_antisymm (hup.2 last hlast) h, div_self hrunpos.ne', sub_self, zero_mul]

theorem drawdownOf_dates (first last : DailyPoint) {peak trough : DailyPoint} {worst : ℚ}
    (hasc : AscendingBy DailyPoint.day points) (h : Episode points peak trough) :
    let result := drawdownOf points first last ⟨worst, peak.day, trough.day⟩
    let regained := {d | ∃ p ∈ points, p.day = d ∧ trough.day < d ∧ peak.close ≤ p.close}
    result.maxPct = some worst ∧ result.peakDate = some peak.day ∧
      result.troughDate = some trough.day ∧
      (∀ d, result.recoveredDate = some d ↔ IsLeast regained d) ∧
      (result.stillUnderwater = true ↔ regained = ∅) ∧
      result.recoveryDays = result.recoveredDate.map (· - trough.day) ∧
      result.underwaterDays = some (result.recoveredDate.getD last.day - peak.day) := by
  dsimp only
  have hpeak : ((points.find? (fun p ↦ p.day = peak.day)).map DailyPoint.close).getD 0 =
      peak.close := by
    rw [hasc.find?_key h.peak_mem, Option.map_some, Option.getD_some]
  have hmem (d : Date) (p : DailyPoint) : (p.day = d ∧ decide (trough.day < p.day ∧
      peak.close ≤ p.close) = true) ↔ p.day = d ∧ trough.day < d ∧ peak.close ≤ p.close := by
    rw [decide_eq_true_eq]
    exact and_congr_right (fun hd ↦ by rw [hd])
  rw [drawdownOf]
  dsimp only
  rw [hpeak]
  split
  · rename_i p hfind
    have hleast := hasc.isLeast_find? hfind
    simp only [hmem] at hleast
    refine ⟨rfl, rfl, rfl, fun d ↦ ?_, ?_, rfl, rfl⟩
    · rw [Option.some.injEq]
      exact ⟨fun hd ↦ hd ▸ hleast, fun hd ↦ hleast.unique hd⟩
    · exact ⟨fun hfalse ↦ absurd hfalse Bool.false_ne_true,
        fun hempty ↦ absurd hleast.1 (hempty ▸ Set.notMem_empty _)⟩
  · rename_i hfind
    have hnone (d : Date) (hd : ∃ p ∈ points, p.day = d ∧ trough.day < d ∧
        peak.close ≤ p.close) : False := by
      obtain ⟨p, hp, rfl, hregained⟩ := hd
      exact find?_eq_none.mp hfind p hp (decide_eq_true hregained)
    refine ⟨rfl, rfl, rfl, fun d ↦ ⟨fun hd ↦ (nomatch hd), fun hd ↦ ?_⟩, ?_, rfl, rfl⟩
    · exact (hnone d hd.1).elim
    · exact ⟨fun _ ↦ Set.eq_empty_of_forall_notMem (fun d hd ↦ hnone d hd), fun _ ↦ rfl⟩

theorem computeDrawdown_of_peak {first second top : DailyPoint} {rest : List DailyPoint}
    (hasc : AscendingBy DailyPoint.day (first :: second :: rest))
    (hpeak : ((first :: second :: rest).foldl DrawdownScan.step ⟨none, none⟩).peak = some top) :
    computeDrawdown ⟨first :: second :: rest, hasc⟩ =
      ((first :: second :: rest).foldl DrawdownScan.step ⟨none, none⟩).fall.elim
        { maxPct := some 0, currentPct := some 0, note := .neverBelow }
        (drawdownOf (first :: second :: rest) first
          ((second :: rest).getLast (cons_ne_nil _ _))) := by
  rw [computeDrawdown]
  dsimp only
  rw [hpeak]
  cases ((first :: second :: rest).foldl DrawdownScan.step ⟨none, none⟩).fall <;> rfl

theorem le_last_of_no_fall {last : DailyPoint} (hlast : last ∈ points)
    (hlatest : ∀ p ∈ points, p.day < last.day ∨ p = last) (hpos : ∀ p ∈ points, 0 < p.close)
    (hleast : IsLeast (insert 0 (falls points)) 0) {p : DailyPoint} (hp : p ∈ points) :
    p.close ≤ last.close := by
  rcases hlatest p hp with hday | rfl
  · have hfall : 0 ≤ 100 * (last.close / p.close - 1) :=
      hleast.2 (Set.mem_insert_of_mem _ ⟨p, hp, last, hlast, hday, rfl⟩)
    exact (one_le_div (hpos p hp)).mp (by linarith)
  · exact le_rfl

end Result

/-- The drawdown is the deepest fall of the series, and the dates beside it are those of
one such fall, of its peak and of its recovery. -/
theorem computeDrawdown_story {s : DailySeries} (hlen : 2 ≤ s.points.length)
    (hpos : ∀ p ∈ s.points, 0 < p.close) :
    ∃ worst last, s.last = some last ∧ (computeDrawdown s).maxPct = some worst ∧
      maxDrawdownPct s = some worst ∧ IsLeast (insert 0 (falls s.points)) worst ∧
      ((computeDrawdown s).currentPct = some 0 ↔ ∀ p ∈ s.points, p.close ≤ last.close) ∧
      (worst < 0 → ∃ peak ∈ s.points, ∃ trough ∈ s.points,
        (computeDrawdown s).peakDate = some peak.day ∧
        (computeDrawdown s).troughDate = some trough.day ∧
        peak.day < trough.day ∧ worst = 100 * (trough.close / peak.close - 1) ∧
        (∀ p ∈ s.points, peak.day < p.day → p.day < trough.day →
          p.close ≤ peak.close ∧ worst ≤ 100 * (p.close / peak.close - 1)) ∧
        (∀ d, (computeDrawdown s).recoveredDate = some d ↔
          IsLeast {d | ∃ p ∈ s.points, p.day = d ∧ trough.day < d ∧ peak.close ≤ p.close} d) ∧
        ((computeDrawdown s).stillUnderwater = true ↔
          {d | ∃ p ∈ s.points, p.day = d ∧ trough.day < d ∧ peak.close ≤ p.close} = ∅) ∧
        (computeDrawdown s).recoveryDays =
          (computeDrawdown s).recoveredDate.map (· - trough.day) ∧
        (computeDrawdown s).underwaterDays =
          some ((computeDrawdown s).recoveredDate.getD last.day - peak.day)) := by
  obtain ⟨points, hasc⟩ := s
  match points with
  | first :: second :: rest =>
    dsimp only at hpos ⊢
    set points := first :: second :: rest with hpoints
    have hpassed := passed_all hasc hpos
    have hpeaks : points.foldl PeakScan.step ⟨none, 0⟩ = _ :=
      foldl_peakScan points hpos ⟨none, none⟩ (fun q hq ↦ nomatch hq)
    set scan := points.foldl DrawdownScan.step ⟨none, none⟩ with hscan
    obtain ⟨top, htop, hpeak, hmax⟩ := hpassed.peak
    have hlast : (second :: rest).getLast (cons_ne_nil _ _) ∈ points :=
      mem_cons_of_mem _ (getLast_mem _)
    have hmaxPct : maxDrawdownPct ⟨points, hasc⟩ = some scan.worst := by
      have hshort : ¬ points.length < 2 := not_lt.mpr hlen
      rw [maxDrawdownPct, if_neg hshort]
      dsimp only
      rw [hpeaks, hpeak]
      rfl
    have hresult := computeDrawdown_of_peak hasc hpeak
    set last := (second :: rest).getLast (cons_ne_nil _ _) with hlastdef
    have hgetLast : points.getLast? = some last := by
      rw [getLast?_eq_some_getLast (cons_ne_nil _ _)]
      rfl
    refine ⟨scan.worst, last, hgetLast, ?_⟩
    cases hfall : scan.fall with
    | none =>
      have hworst : scan.worst = 0 := by rw [DrawdownScan.worst, hfall, Option.elim_none]
      have hleast := hpassed.least
      rw [hworst] at hleast hmaxPct ⊢
      rw [← hscan, hfall, Option.elim_none] at hresult
      rw [hresult]
      refine ⟨rfl, hmaxPct, hleast, ⟨fun _ p hp ↦ ?_, fun _ ↦ rfl⟩, fun h ↦ absurd h (lt_irrefl _)⟩
      exact le_last_of_no_fall hlast (fun q hq ↦ hasc.lt_or_eq_last hgetLast hq) hpos hleast hp
    | some fall =>
      obtain ⟨-, peak, trough, hepisode, rfl⟩ := hpassed.episode fall hfall
      have hworst : scan.worst = 100 * (trough.close / peak.close - 1) := by
        rw [DrawdownScan.worst, hfall, Option.elim_some]
      have hleast := hpassed.least
      rw [hworst] at hleast hmaxPct ⊢
      rw [← hscan, hfall, Option.elim_some] at hresult
      rw [hresult]
      obtain ⟨hmaxp, hpeakDate, htroughDate, hrecovered, hunder, hdays, hwater⟩ :=
        drawdownOf_dates first last hasc hepisode
      refine ⟨hmaxp, hmaxPct, hleast, currentPct_eq_zero mem_cons_self hlast hpos _,
        fun _ ↦ ⟨peak, hepisode.peak_mem, trough, hepisode.trough_mem, hpeakDate, htroughDate,
          hepisode.before, rfl, fun p hp hafter hbefore ↦ ⟨hepisode.highest p hp hbefore, ?_⟩,
          hrecovered, hunder, hdays, hwater⟩⟩
      exact hleast.2 (Set.mem_insert_of_mem _ ⟨peak, hepisode.peak_mem, p, hp, hafter, rfl⟩)

def dipPoints : List DailyPoint := [⟨0, 10⟩, ⟨1, 12⟩, ⟨2, 12⟩, ⟨4, 6⟩, ⟨5, 9⟩, ⟨9, 12⟩]

theorem dipPoints_ascending : AscendingBy DailyPoint.day dipPoints := by
  unfold AscendingBy
  decide

def dip : DailySeries where
  points := dipPoints
  ascending := dipPoints_ascending

theorem computeDrawdown_story_dip :
    (computeDrawdown dip).peakDate = some 1 ∧ (computeDrawdown dip).underwaterDays = some 8 ∧
      IsLeast (insert 0 (falls dip.points)) (-50) := by
  have hpos : ∀ p ∈ dip.points, 0 < p.close := by decide
  have hlen : 2 ≤ dip.points.length := by decide
  obtain ⟨worst, last, -, hmaxPct, -, hleast, -⟩ := computeDrawdown_story hlen hpos
  have hfifty : (computeDrawdown dip).maxPct = some (-50) := by decide +kernel
  obtain rfl : worst = -50 := Option.some.inj (hmaxPct.symm.trans hfifty)
  exact ⟨by decide +kernel, by decide +kernel, hleast⟩

end TalaPala.Relvalue
