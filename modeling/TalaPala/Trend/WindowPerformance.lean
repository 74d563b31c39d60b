import TalaPala.Library.Intervals
import TalaPala.Trend.Backtest

namespace TalaPala.Trend

open Library Prices List

def mean (values : List ℚ) : Option ℚ :=
  if values = [] then none else some (values.sum / values.length)

def hitRate (bullish : Bool) (values : List ℚ) : Option ℚ :=
  if values = [] then none
  else
    let hits := values.countP (fun v ↦ if bullish then 0 < v else v < 0)
    some (hits / values.length)

def episodes (states : List BarState) (target : BarState) : ℕ := entries target none states

inductive NotePart
  | replayed (basis : Basis) (maType : MaType) (fast mid slow : ℕ) (reason : BasisReason)
  | dailyShort (dailyWarmup warm : ℕ) (maType : MaType) (slow : ℕ)
  | nothingReplayed
  | measured (samples replayed : ℕ)
  | tooNew (bars : ℕ)
  | holes (bars : ℕ)
  | overlapping
  | countsAreBars

def performanceNote (choice : BasisChoice) (config : TrendConfig) (bars : List ReplayBar)
    (samples dailyWarmup : ℕ) : List NotePart :=
  let warm := warmupCandles config
  let opening := [NotePart.replayed choice.basis config.maType config.fast config.mid config.slow
    choice.reason] ++
      if dailyWarmup < warm then [.dailyShort dailyWarmup warm config.maType config.slow] else []
  match bars.getLast? with
  | none => opening ++ [.nothingReplayed]
  | some last =>
    let unmeasured := bars.filter (fun b ↦ b.forwardReturnPct.isNone)
    let pastEnd := unmeasured.countP
      (fun b ↦ last.closeTime < b.closeTime + forwardHorizonSeconds * second)
    let gaps := unmeasured.length - pastEnd
    opening ++ [.measured samples bars.length] ++
      (if pastEnd ≠ 0 then [.tooNew pastEnd] else []) ++ (if gaps ≠ 0 then [.holes gaps] else []) ++
      (if choice.basis = .fullMtf then [.overlapping] else []) ++ [.countsAreBars]

structure WindowPerformance where
  symbol : String
  windowDays : ℕ
  basis : Basis
  evaluatedFrom : Option ℤ
  evaluatedTo : Option ℤ
  samples : ℕ
  bullishEpisodes : ℕ
  bearishEpisodes : ℕ
  bullishBars : ℕ
  bearishBars : ℕ
  unalignedBars : ℕ
  fwdReturnBullishPct : Option ℚ
  fwdReturnBearishPct : Option ℚ
  fwdReturnBaselinePct : Option ℚ
  hitRateBullish : Option ℚ
  hitRateBearish : Option ℚ
  note : List NotePart
  replayedBars : ℕ

def returnsIn (bars : List ReplayBar) (state : BarState) : List ℚ :=
  (bars.filter (fun b ↦ b.state = state)).filterMap ReplayBar.forwardReturnPct

def measureWindow (symbol : String) (days : ℕ) (hourly daily : List Candle) (now : ℤ)
    (config : TrendConfig) : WindowPerformance :=
  let windowStart := now - days * 86400 * second
  let choice := (replayedWindow symbol days hourly daily now config).1
  let bars := (replayedWindow symbol days hourly daily now config).2
  let measured := bars.filterMap ReplayBar.forwardReturnPct
  let states := bars.map ReplayBar.state
  { symbol := symbol
    windowDays := days
    basis := choice.basis
    evaluatedFrom := bars.head?.map ReplayBar.closeTime
    evaluatedTo := bars.getLast?.map ReplayBar.closeTime
    samples := measured.length
    bullishEpisodes := episodes states .bullish
    bearishEpisodes := episodes states .bearish
    bullishBars := (returnsIn bars .bullish).length
    bearishBars := (returnsIn bars .bearish).length
    unalignedBars := (returnsIn bars .unaligned).length
    fwdReturnBullishPct := mean (returnsIn bars .bullish)
    fwdReturnBearishPct := mean (returnsIn bars .bearish)
    fwdReturnBaselinePct := mean measured
    hitRateBullish := hitRate true (returnsIn bars .bullish)
    hitRateBearish := hitRate false (returnsIn bars .bearish)
    note := performanceNote choice config bars measured.length
      (completed daily Timeframe.oneDay.seconds windowStart).length
    replayedBars := bars.length }

theorem mean_eq_none {values : List ℚ} : mean values = none ↔ values.length = 0 := by
  rw [mean, length_eq_zero_iff]
  split_ifs with h <;> simp [h]

theorem hitRate_eq_none {bullish : Bool} {values : List ℚ} :
    hitRate bullish values = none ↔ values.length = 0 := by
  rw [hitRate, length_eq_zero_iff]
  split_ifs with h <;> simp [h]

theorem length_mul_mean (values : List ℚ) : values.length * (mean values).getD 0 = values.sum := by
  rw [mean]
  split_ifs with h
  · simp [h]
  · have hlength : (values.length : ℚ) ≠ 0 := by
      rw [Nat.cast_ne_zero]
      exact fun hzero ↦ h (length_eq_zero_iff.mp hzero)
    rw [Option.getD_some, mul_div_cancel₀ _ hlength]

section Partition

variable (bars : List ReplayBar)

theorem returnsIn_cons (b : ReplayBar) (state : BarState) :
    returnsIn (b :: bars) state =
      (if b.state = state then b.forwardReturnPct.toList else []) ++ returnsIn bars state := by
  rw [returnsIn, filter_cons]
  split
  · rename_i h
    rw [if_pos (of_decide_eq_true h), filterMap_cons]
    cases b.forwardReturnPct <;> rfl
  · rename_i h
    rw [if_neg (fun hstate ↦ h (decide_eq_true hstate))]
    rfl

theorem measured_perm : (bars.filterMap ReplayBar.forwardReturnPct).Perm
    (returnsIn bars .bullish ++ (returnsIn bars .bearish ++ returnsIn bars .unaligned)) := by
  induction bars with
  | nil => rfl
  | cons b bars ih =>
    have hcons : (b :: bars).filterMap ReplayBar.forwardReturnPct =
        b.forwardReturnPct.toList ++ bars.filterMap ReplayBar.forwardReturnPct := by
      rw [filterMap_cons]
      cases b.forwardReturnPct <;> rfl
    rw [hcons, returnsIn_cons, returnsIn_cons, returnsIn_cons]
    refine (ih.append_left _).trans ?_
    cases hstate : b.state with
    | bullish => simp
    | bearish =>
      simp only [reduceCtorEq, if_false, if_true, nil_append, ← append_assoc]
      exact (perm_append_comm.append_right _).append_right _
    | unaligned =>
      simp only [reduceCtorEq, if_false, if_true, nil_append, ← append_assoc]
      refine List.Perm.append_right _ ?_
      rw [append_assoc]
      exact perm_append_comm

end Partition

/-- Every measured bar is in one state, and what a reported window says of the parts
adds up to what it says of the whole. -/
theorem window_statistics_add_up (symbol : String) (days : ℕ) (hourly daily : List Candle)
    (now : ℤ) (config : TrendConfig) :
    let p := measureWindow symbol days hourly daily now config
    let bars := (replayedWindow symbol days hourly daily now config).2
    (p.samples = p.bullishBars + p.bearishBars + p.unalignedBars ∧ p.samples ≤ p.replayedBars) ∧
    p.samples * p.fwdReturnBaselinePct.getD 0 =
      p.bullishBars * p.fwdReturnBullishPct.getD 0 + p.bearishBars * p.fwdReturnBearishPct.getD 0 +
        (returnsIn bars .unaligned).sum ∧
    ((p.fwdReturnBullishPct = none ↔ p.bullishBars = 0) ∧
      (p.hitRateBullish = none ↔ p.bullishBars = 0) ∧
      (p.fwdReturnBearishPct = none ↔ p.bearishBars = 0) ∧
      (p.hitRateBearish = none ↔ p.bearishBars = 0) ∧
      (p.fwdReturnBaselinePct = none ↔ p.samples = 0)) ∧
    (p.bullishEpisodes = {run : ℕ × ℕ |
        IsMaximalRun (bars.map ReplayBar.state) .bullish run.1 run.2}.ncard ∧
      p.bearishEpisodes = {run : ℕ × ℕ |
        IsMaximalRun (bars.map ReplayBar.state) .bearish run.1 run.2}.ncard) ∧
    ∀ (symbol' : String) (days' : ℕ) (hourly' daily' : List Candle) (now' : ℤ)
      (config' : TrendConfig),
      (replayedWindow symbol' days' hourly' daily' now' config').2.map ReplayBar.state =
        bars.map ReplayBar.state →
      let p' := measureWindow symbol' days' hourly' daily' now' config'
      p'.bullishEpisodes = p.bullishEpisodes ∧ p'.bearishEpisodes = p.bearishEpisodes := by
  dsimp only [measureWindow]
  have hperm := measured_perm (replayedWindow symbol days hourly daily now config).2
  generalize (replayedWindow symbol days hourly daily now config).2 = bars at hperm ⊢
  refine ⟨⟨?_, length_filterMap_le _ _⟩, ?_,
    ⟨mean_eq_none, hitRate_eq_none, mean_eq_none, hitRate_eq_none, mean_eq_none⟩,
    ⟨entries_eq_maximalRuns _ _, entries_eq_maximalRuns _ _⟩, fun _ _ _ _ _ _ hstates ↦ ?_⟩
  · have hlength := hperm.length_eq
    rwa [length_append, length_append, ← add_assoc] at hlength
  · have hsum := hperm.sum_eq
    rwa [sum_append, sum_append, ← add_assoc, ← length_mul_mean, ← length_mul_mean,
      ← length_mul_mean] at hsum
  · exact ⟨congrArg (episodes · .bullish) hstates, congrArg (episodes · .bearish) hstates⟩

end TalaPala.Trend
