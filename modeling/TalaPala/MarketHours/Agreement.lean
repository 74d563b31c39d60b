import TalaPala.MarketHours.Calendars

namespace TalaPala.MarketHours

open Library

theorem alwaysOpen_eq : Go.alwaysOpen = Python.alwaysOpenSymbols := rfl

theorem iranian_eq : Go.iranian = Python.iranianSymbols := rfl

theorem isTSEFund_eq : Go.isTSEFund = Python.isTseFund := rfl

section Clocks

theorem day_eq (t : ℤ) : (1000 * t) / Go.day = t / Python.day := by
  rw [Go.day, Python.day]
  omega

theorem tehran_eq (t : ℤ) : 1000 * t + Go.tehran = 1000 * (t + Python.tehran) := by
  have hgo : Go.tehran = 12600000000000 := rfl
  have hpython : Python.tehran = 12600000000 := rfl
  rw [hgo, hpython]
  omega

theorem isOffDay_eq (d : ℤ) : Go.isOffDay d = Python.isOffDay d := by
  rw [Go.isOffDay, Python.isOffDay, Go.weekday, Python.weekday, Bool.eq_iff_iff]
  simp only [Bool.or_eq_true, decide_eq_true_eq]
  omega

theorem clock_eq (l : ℤ) : Go.clockHour (1000 * l) * 60 + Go.clockMinute (1000 * l) =
    l % Python.day / Python.minute := by
  rw [Go.clockHour, Go.clockMinute, Go.day, Go.hour, Go.minute, Python.day, Python.minute]
  omega

theorem inSession_eq (l openM closeM : ℤ) : Go.inSession (1000 * l) openM closeM =
    Python.inSession l (openM * Python.minute) (closeM * Python.minute) := by
  rw [Go.inSession, Python.inSession, day_eq, isOffDay_eq, clock_eq]
  split
  · rfl
  · rw [Bool.eq_iff_iff]
    simp only [Bool.and_eq_true, decide_eq_true_eq]
    rw [Python.minute]
    omega

theorem turn_eq (t closeM : ℤ) (i : ℕ) :
    (let d := (1000 * t + Go.tehran) / Go.day - i
      let closeT := d * Go.day - Go.tehran + closeM * Go.minute
      if Go.isOffDay d then none else if closeT ≤ 1000 * t then some closeT else none) =
    Option.map (1000 * ·)
      (let d := (t + Python.tehran - i * Python.day) / Python.day
        let candidate := d * Python.day + closeM * Python.minute - Python.tehran
        if Python.isOffDay d then none else if candidate ≤ t then some candidate else none) := by
  have hd : (t + Python.tehran - i * Python.day) / Python.day =
      (1000 * t + Go.tehran) / Go.day - i := by
    rw [tehran_eq, day_eq, Int.sub_mul_ediv_right _ _ (by rw [Python.day]; decide)]
  generalize hd' : (1000 * t + Go.tehran) / Go.day - (i : ℤ) = d at hd
  have hclose : d * Go.day - Go.tehran + closeM * Go.minute =
      1000 * (d * Python.day + closeM * Python.minute - Python.tehran) := by
    rw [Go.day, Python.day, Go.minute, Python.minute, show Go.tehran = 12600000000000 from rfl,
      show Python.tehran = 12600000000 from rfl]
    omega
  simp only [hd, hclose, isOffDay_eq]
  split
  · rfl
  · simp only [Int.mul_le_mul_left (show (0 : ℤ) < 1000 by decide)]
    split <;> rfl

theorem lastClose_eq (t closeM : ℤ) :
    Go.lastClose (1000 * t) closeM = 1000 * Python.lastClose t (closeM * Python.minute) := by
  rw [Go.lastClose, Python.lastClose]
  simp only [turn_eq]
  rw [← Function.comp_def (Option.map _), ← List.map_findSome?]
  exact Option.getD_map _ _ _

theorem week_eq (t : ℤ) :
    (if Go.weekday (t / Python.day) = 5 then decide (Go.clockHour (1000 * t) < 21)
      else if Go.weekday (t / Python.day) = 6 then false
      else if Go.weekday (t / Python.day) = 0 then decide (22 ≤ Go.clockHour (1000 * t))
      else true) =
    if Python.weekday (t / Python.day) = 4 ∧ 21 * Python.hour ≤ t % Python.day then false
    else if Python.weekday (t / Python.day) = 5 then false
    else if Python.weekday (t / Python.day) = 6 ∧ t % Python.day < 22 * Python.hour then false
    else true := by
  have hclock : Go.clockHour (1000 * t) = t % Python.day / Python.hour := by
    rw [Go.clockHour, Go.day, Go.hour, Python.day, Python.hour]
    omega
  have hbefore (k : ℤ) : t % Python.day / Python.hour < k ↔ t % Python.day < k * Python.hour :=
    Int.ediv_lt_iff_lt_mul (by decide)
  have hfriday : Go.weekday (t / Python.day) = 5 ↔ Python.weekday (t / Python.day) = 4 := by
    rw [Go.weekday, Python.weekday]
    omega
  have hsaturday : Go.weekday (t / Python.day) = 6 ↔ Python.weekday (t / Python.day) = 5 := by
    rw [Go.weekday, Python.weekday]
    omega
  have hsunday : Go.weekday (t / Python.day) = 0 ↔ Python.weekday (t / Python.day) = 6 := by
    rw [Go.weekday, Python.weekday]
    omega
  simp only [hclock, hfriday, hsaturday, hsunday, ← not_lt (b := (22 : ℤ)), hbefore]
  grind

end Clocks

theorem isOpen_eq {symbol : String} (hshared : shared symbol) (t : ℤ) (open' close : HHMM)
    (stale : ℤ) : Go.isOpen symbol (1000 * t) open' close =
      Python.isMarketOpen symbol t ⟨open', close, tseOpen, tseClose, stale⟩ := by
  rw [Go.isOpen, Python.isMarketOpen]
  simp only [tehran_eq, inSession_eq, day_eq, week_eq, alwaysOpen_eq, isTSEFund_eq, iranian_eq]
  by_cases halways : Python.alwaysOpenSymbols.contains symbol
  · simp only [halways, if_true]
  by_cases hfund : Python.isTseFund symbol
  · simp only [halways, hfund, if_true, Bool.false_eq_true, if_false]
  by_cases hiranian : Python.iranianSymbols.contains symbol
  · simp only [halways, hfund, hiranian, if_true, Bool.false_eq_true, if_false]
  -- What is left of the shared calendars is the global market.
  have hglobal : Python.globalSymbols.contains symbol := by
    simpa only [shared, halways, hfund, hiranian, Bool.false_or] using hshared
  simp only [halways, hfund, hiranian, hglobal, if_true, Bool.false_eq_true, if_false]

theorem globalSymbols_of_closed {symbol : String} (hshared : shared symbol) {t : ℤ}
    {settings : Python.Settings} (hclosed : ¬Python.isMarketOpen symbol t settings)
    (hfund : ¬Python.isTseFund symbol) (hiranian : ¬Python.iranianSymbols.contains symbol) :
    Python.globalSymbols.contains symbol := by
  have halways : Python.alwaysOpenSymbols.contains symbol = false := by
    by_contra halways
    rw [Python.isMarketOpen, if_pos (by simpa using halways)] at hclosed
    exact hclosed rfl
  simpa only [shared, halways, hfund, hiranian, Bool.false_or] using hshared

theorem closureStartedAt_eq {symbol : String} (hshared : shared symbol) (t : ℤ)
    (open' close : HHMM) (stale : ℤ) : Go.closureStartedAt symbol (1000 * t) open' close =
      1000 * (Python.closureStartedAt symbol t
        ⟨open', close, tseOpen, tseClose, stale⟩).getD t := by
  rw [Go.closureStartedAt, Python.closureStartedAt, isOpen_eq hshared t open' close stale]
  simp only [lastClose_eq, isTSEFund_eq, iranian_eq]
  by_cases hopen : Python.isMarketOpen symbol t ⟨open', close, tseOpen, tseClose, stale⟩
  · simp only [hopen, if_true, Option.getD_none]
  by_cases hfund : Python.isTseFund symbol
  · simp only [hopen, hfund, if_true, Bool.false_eq_true, if_false, Option.getD_some]
  by_cases hiranian : Python.iranianSymbols.contains symbol
  · simp only [hopen, hfund, hiranian, if_true, Bool.false_eq_true, if_false, Option.getD_some]
  have hglobal := globalSymbols_of_closed hshared hopen hfund hiranian
  simp only [hopen, hfund, hiranian, hglobal, if_true, Bool.false_eq_true, if_false,
    Option.getD_some]
  have hback : (Go.weekday (1000 * t / Go.day) - 5 + 7).tmod 7 =
      (Python.weekday (t / Python.day) - 4) % 7 := by
    rw [day_eq, Go.weekday, Python.weekday, Int.tmod_eq_emod_of_nonneg (by omega)]
    omega
  generalize (Python.weekday (t / Python.day) - 4) % 7 = back at hback
  have hfriday : (1000 * t / Go.day - back) * Go.day + 21 * Go.hour =
      1000 * ((t - back * Python.day) / Python.day * Python.day + 21 * Python.hour) := by
    rw [day_eq, Int.sub_mul_ediv_right _ _ (by decide), Go.day, Go.hour, Python.day, Python.hour]
    omega
  have hweek : 7 * Go.day = 1000 * (7 * Python.day) := rfl
  simp only [hback, hfriday, hweek, Int.mul_lt_mul_left (show (0 : ℤ) < 1000 by decide)]
  split
  · rw [Int.mul_sub]
  · rfl

theorem dailyClose_eq (symbol : String) (source : Option String) :
    Go.dailyClose symbol (source.getD "") = Python.dailyCloseMaxAge symbol source := by
  rw [Go.dailyClose, Python.dailyCloseMaxAge]
  cases source with
  | none => simp [sourceTGJUHistory, sourceTSETMCCloses, Go.tgjuDailyCloses,
      Python.tgjuDailyCloses, Go.weeklyFetchCloses, Python.weeklyFetchCloses]
  | some source => simp [Go.tgjuDailyCloses, Python.tgjuDailyCloses, Go.weeklyFetchCloses,
      Python.weeklyFetchCloses]

theorem dailyCloseAgeDays_le_iff {m : ℤ} (hm : m = dailyCloseStaleDays ∨ m = weeklyFetchStaleDays)
    (observedAt t : ℤ) : Go.dailyCloseAgeDays (1000 * observedAt) (1000 * t) ≤ m ↔
      (t + Python.tehran) / Python.day - observedAt / Python.day ≤ m := by
  rw [Go.dailyCloseAgeDays, tehran_eq, day_eq, day_eq]
  generalize (t + Python.tehran) / Python.day - observedAt / Python.day = age
  have hm0 : 0 ≤ m ∧ m ≤ 10 := by
    rw [dailyCloseStaleDays, weeklyFetchStaleDays] at hm
    omega
  -- Truncation rounds up below zero, where no age is over the bound.
  have htrunc (x : ℤ) : x.tdiv Go.day ≤ m ↔ x ≤ (m + 1) * Go.day - 1 := by
    rw [Go.day]
    rcases le_total 0 x with hx | hx
    · rw [Int.tdiv_eq_ediv_of_nonneg hx]
      omega
    · have := Int.tdiv_nonneg (Int.neg_nonneg_of_nonpos hx)
        (show (0 : ℤ) ≤ 86400000000000 by decide)
      rw [Int.neg_tdiv] at this
      omega
  rw [htrunc, saturate64_le_iff (by rw [minInt64, Go.day]; omega)
    (by rw [maxInt64, Go.day]; omega), Go.day]
  omega

theorem dailyCloseMaxAge_eq {source : Option String} {m : ℤ}
    (h : Python.dailyCloseMaxAge symbol source = some m) :
    m = dailyCloseStaleDays ∨ m = weeklyFetchStaleDays := by
  rw [Python.dailyCloseMaxAge] at h
  grind

theorem closureStartedAt_eq_none_iff {symbol : String} (hshared : shared symbol) (t : ℤ)
    (settings : Python.Settings) : Python.closureStartedAt symbol t settings = none ↔
      Python.isMarketOpen symbol t settings := by
  rw [Python.closureStartedAt]
  by_cases hopen : Python.isMarketOpen symbol t settings
  · simp only [hopen, if_true]
  have hglobal := globalSymbols_of_closed hshared hopen
  grind

/-- The minutes a `time.Duration` can hold. -/
def fitsDuration (staleMinutes : ℤ) : Bool :=
  decide (-153722867 ≤ staleMinutes) && decide (staleMinutes ≤ 153722867)

theorem fitsDuration_iff (stale : ℤ) : fitsDuration stale ↔
    minInt64 < stale * Go.minute ∧ stale * Go.minute < maxInt64 := by
  rw [fitsDuration, minInt64, maxInt64, Go.minute, Bool.and_eq_true, decide_eq_true_eq,
    decide_eq_true_eq]
  omega

section Verdicts

variable {symbol : String} (hshared : shared symbol) (observedAt t : ℤ)

include hshared

theorem acceptablyFresh_of_fitsDuration {stale : ℤ} (hfits : fitsDuration stale)
    (source : Option String) (open' close : HHMM) :
    Go.acceptablyFreshFrom symbol (source.getD "") (1000 * observedAt) (1000 * t) stale open'
        close =
      Python.isAcceptablyFresh symbol observedAt t ⟨open', close, tseOpen, tseClose, stale⟩
        source := by
  obtain ⟨hmin, hmax⟩ := (fitsDuration_iff stale).1 hfits
  have hneg : wrap64 (-(stale * Go.minute)) = -(stale * Go.minute) := by
    rw [minInt64] at hmin
    rw [maxInt64] at hmax
    apply wrap64_of_mem
    · rw [minInt64]
      omega
    · rw [maxInt64]
      omega
  rw [Go.acceptablyFreshFrom, Python.isAcceptablyFresh, dailyClose_eq]
  cases hage : Python.dailyCloseMaxAge symbol source with
  | some m => exact decide_eq_decide.2 (dailyCloseAgeDays_le_iff (dailyCloseMaxAge_eq hage) _ _)
  | none =>
    have hminute : Go.minute = 1000 * Python.minute := rfl
    simp only [wrap64_of_mem hmin.le hmax.le, hneg, isOpen_eq hshared t open' close stale,
      closureStartedAt_eq hshared t open' close stale]
    cases hclosure : Python.closureStartedAt symbol t
        ⟨open', close, tseOpen, tseClose, stale⟩ with
    | none =>
      rw [if_pos ((closureStartedAt_eq_none_iff hshared t _).1 hclosure), decide_eq_decide,
        saturate64_le_iff hmin.le hmax, hminute, Python.minute]
      omega
    | some start =>
      have hclosed : ¬Python.isMarketOpen symbol t
          ⟨open', close, tseOpen, tseClose, stale⟩ := by
        rw [← closureStartedAt_eq_none_iff hshared t, hclosure]
        exact Option.some_ne_none start
      rw [if_neg hclosed, decide_eq_decide, Option.getD_some, hminute, Python.minute]
      omega

end Verdicts

section Overflow

/-! Melted gold trades around the clock and its rows are no daily closes, so its
verdict is the age against the stale minutes alone. -/

theorem go_gold (observedAt t stale : ℤ) (open' close : HHMM) :
    Go.acceptablyFreshFrom "IR_GOLD_18K" "" observedAt t stale open' close =
      decide (saturate64 (t - observedAt) ≤ wrap64 (stale * Go.minute)) := by
  have hdaily : Go.dailyClose "IR_GOLD_18K" "" = none := by decide
  have hopen : Go.isOpen "IR_GOLD_18K" t open' close := by
    rw [Go.isOpen, if_pos (by decide)]
  rw [Go.acceptablyFreshFrom, hdaily]
  exact if_pos hopen

theorem python_gold (observedAt t : ℤ) (settings : Python.Settings) :
    Python.isAcceptablyFresh "IR_GOLD_18K" observedAt t settings none =
      decide (t - observedAt ≤ settings.staleMinutes * Python.minute) := by
  have hdaily : Python.dailyCloseMaxAge "IR_GOLD_18K" none = none := by decide
  have hclosure : Python.closureStartedAt "IR_GOLD_18K" t settings = none := by
    rw [Python.closureStartedAt, if_pos]
    rw [Python.isMarketOpen, if_pos (by decide)]
  rw [Python.isAcceptablyFresh, hdaily, hclosure]

theorem gold_disagrees_of_long {stale : ℤ} (h : 153722867 < stale) (open' close : HHMM) :
    Go.acceptablyFreshFrom "IR_GOLD_18K" "" 0 (1000 * 9223372036854776) stale open' close ≠
      Python.isAcceptablyFresh "IR_GOLD_18K" 0 9223372036854776
        ⟨open', close, tseOpen, tseClose, stale⟩ none := by
  have hsat : saturate64 (1000 * 9223372036854776 - 0) = maxInt64 := by decide
  have heven := wrap64_emod_two (stale * Go.minute)
  have hrange := (wrap64_range (stale * Go.minute)).2
  rw [go_gold, python_gold, hsat, ne_eq, decide_eq_decide, Python.minute]
  rw [maxInt64, Go.minute] at *
  dsimp only
  omega

theorem gold_disagrees_of_short {stale : ℤ} (h : stale < -153722867) (open' close : HHMM) :
    Go.acceptablyFreshFrom "IR_GOLD_18K" "" 0 (1000 * -9223372036854776) stale open' close ≠
      Python.isAcceptablyFresh "IR_GOLD_18K" 0 (-9223372036854776)
        ⟨open', close, tseOpen, tseClose, stale⟩ none := by
  have hsat : saturate64 (1000 * -9223372036854776 - 0) = minInt64 := by decide
  have hrange := (wrap64_range (stale * Go.minute)).1
  rw [go_gold, python_gold, hsat, ne_eq, decide_eq_decide, Python.minute]
  dsimp only
  omega

end Overflow

theorem verdicts_agree_iff (staleMinutes : ℤ) :
    (∀ symbol, shared symbol → ∀ (observedAt t : ℤ) (source : Option String) (open' close : HHMM),
      open'.minutes < close.minutes →
      Go.acceptablyFreshFrom symbol (source.getD "") (1000 * observedAt) (1000 * t) staleMinutes
          open' close =
        Python.isAcceptablyFresh symbol observedAt t
          ⟨open', close, tseOpen, tseClose, staleMinutes⟩ source ∧
      Go.isOpen symbol (1000 * t) open' close =
        Python.isMarketOpen symbol t ⟨open', close, tseOpen, tseClose, staleMinutes⟩) ↔
    -153722867 ≤ staleMinutes ∧ staleMinutes ≤ 153722867 := by
  have hfits : fitsDuration staleMinutes ↔
      -153722867 ≤ staleMinutes ∧ staleMinutes ≤ 153722867 := by
    rw [fitsDuration, Bool.and_eq_true, decide_eq_true_eq, decide_eq_true_eq]
  rw [← hfits]
  constructor
  · intro h
    have hgold (t : ℤ) := (h "IR_GOLD_18K" (by decide) 0 t none tseOpen tseClose (by decide)).1
    rw [hfits]
    constructor
    · by_contra hshort
      exact gold_disagrees_of_short (not_le.1 hshort) tseOpen tseClose (hgold _)
    · by_contra hlong
      exact gold_disagrees_of_long (not_le.1 hlong) tseOpen tseClose (hgold _)
  · intro hfits symbol hshared observedAt t source open' close _
    exact ⟨acceptablyFresh_of_fitsDuration hshared observedAt t hfits source open' close,
      isOpen_eq hshared t open' close staleMinutes⟩

/-- A row of this very instant, with the least minutes too long for a duration. -/
theorem long_stale_minutes_disagree :
    shared "IR_GOLD_18K" ∧ tseOpen.minutes < tseClose.minutes ∧
      Python.isAcceptablyFresh "IR_GOLD_18K" 0 0
        ⟨tseOpen, tseClose, tseOpen, tseClose, 153722868⟩ none ∧
      ¬Go.acceptablyFreshFrom "IR_GOLD_18K" "" 0 0 153722868 tseOpen tseClose := by
  decide

end TalaPala.MarketHours
