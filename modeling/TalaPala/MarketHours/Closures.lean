import TalaPala.MarketHours.Agreement
import TalaPala.Library.Sessions

namespace TalaPala.MarketHours

open Library

theorem HHMM.minutes_lt (t : HHMM) : t.minutes < 1440 := by
  have hhour := t.hour_lt
  have hminute := t.minute_lt
  rw [minutes]
  omega

theorem HHMM.minutes_nonneg (t : HHMM) : 0 ≤ t.minutes := by
  rw [minutes]
  omega

namespace Go

theorem day_pos : 0 < day := by decide

theorem minute_pos : 0 < minute := by decide

theorem close_le_day (t : HHMM) : t.minutes * minute ≤ day := by
  have hminutes := t.minutes_lt
  rw [day, minute]
  omega

def tehranSessions (open' close : HHMM) (h : open'.minutes < close.minutes) : DailySessions where
  day := day
  off := isOffDay
  openAt := open'.minutes * minute
  closeAt := close.minutes * minute
  day_pos := day_pos
  open_nonneg := mul_nonneg open'.minutes_nonneg minute_pos.le
  open_lt := Int.mul_lt_mul_of_pos_right h minute_pos
  close_le := close_le_day close

theorem exists_workday (d : ℤ) : ∃ i < 9, 0 < i ∧ isOffDay (d - (i : ℕ)) = false := by
  have hworks (e : ℤ) : isOffDay e = false ↔ (e + 4) % 7 ≠ 4 ∧ (e + 4) % 7 ≠ 5 := by
    rw [isOffDay, weekday, Bool.or_eq_false_iff, decide_eq_false_iff_not, decide_eq_false_iff_not]
  by_cases h : isOffDay (d - (1 : ℕ)) = false
  · exact ⟨1, by decide, by decide, h⟩
  · refine ⟨3, by decide, by decide, ?_⟩
    rw [hworks] at h ⊢
    omega

section Tehran

variable {open' close : HHMM} (h : open'.minutes < close.minutes)

include h

theorem inSession_eq_isOpen (lt : ℤ) : inSession lt open'.minutes close.minutes =
    (tehranSessions open' close h).isOpen lt := by
  have hclock : clockHour lt * 60 + clockMinute lt = lt % day / minute := by
    rw [clockHour, clockMinute, day, hour, minute]
    omega
  have hopen : open'.minutes ≤ lt % day / minute ↔ open'.minutes * minute ≤ lt % day :=
    Int.le_ediv_iff_mul_le (by decide)
  have hclose : lt % day / minute < close.minutes ↔ lt % day < close.minutes * minute :=
    Int.ediv_lt_iff_lt_mul (by decide)
  have hsessions : (tehranSessions open' close h).isOpen lt =
      if isOffDay (lt / day) then false
      else decide (open'.minutes * minute ≤ lt % day) &&
        decide (lt % day < close.minutes * minute) := rfl
  rw [hsessions, inSession, hclock]
  simp only [hopen, hclose]

theorem closureStart_lastClose {t : ℤ}
    (hshut : inSession (t + tehran) open'.minutes close.minutes = false) :
    ClosureStart (fun s ↦ inSession (s + tehran) open'.minutes close.minutes) t
      (lastClose t close.minutes) := by
  rw [inSession_eq_isOpen h] at hshut
  have hwalk := DailySessions.closureStart_walk_shift exists_workday hshut
  simp only [lastClose, sub_add_eq_add_sub, inSession_eq_isOpen h]
  exact hwalk

end Tehran

def globalWeek : PeriodicSession where
  origin := 3 * day + 22 * hour
  period := 7 * day
  length := 4 * day + 23 * hour
  length_pos := by decide
  length_lt := by decide

theorem globalWeek_isOpen (t : ℤ) :
    (if weekday (t / day) = 5 then decide (clockHour t < 21)
      else if weekday (t / day) = 6 then false
      else if weekday (t / day) = 0 then decide (22 ≤ clockHour t)
      else true) = globalWeek.isOpen t := by
  have hweek : globalWeek.isOpen t =
      decide ((t - (3 * day + 22 * hour)) % (7 * day) < 4 * day + 23 * hour) := rfl
  rw [hweek]
  split_ifs with hfriday hsaturday hsunday
  · rw [decide_eq_decide]
    simp only [weekday, clockHour, day, hour] at *
    omega
  · rw [eq_comm, decide_eq_false_iff_not]
    simp only [weekday, day, hour] at *
    omega
  · rw [decide_eq_decide]
    simp only [weekday, clockHour, day, hour] at *
    omega
  · rw [eq_comm, decide_eq_true_iff]
    simp only [weekday, day, hour] at *
    omega

theorem closureStart_globalWeek {t : ℤ} (hshut : globalWeek.isOpen t = false) :
    ClosureStart globalWeek.isOpen t
      (let daysBack := (weekday (t / day) - 5 + 7).tmod 7
        let fri := (t / day - daysBack) * day + 21 * hour
        if t < fri then fri - 7 * day else fri) := by
  have hclosure : globalWeek.closure t =
      t - (t - (3 * day + 22 * hour)) % (7 * day) + (4 * day + 23 * hour) := rfl
  convert PeriodicSession.closureStart hshut using 1
  have hlate : 4 * day + 23 * hour ≤ (t - (3 * day + 22 * hour)) % (7 * day) :=
    not_lt.mp (of_decide_eq_false hshut)
  rw [hclosure, Int.tmod_eq_emod_of_nonneg (by rw [weekday]; omega)]
  simp only [weekday, day, hour] at hlate ⊢
  split_ifs <;> omega

theorem closureStart_closureStartedAt {symbol : String} {t : ℤ} {open' close : HHMM}
    (h : open'.minutes < close.minutes) (hshut : isOpen symbol t open' close = false) :
    ClosureStart (isOpen symbol · open' close) t (closureStartedAt symbol t open' close) := by
  rw [closureStartedAt, hshut]
  simp only [isOpen] at hshut ⊢
  by_cases halways : alwaysOpen.contains symbol
  · rw [if_pos halways] at hshut
    cases hshut
  by_cases hfund : isTSEFund symbol
  · simp only [halways, hfund, if_true, Bool.false_eq_true, if_false] at hshut ⊢
    exact closureStart_lastClose (by decide) hshut
  by_cases hiranian : iranian.contains symbol
  · simp only [halways, hfund, hiranian, if_true, Bool.false_eq_true, if_false] at hshut ⊢
    exact closureStart_lastClose h hshut
  simp only [halways, hfund, hiranian, Bool.false_eq_true, if_false, globalWeek_isOpen]
    at hshut ⊢
  exact closureStart_globalWeek hshut

end Go

namespace Python

theorem day_pos : 0 < day := by decide

theorem minute_pos : 0 < minute := by decide

theorem close_le_day (t : HHMM) : t.minutes * minute ≤ day := by
  have hminutes := t.minutes_lt
  rw [day, minute]
  omega

def tehranSessions (open' close : HHMM) (h : open'.minutes < close.minutes) : DailySessions where
  day := day
  off := isOffDay
  openAt := open'.minutes * minute
  closeAt := close.minutes * minute
  day_pos := day_pos
  open_nonneg := mul_nonneg open'.minutes_nonneg minute_pos.le
  open_lt := Int.mul_lt_mul_of_pos_right h minute_pos
  close_le := close_le_day close

theorem exists_workday (d : ℤ) : ∃ i < 9, 0 < i ∧ isOffDay (d - (i : ℕ)) = false := by
  obtain ⟨i, hi, hpos, hworks⟩ := Go.exists_workday d
  exact ⟨i, hi, hpos, isOffDay_eq _ ▸ hworks⟩

section Tehran

variable {open' close : HHMM} (h : open'.minutes < close.minutes)

include h

theorem inSession_eq_isOpen (l : ℤ) :
    inSession l (open'.minutes * minute) (close.minutes * minute) =
      (tehranSessions open' close h).isOpen l := rfl

theorem closureStart_lastClose {t : ℤ}
    (hshut : inSession (t + tehran) (open'.minutes * minute) (close.minutes * minute) = false) :
    ClosureStart
      (fun s ↦ inSession (s + tehran) (open'.minutes * minute) (close.minutes * minute)) t
      (lastClose t (close.minutes * minute)) := by
  rw [inSession_eq_isOpen h] at hshut
  have hwalk := DailySessions.closureStart_walk_shift exists_workday hshut
  simp only [lastClose, Int.sub_mul_ediv_right _ _ day_pos.ne']
  exact hwalk

end Tehran

def globalWeek : PeriodicSession where
  origin := 3 * day + 22 * hour
  period := 7 * day
  length := 4 * day + 23 * hour
  length_pos := by decide
  length_lt := by decide

theorem globalWeek_isOpen (t : ℤ) :
    (if weekday (t / day) = 4 ∧ 21 * hour ≤ t % day then false
      else if weekday (t / day) = 5 then false
      else if weekday (t / day) = 6 ∧ t % day < 22 * hour then false
      else true) = globalWeek.isOpen t := by
  have hweek : globalWeek.isOpen t =
      decide ((t - (3 * day + 22 * hour)) % (7 * day) < 4 * day + 23 * hour) := rfl
  rw [hweek]
  split_ifs with hfriday hsaturday hsunday
  · rw [eq_comm, decide_eq_false_iff_not]
    simp only [weekday, day, hour] at *
    omega
  · rw [eq_comm, decide_eq_false_iff_not]
    simp only [weekday, day, hour] at *
    omega
  · rw [eq_comm, decide_eq_false_iff_not]
    simp only [weekday, day, hour] at *
    omega
  · rw [eq_comm, decide_eq_true_iff]
    simp only [weekday, day, hour] at *
    omega

theorem closureStart_globalWeek {t : ℤ} (hshut : globalWeek.isOpen t = false) :
    ClosureStart globalWeek.isOpen t
      (let daysBack := (weekday (t / day) - 4) % 7
        let candidate := (t - daysBack * day) / day * day + 21 * hour
        if t < candidate then candidate - 7 * day else candidate) := by
  have hclosure : globalWeek.closure t =
      t - (t - (3 * day + 22 * hour)) % (7 * day) + (4 * day + 23 * hour) := rfl
  convert PeriodicSession.closureStart hshut using 1
  have hlate : 4 * day + 23 * hour ≤ (t - (3 * day + 22 * hour)) % (7 * day) :=
    not_lt.mp (of_decide_eq_false hshut)
  rw [hclosure]
  simp only [weekday, day, hour] at hlate ⊢
  split_ifs <;> omega

theorem closureStart_closureStartedAt {symbol : String} {t : ℤ} {settings : Settings}
    (htehran : settings.marketTehranOpen.minutes < settings.marketTehranClose.minutes)
    (htse : settings.marketTseOpen.minutes < settings.marketTseClose.minutes)
    (hshut : isMarketOpen symbol t settings = false) :
    ∃ c, closureStartedAt symbol t settings = some c ∧
      ClosureStart (isMarketOpen symbol · settings) t c := by
  rw [closureStartedAt, hshut]
  simp only [isMarketOpen] at hshut ⊢
  by_cases halways : alwaysOpenSymbols.contains symbol
  · rw [if_pos halways] at hshut
    cases hshut
  by_cases hfund : isTseFund symbol
  · simp only [halways, hfund, if_true, Bool.false_eq_true, if_false] at hshut ⊢
    exact ⟨_, rfl, closureStart_lastClose htse hshut⟩
  by_cases hiranian : iranianSymbols.contains symbol
  · simp only [halways, hfund, hiranian, if_true, Bool.false_eq_true, if_false] at hshut ⊢
    exact ⟨_, rfl, closureStart_lastClose htehran hshut⟩
  by_cases hglobal : globalSymbols.contains symbol
  · simp only [halways, hfund, hiranian, hglobal, Bool.false_eq_true, if_false, if_true,
      globalWeek_isOpen] at hshut ⊢
    exact ⟨_, rfl, closureStart_globalWeek hshut⟩
  · rw [if_neg halways, if_neg hfund, if_neg hiranian, if_neg hglobal] at hshut
    cases hshut

end Python

/-- Where the market is open Go answers the instant itself, Python nothing. -/
theorem closure_starts_at_last_close (symbol : String) (t : ℤ) {open' close : HHMM}
    (h : open'.minutes < close.minutes) {settings : Python.Settings}
    (htehran : settings.marketTehranOpen.minutes < settings.marketTehranClose.minutes)
    (htse : settings.marketTseOpen.minutes < settings.marketTseClose.minutes) :
    ((Go.isOpen symbol t open' close = false →
        ClosureStart (Go.isOpen symbol · open' close) t
          (Go.closureStartedAt symbol t open' close)) ∧
      (Go.isOpen symbol t open' close = true → Go.closureStartedAt symbol t open' close = t)) ∧
    (Python.isMarketOpen symbol t settings = false →
      ∃ c, Python.closureStartedAt symbol t settings = some c ∧
        ClosureStart (Python.isMarketOpen symbol · settings) t c) ∧
    (Python.isMarketOpen symbol t settings = true →
      Python.closureStartedAt symbol t settings = none) := by
  refine ⟨⟨Go.closureStart_closureStartedAt h, fun hopen ↦ ?_⟩,
    Python.closureStart_closureStartedAt htehran htse, fun hopen ↦ ?_⟩
  · rw [Go.closureStartedAt, if_pos hopen]
  · rw [Python.closureStartedAt, if_pos hopen]

/-- A Friday at half past nine in the evening, UTC, when every calendar is shut. -/
theorem closure_starts_at_last_close_friday :
    ClosureStart (Go.isOpen "XAUUSD" · tseOpen tseClose) (Go.day + 43 * (Go.hour / 2))
      (Go.closureStartedAt "XAUUSD" (Go.day + 43 * (Go.hour / 2)) tseOpen tseClose) :=
  (@closure_starts_at_last_close "XAUUSD" (Go.day + 43 * (Go.hour / 2)) tseOpen tseClose
    (by decide) ⟨tseOpen, tseClose, tseOpen, tseClose, 30⟩ (by decide) (by decide)).1.1 (by
      have hfriday : Go.weekday ((Go.day + 43 * (Go.hour / 2)) / Go.day) = 5 := by decide
      rw [Go.isOpen, if_neg (by decide), if_pos hfriday]
      split_ifs <;> decide)

/-- Python answers no closure for melted gold, whose market never closes. -/
theorem python_closure_none_while_open :
    Python.isMarketOpen "IR_GOLD_18K" 0 ⟨tseOpen, tseClose, tseOpen, tseClose, 30⟩ = true ∧
      tseOpen.minutes < tseClose.minutes ∧
      Python.closureStartedAt "IR_GOLD_18K" 0 ⟨tseOpen, tseClose, tseOpen, tseClose, 30⟩ ≠
        some 0 := by
  decide

end TalaPala.MarketHours
