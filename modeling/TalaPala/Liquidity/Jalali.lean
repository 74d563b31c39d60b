import TalaPala.Economic.Jalali

namespace TalaPala.Liquidity

open Library

section Source

inductive JalaliError
  | year (jy : ℤ)
  | month (jm : ℤ)
  | day (jy jm len jd : ℤ)
  | unsupported (year month day : ℤ)

def jalaliBreaks : List ℤ :=
  [9, 38, 199, 426, 686, 756, 818, 1111, 1181, 1210, 1635, 2060, 2097, 2192, 2262, 2324, 2394,
    2456, 3178]

def minJalaliYear : ℤ := 1

def maxJalaliYear : ℤ := 3177

def countLeaps (jy : ℤ) : ℤ → ℤ → ℤ → List ℤ → ℤ × ℤ × ℤ
  | leapJ, prev, span, [] => (leapJ, prev, span)
  | leapJ, prev, _, next :: rest =>
    if jy < next then (leapJ, prev, next - prev)
    else countLeaps jy
      (leapJ + (next - prev).tdiv 33 * 8 + ((next - prev).tmod 33).tdiv 4) next (next - prev) rest

def nowruzMarch (jy : ℤ) : ℤ :=
  let count := countLeaps jy (-14) (-61) 0 jalaliBreaks
  let n := jy - count.2.1
  let leapJ := count.1 + n.tdiv 33 * 8 + (n.tmod 33 + 3).tdiv 4
  let leapJ := if count.2.2.tmod 33 = 4 ∧ count.2.2 - n = 4 then leapJ + 1 else leapJ
  let gy := jy + 621
  let leapG := gy.tdiv 4 - ((gy.tdiv 100 + 1) * 3).tdiv 4 - 150
  20 + leapJ - leapG

def nowruz (jy : ℤ) : Option ℤ :=
  if jy < minJalaliYear ∨ maxJalaliYear < jy then none
  else some ((⟨jy + 621, 3, 1⟩ : Civil).ordinal + nowruzMarch jy - 1)

def jalaliLeap (jy : ℤ) : Bool :=
  match nowruz jy, nowruz (jy + 1) with
  | some a, some b => b - a = 366
  | _, _ => false

def jalaliMonthLength (jy jm : ℤ) : ℤ :=
  if 1 ≤ jm ∧ jm ≤ 6 then 31
  else if 7 ≤ jm ∧ jm ≤ 11 then 30
  else if jm = 12 then if jalaliLeap jy then 30 else 29
  else 0

def dayOfJalaliYear (jm jd : ℤ) : ℤ :=
  if jm ≤ 6 then (jm - 1) * 31 + jd - 1 else 6 * 31 + (jm - 7) * 30 + jd - 1

def jalaliToGregorian (jy jm jd : ℤ) : Except JalaliError ℤ :=
  match nowruz jy with
  | none => .error (.year jy)
  | some start =>
    if jm < 1 ∨ 12 < jm then .error (.month jm)
    else if jd < 1 ∨ jalaliMonthLength jy jm < jd then
      .error (.day jy jm (jalaliMonthLength jy jm) jd)
    else .ok (start + dayOfJalaliYear jm jd)

def dateInYear (jy start day : ℤ) : Economic.JalaliDate :=
  let doy := day - start
  if doy < 6 * 31 then ⟨jy, doy.tdiv 31 + 1, doy.tmod 31 + 1⟩
  else ⟨jy, (doy - 6 * 31).tdiv 30 + 7, (doy - 6 * 31).tmod 30 + 1⟩

def gregorianToJalali (c : Civil) : Except JalaliError Economic.JalaliDate :=
  let jy := c.year - 621
  match nowruz jy with
  | none => .error (.unsupported c.year c.month c.day)
  | some start =>
    if c.ordinal < start then
      match nowruz (jy - 1) with
      | none => .error (.unsupported c.year c.month c.day)
      | some start => .ok (dateInYear (jy - 1) start c.ordinal)
    else .ok (dateInYear jy start c.ordinal)

def newMonth (jy jm : ℤ) : ℤ := jy * 12 + jm - 1

def monthYear (m : ℤ) : ℤ := m.tdiv 12

def monthOf (m : ℤ) : ℤ := m.tmod 12 + 1

/-- The zero `time.Time`, 1 January of year 1. -/
def zeroTime : ℤ := 1

def dateOrZero : Except JalaliError ℤ → ℤ
  | .ok day => day
  | .error _ => zeroTime

def startOfMonth (m : ℤ) : ℤ := dateOrZero (jalaliToGregorian (monthYear m) (monthOf m) 1)

def endOfMonth (m : ℤ) : ℤ :=
  dateOrZero (jalaliToGregorian (monthYear m) (monthOf m)
    (jalaliMonthLength (monthYear m) (monthOf m)))

end Source

section Years

theorem countLeaps_of_range {jy : ℤ} (hlo : 1210 ≤ jy) (hhi : jy ≤ 1634) :
    countLeaps jy (-14) (-61) 0 jalaliBreaks = (294, 1210, 425) := by
  simp only [jalaliBreaks, countLeaps]
  rw [if_neg (by omega), if_neg (by omega), if_neg (by omega), if_neg (by omega),
    if_neg (by omega), if_neg (by omega), if_neg (by omega), if_neg (by omega),
    if_neg (by omega), if_neg (by omega), if_pos (by omega)]
  decide

theorem monthStart_farvardin (jy : ℤ) :
    Economic.monthStart jy 1 = Economic.jalaliYearStart jy + daysBeforeYear 1600 + 80 := by
  have h1 : Economic.jalaliMonthOffset 1 = 0 := rfl
  rw [Economic.monthStart, Economic.jalaliOrdinal, Economic.jalaliDayNo_eq, h1]
  omega

theorem nowruzMarch_of_range {jy : ℤ} (hlo : 1210 ≤ jy) (hhi : jy ≤ 1634) :
    nowruzMarch jy = 20 + (294 + (jy - 1210) / 33 * 8 + ((jy - 1210) % 33 + 3) / 4) -
      ((jy + 621) / 4 - ((jy + 621) / 100 + 1) * 3 / 4 - 150) := by
  have hspan : ¬ (Int.tmod 425 33 = 4 ∧ 425 - (jy - 1210) = 4) := fun h ↦
    absurd h.1 (by decide)
  have hcentury : (jy + 621).tdiv 100 = (jy + 621) / 100 := Int.tdiv_eq_ediv_of_nonneg (by omega)
  have hcycle : (jy - 1210).tmod 33 = (jy - 1210) % 33 := Int.tmod_eq_emod_of_nonneg (by omega)
  rw [nowruzMarch, countLeaps_of_range hlo hhi]
  dsimp only
  rw [if_neg hspan, hcentury, hcycle, Int.tdiv_eq_ediv_of_nonneg (by omega),
    Int.tdiv_eq_ediv_of_nonneg (by omega), Int.tdiv_eq_ediv_of_nonneg (by omega),
    Int.tdiv_eq_ediv_of_nonneg (by omega)]

theorem march_ordinal (gy : ℤ) : (⟨gy, 3, 1⟩ : Civil).ordinal =
    365 * (gy - 1) + gy / 4 - (gy / 100 + 1) * 3 / 4 + 60 := by
  have hcentury : gy / 100 - gy / 400 = (gy / 100 + 1) * 3 / 4 := by omega
  have hleap : (gy - 1) / 4 - (gy - 1) / 100 + (gy - 1) / 400 + (if isLeap gy then 1 else 0) =
      gy / 4 - gy / 100 + gy / 400 := by
    split
    · rename_i h
      have := isLeap_iff.mp h
      omega
    · rename_i h
      rw [isLeap_iff] at h
      omega
  have hmonth : daysBeforeMonth (isLeap gy) 3 = 59 + if isLeap gy then 1 else 0 := by
    cases isLeap gy <;> rfl
  rw [Civil.ordinal, hmonth, daysBeforeYear]
  dsimp only
  omega

theorem nowruz_eq {jy : ℤ} (hlo : 1210 ≤ jy) (hhi : jy ≤ 1634) :
    nowruz jy = some (Economic.monthStart jy 1) := by
  have h1600 : daysBeforeYear 1600 = 584022 := rfl
  have hcycles : (jy - 979) / 33 = (jy - 1210) / 33 + 7 := by omega
  have hyears : (jy - 979) % 33 = (jy - 1210) % 33 := by omega
  rw [nowruz, minJalaliYear, maxJalaliYear, if_neg (by omega), monthStart_farvardin,
    nowruzMarch_of_range hlo hhi, march_ordinal, Economic.jalaliYearStart, h1600, hcycles, hyears]
  congr 1
  omega

theorem nowruz_1635 : nowruz 1635 = some (Economic.monthStart 1635 1 - 1) := by decide

end Years

section Months

variable {jy jm jd : ℤ}

theorem jalaliOrdinal_eq (jy jm jd : ℤ) :
    Economic.jalaliOrdinal jy jm jd = Economic.monthStart jy 1 + dayOfJalaliYear jm jd := by
  rw [monthStart_farvardin, Economic.jalaliOrdinal, Economic.jalaliDayNo_eq,
    Economic.jalaliMonthOffset, dayOfJalaliYear]
  split <;> omega

theorem farvardin_succ (jy : ℤ) :
    Economic.monthStart jy 1 + 365 ≤ Economic.monthStart (jy + 1) 1 ∧
      Economic.monthStart (jy + 1) 1 ≤ Economic.monthStart jy 1 + 366 := by
  have := Economic.jalaliYearStart_succ jy
  rw [monthStart_farvardin, monthStart_farvardin]
  omega

theorem jalaliLeap_eq (hlo : 1210 ≤ jy) (hhi : jy ≤ 1633) :
    jalaliLeap jy =
      decide (Economic.monthStart (jy + 1) 1 - Economic.monthStart jy 1 = 366) := by
  rw [jalaliLeap, nowruz_eq hlo (by omega), nowruz_eq (by omega) (by omega)]

theorem jalaliMonthLength_eq (hlo : 1210 ≤ jy) (hhi : jy ≤ 1634) (hm : 1 ≤ jm) (hm' : jm ≤ 12)
    (hbreak : ¬ (jy = 1634 ∧ jm = 12)) :
    jalaliMonthLength jy jm =
      Economic.monthStart (Economic.nextMonth jy jm).1 (Economic.nextMonth jy jm).2 -
        Economic.monthStart jy jm := by
  have hyear := farvardin_succ jy
  have hstart : Economic.monthStart jy jm = Economic.monthStart jy 1 + dayOfJalaliYear jm 1 :=
    jalaliOrdinal_eq jy jm 1
  rw [Economic.nextMonth, jalaliMonthLength, hstart]
  by_cases h12 : jm = 12
  · subst h12
    have hesfand : dayOfJalaliYear 12 1 = 336 := rfl
    have hnot6 : ¬ (1 ≤ (12 : ℤ) ∧ (12 : ℤ) ≤ 6) := by decide
    have hnot11 : ¬ (7 ≤ (12 : ℤ) ∧ (12 : ℤ) ≤ 11) := by decide
    rw [if_pos rfl, if_neg hnot6, if_neg hnot11, if_pos rfl, jalaliLeap_eq hlo (by omega), hesfand]
    split
    · rename_i hleap
      have := of_decide_eq_true hleap
      dsimp only
      omega
    · rename_i hleap
      rw [decide_eq_true_eq] at hleap
      dsimp only
      omega
  · have hnext : Economic.monthStart jy (jm + 1) =
        Economic.monthStart jy 1 + dayOfJalaliYear (jm + 1) 1 := jalaliOrdinal_eq jy (jm + 1) 1
    rw [if_neg h12, if_neg h12, hnext, dayOfJalaliYear, dayOfJalaliYear]
    split <;> split <;> split <;> omega

theorem jalaliMonthLength_last : jalaliMonthLength 1634 12 = 29 := by decide

theorem jalaliToGregorian_ok (hlo : 1210 ≤ jy) (hhi : jy ≤ 1634) (hm : 1 ≤ jm) (hm' : jm ≤ 12)
    (hd : 1 ≤ jd) (hd' : jd ≤ jalaliMonthLength jy jm) :
    jalaliToGregorian jy jm jd = .ok (Economic.jalaliOrdinal jy jm jd) := by
  rw [jalaliToGregorian, nowruz_eq hlo hhi, jalaliOrdinal_eq]
  dsimp only
  rw [if_neg (by omega), if_neg (by omega)]

theorem jalaliToGregorian_eq_ok {day : ℤ} (hlo : 1210 ≤ jy) (hhi : jy ≤ 1634)
    (h : jalaliToGregorian jy jm jd = .ok day) :
    1 ≤ jm ∧ jm ≤ 12 ∧ 1 ≤ jd ∧ jd ≤ jalaliMonthLength jy jm ∧
      day = Economic.jalaliOrdinal jy jm jd := by
  have hok := h
  rw [jalaliToGregorian, nowruz_eq hlo hhi] at hok
  dsimp only at hok
  split at hok
  · cases hok
  · split at hok
    · cases hok
    · rename_i hm hd
      refine ⟨by omega, by omega, by omega, by omega, ?_⟩
      rw [jalaliOrdinal_eq]
      exact (Except.ok.inj hok).symm

end Months

section Dates

def firstShared : ℤ := Economic.jalaliOrdinal 1210 1 1

def lastShared : ℤ := Economic.jalaliOrdinal 1634 12 29

theorem dateInYear_eq {c : Civil} (hc : c.Valid) :
    Economic.gregorianToJalali c.year c.month c.day =
      dateInYear (Economic.gregorianToJalali c.year c.month c.day).year
        (Economic.monthStart (Economic.gregorianToJalali c.year c.month c.day).year 1)
        c.ordinal := by
  obtain ⟨htotal, hnonneg, _⟩ :=
    Economic.jalaliYear_spec (Economic.gDayNo c.year c.month c.day - 79)
  have hday := Economic.gDayNo_eq hc
  have hyear : (Economic.gregorianToJalali c.year c.month c.day).year =
      (Economic.jalaliYear (Economic.gDayNo c.year c.month c.day - 79)).1 := by
    rw [Economic.gregorianToJalali]
    split <;> rfl
  rw [hyear, monthStart_farvardin, dateInYear, Economic.gregorianToJalali]
  generalize Economic.gDayNo c.year c.month c.day = n at *
  generalize (Economic.jalaliYear (n - 79)).1 = y, (Economic.jalaliYear (n - 79)).2 = doy at *
  have hdoy : c.ordinal - (Economic.jalaliYearStart y + daysBeforeYear 1600 + 80) = doy := by omega
  rw [hdoy]
  by_cases hhalf : doy < 186
  · rw [if_pos hhalf, if_pos (by omega), Int.tdiv_eq_ediv_of_nonneg hnonneg,
      Int.tmod_eq_emod_of_nonneg hnonneg, add_comm 1, add_comm 1]
  · rw [if_neg hhalf, if_neg (by omega), Int.tdiv_eq_ediv_of_nonneg (by omega),
      Int.tmod_eq_emod_of_nonneg (by omega), add_comm 1, add_comm 7]
    rfl

theorem farvardin_in_year (jy : ℤ) (hlo : 1210 ≤ jy) (hhi : jy ≤ 1635) :
    daysBeforeYear (jy + 621) + 1 < Economic.monthStart jy 1 ∧
      Economic.monthStart jy 1 ≤ daysBeforeYear (jy + 622) := by
  have h1600 : daysBeforeYear 1600 = 584022 := rfl
  rw [monthStart_farvardin, Economic.jalaliYearStart, h1600, daysBeforeYear, daysBeforeYear]
  omega

theorem farvardin_mono {jy jy' : ℤ} (h : jy ≤ jy') :
    Economic.monthStart jy 1 ≤ Economic.monthStart jy' 1 := by
  induction jy', h using Int.leInduction with
  | base => exact le_rfl
  | succ jy' _ ih =>
    have := farvardin_succ jy'
    omega

theorem farvardin_1635 : Economic.monthStart 1635 1 = lastShared + 2 := by decide

theorem year_of_shared {c : Civil} (hc : c.Valid) (hlo : firstShared ≤ c.ordinal)
    (hhi : c.ordinal ≤ lastShared) :
    1210 ≤ (Economic.gregorianToJalali c.year c.month c.day).year ∧
      (Economic.gregorianToJalali c.year c.month c.day).year ≤ 1634 ∧
      Economic.monthStart (Economic.gregorianToJalali c.year c.month c.day).year 1 ≤ c.ordinal ∧
      c.ordinal <
        Economic.monthStart ((Economic.gregorianToJalali c.year c.month c.day).year + 1) 1 := by
  obtain ⟨htotal, hnonneg, hlt⟩ :=
    Economic.jalaliYear_spec (Economic.gDayNo c.year c.month c.day - 79)
  have hday := Economic.gDayNo_eq hc
  have hyear : (Economic.gregorianToJalali c.year c.month c.day).year =
      (Economic.jalaliYear (Economic.gDayNo c.year c.month c.day - 79)).1 := by
    rw [Economic.gregorianToJalali]
    split <;> rfl
  rw [hyear]
  generalize Economic.gDayNo c.year c.month c.day = n at *
  generalize (Economic.jalaliYear (n - 79)).1 = y at *
  have hstart : Economic.monthStart y 1 ≤ c.ordinal := by
    rw [monthStart_farvardin]
    omega
  have hend : c.ordinal < Economic.monthStart (y + 1) 1 := by
    rw [monthStart_farvardin]
    omega
  refine ⟨?_, ?_, hstart, hend⟩
  · by_contra hlt
    have := farvardin_mono (Int.add_one_le_of_lt (not_le.mp hlt))
    rw [firstShared, ← Economic.monthStart] at hlo
    omega
  · by_contra hlt
    have hle : 1635 ≤ y := by omega
    have := farvardin_mono hle
    have := farvardin_1635
    omega

theorem gregorianToJalali_eq {c : Civil} (hc : c.Valid) (hlo : firstShared ≤ c.ordinal)
    (hhi : c.ordinal ≤ lastShared) :
    gregorianToJalali c = .ok (Economic.gregorianToJalali c.year c.month c.day) := by
  obtain ⟨hy, hy', hstart, hend⟩ := year_of_shared hc hlo hhi
  rw [dateInYear_eq hc]
  generalize (Economic.gregorianToJalali c.year c.month c.day).year = jy at *
  have hfirst := hc.lt_ordinal
  have hlast := hc.ordinal_le
  have hin := farvardin_in_year jy hy (hy'.trans (by decide))
  have hnext := farvardin_in_year (jy + 1) (by omega) (by omega)
  have hyear : c.year = jy + 621 ∨ c.year = jy + 622 := by
    have hge : jy + 621 ≤ c.year := by
      by_contra hlt
      have := daysBeforeYear_mono (y := c.year + 1) (z := jy + 621) (by omega)
      omega
    have hle : c.year ≤ jy + 622 := by
      by_contra hlt
      have := daysBeforeYear_mono (y := jy + 1 + 622) (z := c.year) (by omega)
      omega
    omega
  rcases hyear with hyear | hyear
  · have hjy : c.year - 621 = jy := by omega
    rw [gregorianToJalali, hjy, nowruz_eq hy hy']
    dsimp only
    rw [if_neg (by omega)]
  · have hjy : c.year - 621 = jy + 1 := by omega
    have hprev : jy + 1 - 1 = jy := by omega
    have hafter : ∃ start, nowruz (jy + 1) = some start ∧ c.ordinal < start := by
      by_cases hbreak : jy = 1634
      · have := farvardin_1635
        subst hbreak
        exact ⟨_, nowruz_1635, by omega⟩
      · exact ⟨_, nowruz_eq (by omega) (by omega), hend⟩
    obtain ⟨start, hnowruz, hbefore⟩ := hafter
    rw [gregorianToJalali, hjy, hprev, nowruz_eq hy hy', hnowruz]
    dsimp only
    rw [if_pos hbefore]

theorem day_le_of_shared {c : Civil} (hc : c.Valid) (hlo : firstShared ≤ c.ordinal)
    (hhi : c.ordinal ≤ lastShared) :
    (Economic.gregorianToJalali c.year c.month c.day).day ≤
      jalaliMonthLength (Economic.gregorianToJalali c.year c.month c.day).year
        (Economic.gregorianToJalali c.year c.month c.day).month := by
  obtain ⟨hy, hy', _, _⟩ := year_of_shared hc hlo hhi
  obtain ⟨hm, hm', hd, hordinal, hstarts, hends⟩ := Economic.gregorianToJalali_places hc
  generalize Economic.gregorianToJalali c.year c.month c.day = j at *
  have hstart : Economic.monthStart j.year j.month + j.day - 1 = c.ordinal := by
    rw [← hordinal, Economic.monthStart, Economic.jalaliOrdinal, Economic.jalaliOrdinal,
      Economic.jalaliDayNo_eq, Economic.jalaliDayNo_eq]
    omega
  by_cases hbreak : j.year = 1634 ∧ j.month = 12
  · rw [hbreak.1, hbreak.2] at hstart ⊢
    have hesfand : Economic.monthStart 1634 12 + 28 = lastShared := by decide
    rw [jalaliMonthLength_last]
    omega
  · rw [jalaliMonthLength_eq hy hy' hm hm' hbreak]
    omega

theorem jalaliToGregorian_shared {c : Civil} (hc : c.Valid) (hlo : firstShared ≤ c.ordinal)
    (hhi : c.ordinal ≤ lastShared) :
    jalaliToGregorian (Economic.gregorianToJalali c.year c.month c.day).year
      (Economic.gregorianToJalali c.year c.month c.day).month
      (Economic.gregorianToJalali c.year c.month c.day).day = .ok c.ordinal := by
  obtain ⟨hy, hy', _, _⟩ := year_of_shared hc hlo hhi
  obtain ⟨hm, hm', hd, hordinal, _, _⟩ := Economic.gregorianToJalali_places hc
  rw [jalaliToGregorian_ok hy hy' hm hm' hd (day_le_of_shared hc hlo hhi), hordinal]

theorem jalaliMonthLength_le {jy jm : ℤ} (hlo : 1210 ≤ jy) (hhi : jy ≤ 1634) (hm : 1 ≤ jm)
    (hm' : jm ≤ 12) :
    Economic.monthStart jy jm + jalaliMonthLength jy jm ≤
      Economic.monthStart (Economic.nextMonth jy jm).1 (Economic.nextMonth jy jm).2 := by
  by_cases hbreak : jy = 1634 ∧ jm = 12
  · obtain ⟨rfl, rfl⟩ := hbreak
    decide
  · rw [jalaliMonthLength_eq hlo hhi hm hm' hbreak]
    omega

theorem places_of_ok {jy jm jd day : ℤ} (hlo : 1210 ≤ jy) (hhi : jy ≤ 1634)
    (h : jalaliToGregorian jy jm jd = .ok day) : Economic.Places ⟨jy, jm, jd⟩ day := by
  obtain ⟨hm, hm', hd, hd', rfl⟩ := jalaliToGregorian_eq_ok hlo hhi h
  have hstart : Economic.monthStart jy jm + jd - 1 = Economic.jalaliOrdinal jy jm jd := by
    rw [Economic.monthStart, Economic.jalaliOrdinal, Economic.jalaliOrdinal,
      Economic.jalaliDayNo_eq, Economic.jalaliDayNo_eq]
    omega
  have hlen := jalaliMonthLength_le hlo hhi hm hm'
  exact ⟨hm, hm', hd, rfl, by dsimp only; omega, by dsimp only; omega⟩

theorem ok_in_range {jy jm jd day : ℤ} (hlo : 1210 ≤ jy) (hhi : jy ≤ 1634)
    (h : jalaliToGregorian jy jm jd = .ok day) : firstShared ≤ day ∧ day ≤ lastShared := by
  obtain ⟨hm, hm', _, hordinal, hstarts, hends⟩ := places_of_ok hlo hhi h
  obtain ⟨_, _, _, hd', _⟩ := jalaliToGregorian_eq_ok hlo hhi h
  dsimp only at hm hm' hordinal hstarts hends
  obtain ⟨hat, hnext⟩ := Economic.monthAt_index jy hm hm'
  have hfirst : Economic.monthAt (1210 * 12) = firstShared := by decide
  have hmono := Economic.monthAt_mono (show 1210 * 12 ≤ jy * 12 + jm - 1 by omega)
  refine ⟨by omega, ?_⟩
  by_cases hbreak : jy = 1634 ∧ jm = 12
  · obtain ⟨rfl, rfl⟩ := hbreak
    have hlast : Economic.monthStart 1634 1 + 364 = lastShared := by decide
    rw [jalaliMonthLength_last] at hd'
    rw [jalaliOrdinal_eq, dayOfJalaliYear, if_neg (by decide)] at hordinal
    omega
  · have hlast : Economic.monthAt (1634 * 12 + 11) ≤ lastShared := by decide
    have := Economic.monthAt_mono (show jy * 12 + jm - 1 + 1 ≤ 1634 * 12 + 11 by omega)
    omega

theorem gregorianToJalali_of_ok {jy jm jd day : ℤ} (hlo : 1210 ≤ jy) (hhi : jy ≤ 1634)
    (h : jalaliToGregorian jy jm jd = .ok day) :
    ∃ c : Civil, c.Valid ∧ c.ordinal = day ∧ gregorianToJalali c = .ok ⟨jy, jm, jd⟩ := by
  obtain ⟨hc, hordinal⟩ := Economic.civilOfDay_spec (Economic.jalaliDayNo jy jm jd)
  obtain ⟨hfirst, hlast⟩ := ok_in_range hlo hhi h
  have hplaces := places_of_ok hlo hhi h
  rw [← Economic.jalaliOrdinal, hplaces.ordinal] at hordinal
  generalize Economic.civilOfDay (Economic.jalaliDayNo jy jm jd) = c at *
  have hgo := gregorianToJalali_eq hc (hordinal ▸ hfirst) (hordinal ▸ hlast)
  rw [(Economic.gregorianToJalali_places hc).unique (hordinal ▸ hplaces)] at hgo
  exact ⟨c, hc, hordinal, hgo⟩

end Dates

section Boundaries

variable {jy jm : ℤ}

theorem newMonth_year (hlo : 0 ≤ jy) (hm : 1 ≤ jm) (hm' : jm ≤ 12) :
    monthYear (newMonth jy jm) = jy := by
  rw [monthYear, newMonth, Int.tdiv_eq_ediv_of_nonneg (by omega)]
  omega

theorem newMonth_of (hlo : 0 ≤ jy) (hm : 1 ≤ jm) (hm' : jm ≤ 12) :
    monthOf (newMonth jy jm) = jm := by
  rw [monthOf, newMonth, Int.tmod_eq_emod_of_nonneg (by omega)]
  omega

theorem one_le_jalaliMonthLength (jy : ℤ) (hm : 1 ≤ jm) (hm' : jm ≤ 12) :
    1 ≤ jalaliMonthLength jy jm := by
  rw [jalaliMonthLength]
  split
  · decide
  · split
    · decide
    · split
      · split <;> decide
      · omega

theorem startOfMonth_eq (hlo : 1210 ≤ jy) (hhi : jy ≤ 1634) (hm : 1 ≤ jm) (hm' : jm ≤ 12) :
    startOfMonth (newMonth jy jm) = Economic.monthStart jy jm := by
  have hlen := one_le_jalaliMonthLength jy hm hm'
  rw [startOfMonth, newMonth_year (by omega) hm hm', newMonth_of (by omega) hm hm',
    jalaliToGregorian_ok hlo hhi hm hm' le_rfl hlen]
  rfl

theorem endOfMonth_eq (hlo : 1210 ≤ jy) (hhi : jy ≤ 1634) (hm : 1 ≤ jm) (hm' : jm ≤ 12) :
    endOfMonth (newMonth jy jm) = Economic.monthStart jy jm + jalaliMonthLength jy jm - 1 := by
  have hlen := one_le_jalaliMonthLength jy hm hm'
  rw [endOfMonth, newMonth_year (by omega) hm hm', newMonth_of (by omega) hm hm',
    jalaliToGregorian_ok hlo hhi hm hm' hlen le_rfl, dateOrZero, Economic.monthStart,
    Economic.jalaliOrdinal, Economic.jalaliOrdinal, Economic.jalaliDayNo_eq,
    Economic.jalaliDayNo_eq]
  omega

theorem jalaliMonthSpan_shared (hlo : 1210 ≤ jy) (hhi : jy ≤ 1634) (hm : 1 ≤ jm)
    (hm' : jm ≤ 12) :
    Economic.jalaliMonthSpan jy jm = some (Economic.monthStart jy jm,
      Economic.monthStart (Economic.nextMonth jy jm).1 (Economic.nextMonth jy jm).2 - 1) := by
  obtain ⟨hat, hnext⟩ := Economic.monthAt_index jy hm hm'
  have hfirst := Economic.monthAt_mono (show 1210 * 12 ≤ jy * 12 + jm - 1 by omega)
  have hlast := Economic.monthAt_mono (show jy * 12 + jm - 1 + 1 ≤ 1635 * 12 by omega)
  have hlen := Economic.monthAt_succ (jy * 12 + jm - 1)
  have hrange : 1 ≤ Economic.monthAt (1210 * 12) ∧
      Economic.monthAt (1635 * 12) ≤ Economic.maxOrdinal := by decide
  refine Economic.jalaliMonthSpan_eq_some.mpr ⟨rfl, ?_, ?_⟩
  · rw [← hat]
    omega
  · rw [← hnext]
    omega

end Boundaries

/-- One calendar in both languages, where Borkowski's breaks leave the 33-year
cycle alone. -/
theorem calendars_agree :
    (∀ c : Civil, c.Valid → 1 ≤ c.year → c.year ≤ 9999 →
      Economic.jalaliToGregorian (Economic.gregorianToJalali c.year c.month c.day).year
        (Economic.gregorianToJalali c.year c.month c.day).month
        (Economic.gregorianToJalali c.year c.month c.day).day = some c) ∧
    (∀ jy jm, 1 ≤ jm → jm ≤ 12 → Economic.Tiles jy jm) ∧
    (∀ c : Civil, c.Valid → firstShared ≤ c.ordinal → c.ordinal ≤ lastShared →
      gregorianToJalali c = .ok (Economic.gregorianToJalali c.year c.month c.day) ∧
      jalaliToGregorian (Economic.gregorianToJalali c.year c.month c.day).year
        (Economic.gregorianToJalali c.year c.month c.day).month
        (Economic.gregorianToJalali c.year c.month c.day).day = .ok c.ordinal) ∧
    (∀ jy jm jd day, 1210 ≤ jy → jy ≤ 1634 → jalaliToGregorian jy jm jd = .ok day →
      ∃ c : Civil, c.Valid ∧ c.ordinal = day ∧ gregorianToJalali c = .ok ⟨jy, jm, jd⟩) ∧
    (∀ jy jm, 1210 ≤ jy → jy ≤ 1634 → 1 ≤ jm → jm ≤ 12 →
      ∃ s e, Economic.jalaliMonthSpan jy jm = some (s, e) ∧ startOfMonth (newMonth jy jm) = s ∧
        (¬ (jy = 1634 ∧ jm = 12) → endOfMonth (newMonth jy jm) = e)) := by
  refine ⟨fun c hc hlo hhi ↦ Economic.jalali_round_trip hc hlo hhi,
    fun jy jm _ _ ↦ Economic.spans_tile jy jm,
    fun c hc hlo hhi ↦ ⟨gregorianToJalali_eq hc hlo hhi, jalaliToGregorian_shared hc hlo hhi⟩,
    fun jy jm jd day hlo hhi h ↦ gregorianToJalali_of_ok hlo hhi h,
    fun jy jm hlo hhi hm hm' ↦ ⟨_, _, jalaliMonthSpan_shared hlo hhi hm hm',
      startOfMonth_eq hlo hhi hm hm', fun hbreak ↦ ?_⟩⟩
  rw [endOfMonth_eq hlo hhi hm hm', jalaliMonthLength_eq hlo hhi hm hm' hbreak]
  omega

theorem last_month_ends_early :
    Economic.jalaliMonthSpan 1634 12 = some (startOfMonth (newMonth 1634 12),
      endOfMonth (newMonth 1634 12) + 1) := by
  decide

end TalaPala.Liquidity
