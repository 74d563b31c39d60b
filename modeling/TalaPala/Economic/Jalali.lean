import TalaPala.Library.CivilDate
import TalaPala.Clock

namespace TalaPala.Economic

open Library

structure JalaliDate where
  year : ℤ
  month : ℤ
  day : ℤ

section Source

/-- `datetime.date(y, m, d)`, which raises for what is no date. -/
def date (y m d : ℤ) : Option Civil :=
  if 1 ≤ y ∧ y ≤ 9999 ∧ (⟨y, m, d⟩ : Civil).Valid then some ⟨y, m, d⟩ else none

def gDM : List ℤ := [0, 31, 59, 90, 120, 151, 181, 212, 243, 273, 304, 334]

def gDayNo (gy gm gd : ℤ) : ℤ :=
  let gy2 := gy - 1600
  365 * gy2 + (gy2 + 3) / 4 - (gy2 + 99) / 100 + (gy2 + 399) / 400 + gDM.getD (gm - 1).toNat 0 +
    (if 2 < gm ∧ isLeap gy then 1 else 0) + (gd - 1)

def jalaliYear (jDayNo : ℤ) : ℤ × ℤ :=
  let jNp := jDayNo / 12053
  let r := jDayNo % 12053
  let jy := 979 + 33 * jNp + 4 * (r / 1461)
  let s := r % 1461
  if 366 ≤ s then (jy + (s - 1) / 365, (s - 1) % 365) else (jy, s)

def gregorianToJalali (gy gm gd : ℤ) : JalaliDate :=
  let year := jalaliYear (gDayNo gy gm gd - 79)
  if year.2 < 186 then ⟨year.1, 1 + year.2 / 31, 1 + year.2 % 31⟩
  else ⟨year.1, 7 + (year.2 - 186) / 30, 1 + (year.2 - 186) % 30⟩

def jalaliMonthOffset (jm : ℤ) : ℤ := if jm ≤ 6 then (jm - 1) * 31 else 186 + (jm - 7) * 30

def jalaliDayNo (jy jm jd : ℤ) : ℤ :=
  let jy2 := jy - 979
  365 * jy2 + jy2 / 33 * 8 + (jy2 % 33 + 3) / 4 + jalaliMonthOffset jm + (jd - 1 + 79)

def gregorianYear (n : ℤ) : ℤ × Bool × ℤ :=
  let gy := 1600 + 400 * (n / 146097)
  let n := n % 146097
  let century : ℤ × Bool × ℤ :=
    if 36525 ≤ n then
      if 365 ≤ (n - 1) % 36524 then (gy + 100 * ((n - 1) / 36524), true, (n - 1) % 36524 + 1)
      else (gy + 100 * ((n - 1) / 36524), false, (n - 1) % 36524)
    else (gy, true, n)
  let gy := century.1 + 4 * (century.2.2 / 1461)
  let n := century.2.2 % 1461
  if 366 ≤ n then (gy + (n - 1) / 365, false, (n - 1) % 365) else (gy, century.2.1, n)

def jalaliToGregorian (jy jm jd : ℤ) : Option Civil :=
  let year := gregorianYear (jalaliDayNo jy jm jd)
  let month := locate 0 year.2.2 (monthLengths year.2.1)
  date year.1 (month.1 + 1) (month.2 + 1)

def nextMonth (jy jm : ℤ) : ℤ × ℤ := if jm = 12 then (jy + 1, 1) else (jy, jm + 1)

def jalaliMonthSpan (jy jm : ℤ) : Option (Date × Date) := do
  let start ← jalaliToGregorian jy jm 1
  let next ← jalaliToGregorian (nextMonth jy jm).1 (nextMonth jy jm).2 1
  some (start.ordinal, next.ordinal - 1)

def shiftMonth (jy jm months : ℤ) : ℤ × ℤ :=
  let index := jy * 12 + (jm - 1) + months
  (index / 12, index % 12 + 1)

end Source

section Gregorian

theorem isLeap_of_parts {a b c e : ℤ} (hb : 0 ≤ b) (hb' : b ≤ 3) (hc : 0 ≤ c) (hc' : c ≤ 24)
    (he : 0 ≤ e) (he' : e ≤ 3) :
    isLeap (1600 + 400 * a + 100 * b + 4 * c + e) = true ↔ e = 0 ∧ (b = 0 ∨ 0 < c) := by
  rw [isLeap_iff]
  omega

theorem daysBeforeYear_of_parts {a b c e : ℤ} (hb : 0 ≤ b) (hb' : b ≤ 3) (hc : 0 ≤ c)
    (hc' : c ≤ 24) (he : 0 ≤ e) (he' : e ≤ 3) :
    daysBeforeYear (1600 + 400 * a + 100 * b + 4 * c + e) = daysBeforeYear 1600 +
      146097 * a + 36524 * b + 1461 * c + 365 * e + (if 0 < b then 1 else 0) +
      (if 0 < e ∧ (b = 0 ∨ 0 < c) then 1 else 0) - (if 0 < b ∧ 0 < c then 1 else 0) := by
  rw [daysBeforeYear, daysBeforeYear]
  split <;> split <;> split <;> omega

structure YearOfDay (n y : ℤ) (leap : Bool) (doy : ℤ) : Prop where
  leap_eq : leap = isLeap y
  nonneg : 0 ≤ doy
  lt : doy < yearLength y
  total : daysBeforeYear y + doy = n + daysBeforeYear 1600

theorem yearOfDay_of_parts {n a b c e y doy : ℤ} {leap : Bool} (hb : 0 ≤ b ∧ b ≤ 3)
    (hc : 0 ≤ c ∧ c ≤ 24) (he : 0 ≤ e ∧ e ≤ 3) (hy : y = 1600 + 400 * a + 100 * b + 4 * c + e)
    (hleap : leap = true ↔ e = 0 ∧ (b = 0 ∨ 0 < c)) (hnonneg : 0 ≤ doy)
    (hlt : doy < 365 ∨ (leap = true ∧ doy < 366))
    (hn : n = 146097 * a + 36524 * b + 1461 * c + 365 * e + (if 0 < b then 1 else 0) +
      (if 0 < e ∧ (b = 0 ∨ 0 < c) then 1 else 0) - (if 0 < b ∧ 0 < c then 1 else 0) + doy) :
    YearOfDay n y leap doy := by
  have hleap' : leap = isLeap y := by
    rw [Bool.eq_iff_iff, hleap, hy, isLeap_of_parts hb.1 hb.2 hc.1 hc.2 he.1 he.2]
  refine ⟨hleap', hnonneg, ?_, ?_⟩
  · rw [yearLength, ← hleap']
    rcases hlt with hlt | ⟨htrue, hlt⟩
    · split <;> omega
    · rw [if_pos htrue]
      exact hlt
  · rw [hy, daysBeforeYear_of_parts hb.1 hb.2 hc.1 hc.2 he.1 he.2, hn]
    omega

theorem gregorianYear_spec (n : ℤ) :
    YearOfDay n (gregorianYear n).1 (gregorianYear n).2.1 (gregorianYear n).2.2 := by
  rw [gregorianYear]
  by_cases hfirst : 36525 ≤ n % 146097
  · by_cases hlate : 365 ≤ (n % 146097 - 1) % 36524
    · simp only [if_pos hfirst, if_pos hlate]
      split
      · dsimp only
        refine yearOfDay_of_parts (a := n / 146097) (b := (n % 146097 - 1) / 36524)
          (c := ((n % 146097 - 1) % 36524 + 1) / 1461)
          (e := (((n % 146097 - 1) % 36524 + 1) % 1461 - 1) / 365)
          (by omega) (by omega) (by omega) (by omega) (by simp; omega) (by omega)
          (.inl (by omega)) ?_
        split <;> split <;> split <;> omega
      · dsimp only
        refine yearOfDay_of_parts (a := n / 146097) (b := (n % 146097 - 1) / 36524)
          (c := ((n % 146097 - 1) % 36524 + 1) / 1461) (e := 0)
          (by omega) (by omega) (by omega) (by omega) (by simp; omega) (by omega)
          (.inr ⟨rfl, by omega⟩) ?_
        split <;> split <;> split <;> omega
    · simp only [if_pos hfirst, if_neg hlate]
      rw [if_neg (by omega)]
      dsimp only
      refine yearOfDay_of_parts (a := n / 146097) (b := (n % 146097 - 1) / 36524)
        (c := 0) (e := 0) (by omega) (by omega) (by omega) (by omega) (by simp; omega) (by omega)
        (.inl (by omega)) ?_
      split <;> split <;> split <;> omega
  · simp only [if_neg hfirst]
    split
    · dsimp only
      refine yearOfDay_of_parts (a := n / 146097) (b := 0) (c := n % 146097 / 1461)
        (e := (n % 146097 % 1461 - 1) / 365)
        (by omega) (by omega) (by omega) (by omega) (by simp; omega) (by omega)
        (.inl (by omega)) ?_
      split <;> split <;> split <;> omega
    · dsimp only
      refine yearOfDay_of_parts (a := n / 146097) (b := 0) (c := n % 146097 / 1461) (e := 0)
        (by omega) (by omega) (by omega) (by omega) (by simp) (by omega)
        (.inr ⟨rfl, by omega⟩) ?_
      split <;> split <;> split <;> omega

theorem locate_monthLengths {leap : Bool} {n : ℤ} (hn : 0 ≤ n)
    (hlt : n < (monthLengths leap).sum) :
    1 ≤ ((locate 0 n (monthLengths leap)).1 : ℤ) + 1 ∧
      ((locate 0 n (monthLengths leap)).1 : ℤ) + 1 ≤ 12 ∧
      1 ≤ (locate 0 n (monthLengths leap)).2 + 1 ∧
      (locate 0 n (monthLengths leap)).2 + 1 ≤
        daysInMonth leap ((locate 0 n (monthLengths leap)).1 + 1) ∧
      daysBeforeMonth leap ((locate 0 n (monthLengths leap)).1 + 1) +
        (locate 0 n (monthLengths leap)).2 = n := by
  obtain ⟨k, hk, hfst, hpos, hday, htotal⟩ := locate_spec (i := 0) hn hlt
  have hk12 : k < 12 := hk
  rw [hfst, Nat.zero_add]
  have hidx : ((k : ℤ) + 1 - 1).toNat = k := by omega
  rw [daysInMonth, daysBeforeMonth, hidx]
  exact ⟨by omega, by omega, by omega, by omega, htotal⟩

/-- The date that `jalali_to_gregorian` builds from its day count. -/
def civilOfDay (n : ℤ) : Civil where
  year := (gregorianYear n).1
  month := (locate 0 (gregorianYear n).2.2 (monthLengths (gregorianYear n).2.1)).1 + 1
  day := (locate 0 (gregorianYear n).2.2 (monthLengths (gregorianYear n).2.1)).2 + 1

theorem civilOfDay_spec (n : ℤ) :
    (civilOfDay n).Valid ∧ (civilOfDay n).ordinal = n + daysBeforeYear 1600 + 1 := by
  obtain ⟨hleap, hnonneg, hlt, htotal⟩ := gregorianYear_spec n
  rw [← monthLengths_sum, ← hleap] at hlt
  obtain ⟨hm, hm', hd, hd', hday⟩ := locate_monthLengths hnonneg hlt
  constructor
  · refine ⟨hm, hm', hd, ?_⟩
    rw [civilOfDay, ← hleap]
    exact hd'
  · rw [Civil.ordinal, civilOfDay, ← hleap]
    dsimp only
    omega

theorem date_eq_some {y m d : ℤ} {c : Civil} :
    date y m d = some c ↔ c = ⟨y, m, d⟩ ∧ 1 ≤ y ∧ y ≤ 9999 ∧ c.Valid := by
  rw [date]
  constructor
  · intro h
    split at h
    · rename_i hdate
      obtain rfl := Option.some.inj h
      exact ⟨rfl, hdate⟩
    · cases h
  · rintro ⟨rfl, hdate⟩
    rw [if_pos hdate]

theorem jalaliToGregorian_eq (jy jm jd : ℤ) :
    jalaliToGregorian jy jm jd = date (civilOfDay (jalaliDayNo jy jm jd)).year
      (civilOfDay (jalaliDayNo jy jm jd)).month (civilOfDay (jalaliDayNo jy jm jd)).day := rfl

def jalaliOrdinal (jy jm jd : ℤ) : ℤ := jalaliDayNo jy jm jd + daysBeforeYear 1600 + 1

theorem jalaliToGregorian_eq_some {jy jm jd : ℤ} {c : Civil} :
    jalaliToGregorian jy jm jd = some c ↔
      c.Valid ∧ 1 ≤ c.year ∧ c.year ≤ 9999 ∧ c.ordinal = jalaliOrdinal jy jm jd := by
  obtain ⟨hvalid, hordinal⟩ := civilOfDay_spec (jalaliDayNo jy jm jd)
  rw [jalaliToGregorian_eq, date_eq_some]
  constructor
  · rintro ⟨rfl, hlo, hhi, _⟩
    exact ⟨hvalid, hlo, hhi, hordinal⟩
  · rintro ⟨hc, hlo, hhi, hc'⟩
    obtain rfl := hc.eq_of_ordinal_eq hvalid (hc'.trans hordinal.symm)
    exact ⟨rfl, hlo, hhi, hc⟩

theorem gDayNo_eq {c : Civil} (hc : c.Valid) :
    gDayNo c.year c.month c.day + daysBeforeYear 1600 + 1 = c.ordinal := by
  have hyear : 365 * (c.year - 1600) + (c.year - 1600 + 3) / 4 - (c.year - 1600 + 99) / 100 +
      (c.year - 1600 + 399) / 400 + daysBeforeYear 1600 = daysBeforeYear c.year := by
    rw [daysBeforeYear, daysBeforeYear]
    omega
  have hmonth : gDM.getD (c.month - 1).toNat 0 + (if 2 < c.month ∧ isLeap c.year then 1 else 0) =
      daysBeforeMonth (isLeap c.year) c.month := by
    have hall : ∀ leap : Bool, ∀ k < 12, gDM.getD k 0 + (if 1 < k ∧ leap then 1 else 0) =
        ((monthLengths leap).take k).sum := by decide
    have hlo := hc.month_pos
    have hhi := hc.month_le
    have hk := hall (isLeap c.year) (c.month - 1).toNat (by omega)
    rw [daysBeforeMonth, ← hk]
    congr 1
    exact if_congr (and_congr_left (fun _ ↦ by omega)) rfl rfl
  rw [gDayNo, Civil.ordinal]
  omega

end Gregorian

section Jalali

def jalaliYearStart (y : ℤ) : ℤ :=
  365 * (y - 979) + (y - 979) / 33 * 8 + ((y - 979) % 33 + 3) / 4

theorem jalaliYear_spec (j : ℤ) :
    jalaliYearStart (jalaliYear j).1 + (jalaliYear j).2 = j ∧ 0 ≤ (jalaliYear j).2 ∧
      j < jalaliYearStart ((jalaliYear j).1 + 1) := by
  rw [jalaliYear]
  split
  · rw [jalaliYearStart, jalaliYearStart]
    dsimp only
    omega
  · rw [jalaliYearStart, jalaliYearStart]
    dsimp only
    omega

theorem jalaliYearStart_succ (y : ℤ) :
    jalaliYearStart y + 365 ≤ jalaliYearStart (y + 1) ∧
      jalaliYearStart (y + 1) ≤ jalaliYearStart y + 366 := by
  rw [jalaliYearStart, jalaliYearStart]
  omega

theorem jalaliDayNo_eq (jy jm jd : ℤ) :
    jalaliDayNo jy jm jd = jalaliYearStart jy + jalaliMonthOffset jm + jd + 78 := by
  rw [jalaliDayNo, jalaliYearStart]
  omega

def monthStart (jy jm : ℤ) : ℤ := jalaliOrdinal jy jm 1

theorem monthStart_next (jy : ℤ) {jm : ℤ} (hm : 1 ≤ jm) (hm' : jm ≤ 12) :
    29 ≤ monthStart (nextMonth jy jm).1 (nextMonth jy jm).2 - monthStart jy jm ∧
      monthStart (nextMonth jy jm).1 (nextMonth jy jm).2 - monthStart jy jm ≤ 31 := by
  have := jalaliYearStart_succ jy
  rw [monthStart, monthStart, jalaliOrdinal, jalaliOrdinal, jalaliDayNo_eq, jalaliDayNo_eq,
    nextMonth]
  split
  · have h1 : jalaliMonthOffset 1 = 0 := rfl
    have h12 : jalaliMonthOffset jm = 336 := by rw [jalaliMonthOffset, if_neg (by omega)]; omega
    dsimp only
    omega
  · rw [jalaliMonthOffset, jalaliMonthOffset]
    dsimp only
    split <;> split <;> omega

structure Places (j : JalaliDate) (day : ℤ) : Prop where
  month_pos : 1 ≤ j.month
  month_le : j.month ≤ 12
  day_pos : 1 ≤ j.day
  ordinal : jalaliOrdinal j.year j.month j.day = day
  month_starts : monthStart j.year j.month ≤ day
  month_ends : day < monthStart (nextMonth j.year j.month).1 (nextMonth j.year j.month).2

theorem places_of_parts {y m d n : ℤ} (hm : 1 ≤ m) (hm' : m ≤ 12) (hd : 1 ≤ d)
    (hn : jalaliYearStart y + jalaliMonthOffset m + d - 1 = n - 79)
    (hmonth : m < 12 → jalaliMonthOffset m + d ≤ jalaliMonthOffset (m + 1))
    (hyear : n - 79 < jalaliYearStart (y + 1)) :
    Places ⟨y, m, d⟩ (n + daysBeforeYear 1600 + 1) := by
  refine ⟨hm, hm', hd, ?_, ?_, ?_⟩
  · rw [jalaliOrdinal, jalaliDayNo_eq]
    dsimp only
    omega
  · rw [monthStart, jalaliOrdinal, jalaliDayNo_eq]
    dsimp only
    omega
  · rw [monthStart, jalaliOrdinal, jalaliDayNo_eq, nextMonth]
    split
    · have h1 : jalaliMonthOffset 1 = 0 := rfl
      dsimp only
      omega
    · have := hmonth (by dsimp only at *; omega)
      dsimp only
      omega

theorem gregorianToJalali_places {c : Civil} (hc : c.Valid) :
    Places (gregorianToJalali c.year c.month c.day) c.ordinal := by
  rw [← gDayNo_eq hc, gregorianToJalali]
  obtain ⟨htotal, hnonneg, hlt⟩ := jalaliYear_spec (gDayNo c.year c.month c.day - 79)
  have hlen := jalaliYearStart_succ (jalaliYear (gDayNo c.year c.month c.day - 79)).1
  generalize gDayNo c.year c.month c.day = n at htotal hnonneg hlt hlen
  generalize (jalaliYear (n - 79)).1 = y, (jalaliYear (n - 79)).2 = doy at *
  split
  · refine places_of_parts (by omega) (by omega) (by omega) ?_ (fun _ ↦ ?_) hlt
    · rw [jalaliMonthOffset, if_pos (by omega)]
      omega
    · rw [jalaliMonthOffset, jalaliMonthOffset, if_pos (by omega)]
      split <;> omega
  · refine places_of_parts (by omega) (by omega) (by omega) ?_ (fun _ ↦ ?_) hlt
    · rw [jalaliMonthOffset, if_neg (by omega)]
      omega
    · rw [jalaliMonthOffset, jalaliMonthOffset, if_neg (by omega), if_neg (by omega)]
      omega

/-- The months in their order, month `i` being month `i % 12 + 1` of year `i / 12`. -/
def monthAt (i : ℤ) : ℤ := monthStart (i / 12) (i % 12 + 1)

theorem nextMonth_index (i : ℤ) :
    nextMonth (i / 12) (i % 12 + 1) = ((i + 1) / 12, (i + 1) % 12 + 1) := by
  rw [nextMonth]
  split
  · exact Prod.ext (by dsimp only; omega) (by dsimp only; omega)
  · exact Prod.ext (by dsimp only; omega) (by dsimp only; omega)

theorem monthAt_succ (i : ℤ) : 29 ≤ monthAt (i + 1) - monthAt i ∧
    monthAt (i + 1) - monthAt i ≤ 31 := by
  have hm : 1 ≤ i % 12 + 1 ∧ i % 12 + 1 ≤ 12 := by omega
  have h := monthStart_next (i / 12) hm.1 hm.2
  rw [nextMonth_index] at h
  exact h

theorem monthAt_mono {i k : ℤ} (h : i ≤ k) : monthAt i ≤ monthAt k := by
  induction k, h using Int.leInduction with
  | base => exact le_rfl
  | succ k _ ih =>
    have := (monthAt_succ k).1
    omega

theorem monthAt_index (jy : ℤ) {jm : ℤ} (hm : 1 ≤ jm) (hm' : jm ≤ 12) :
    monthAt (jy * 12 + jm - 1) = monthStart jy jm ∧
      monthAt (jy * 12 + jm - 1 + 1) =
        monthStart (nextMonth jy jm).1 (nextMonth jy jm).2 := by
  have hyear : (jy * 12 + jm - 1) / 12 = jy := by omega
  have hmonth : (jy * 12 + jm - 1) % 12 + 1 = jm := by omega
  have hnext := nextMonth_index (jy * 12 + jm - 1)
  rw [hyear, hmonth] at hnext
  rw [hnext, monthAt, monthAt, hyear, hmonth]
  exact ⟨rfl, rfl⟩

theorem monthAt_unique {i k day : ℤ} (hi : monthAt i ≤ day) (hi' : day < monthAt (i + 1))
    (hk : monthAt k ≤ day) (hk' : day < monthAt (k + 1)) : i = k := by
  rcases lt_trichotomy i k with hlt | heq | hlt
  · have := monthAt_mono (Int.add_one_le_of_lt hlt)
    omega
  · exact heq
  · have := monthAt_mono (Int.add_one_le_of_lt hlt)
    omega

theorem Places.unique {j j' : JalaliDate} {day : ℤ} (h : Places j day) (h' : Places j' day) :
    j = j' := by
  obtain ⟨hm, hm', hd, hday, hstarts, hends⟩ := h
  obtain ⟨hn, hn', hd', hday', hstarts', hends'⟩ := h'
  obtain ⟨hat, hnext⟩ := monthAt_index j.year hm hm'
  obtain ⟨hat', hnext'⟩ := monthAt_index j'.year hn hn'
  rw [← hat] at hstarts
  rw [← hnext] at hends
  rw [← hat'] at hstarts'
  rw [← hnext'] at hends'
  have hindex := monthAt_unique hstarts hends hstarts' hends'
  have hyear : j.year = j'.year := by omega
  have hmonth : j.month = j'.month := by omega
  rw [← hday', hyear, hmonth, jalaliOrdinal, jalaliOrdinal, jalaliDayNo_eq, jalaliDayNo_eq] at hday
  obtain ⟨y, m, d⟩ := j
  obtain ⟨y', m', d'⟩ := j'
  simp only [JalaliDate.mk.injEq]
  exact ⟨hyear, hmonth, by dsimp only at hday; omega⟩

end Jalali

section Spans

def maxOrdinal : ℤ := daysBeforeYear 10000

theorem year_in_range {c : Civil} (hc : c.Valid) :
    1 ≤ c.year ∧ c.year ≤ 9999 ↔ 1 ≤ c.ordinal ∧ c.ordinal ≤ maxOrdinal := by
  have hlo := hc.lt_ordinal
  have hhi := hc.ordinal_le
  have h1 : daysBeforeYear 1 = 0 := rfl
  constructor
  · rintro ⟨hy, hy'⟩
    have := daysBeforeYear_mono hy
    have := daysBeforeYear_mono (y := c.year + 1) (z := 10000) (by omega)
    rw [maxOrdinal]
    omega
  · rintro ⟨ho, ho'⟩
    constructor
    · by_contra hlt
      have := daysBeforeYear_mono (y := c.year + 1) (z := 1) (by omega)
      omega
    · by_contra hlt
      have := daysBeforeYear_mono (y := 10000) (z := c.year) (by omega)
      rw [maxOrdinal] at ho'
      omega

theorem jalaliToGregorian_isSome {jy jm jd : ℤ} :
    (∃ c, jalaliToGregorian jy jm jd = some c) ↔
      1 ≤ jalaliOrdinal jy jm jd ∧ jalaliOrdinal jy jm jd ≤ maxOrdinal := by
  obtain ⟨hvalid, hordinal⟩ := civilOfDay_spec (jalaliDayNo jy jm jd)
  constructor
  · rintro ⟨c, hc⟩
    obtain ⟨hc, hlo, hhi, ho⟩ := jalaliToGregorian_eq_some.mp hc
    exact ho ▸ (year_in_range hc).mp ⟨hlo, hhi⟩
  · intro hrange
    rw [jalaliOrdinal, ← hordinal] at hrange
    obtain ⟨hlo, hhi⟩ := (year_in_range hvalid).mpr hrange
    exact ⟨_, jalaliToGregorian_eq_some.mpr ⟨hvalid, hlo, hhi, hordinal⟩⟩

theorem jalaliMonthSpan_eq_some {jy jm : ℤ} {span : Date × Date} :
    jalaliMonthSpan jy jm = some span ↔
      span = (monthStart jy jm, monthStart (nextMonth jy jm).1 (nextMonth jy jm).2 - 1) ∧
        (1 ≤ monthStart jy jm ∧ monthStart jy jm ≤ maxOrdinal) ∧
        (1 ≤ monthStart (nextMonth jy jm).1 (nextMonth jy jm).2 ∧
          monthStart (nextMonth jy jm).1 (nextMonth jy jm).2 ≤ maxOrdinal) := by
  simp only [monthStart, ← jalaliToGregorian_isSome, jalaliMonthSpan, Option.bind_eq_bind,
    Option.bind_eq_some_iff, Option.some.injEq]
  constructor
  · rintro ⟨c, hc, c', hc', rfl⟩
    rw [(jalaliToGregorian_eq_some.mp hc).2.2.2, (jalaliToGregorian_eq_some.mp hc').2.2.2]
    exact ⟨rfl, ⟨c, hc⟩, c', hc'⟩
  · rintro ⟨rfl, ⟨c, hc⟩, c', hc'⟩
    rw [← (jalaliToGregorian_eq_some.mp hc).2.2.2, ← (jalaliToGregorian_eq_some.mp hc').2.2.2]
    exact ⟨c, hc, c', hc', rfl⟩

theorem jalali_round_trip {c : Civil} (hc : c.Valid) (hlo : 1 ≤ c.year) (hhi : c.year ≤ 9999) :
    jalaliToGregorian (gregorianToJalali c.year c.month c.day).year
      (gregorianToJalali c.year c.month c.day).month
      (gregorianToJalali c.year c.month c.day).day = some c :=
  jalaliToGregorian_eq_some.mpr ⟨hc, hlo, hhi, (gregorianToJalali_places hc).ordinal.symm⟩

def shiftedSpan (jy jm k : ℤ) : Option (Date × Date) :=
  jalaliMonthSpan (shiftMonth jy jm k).1 (shiftMonth jy jm k).2

/-- The spans of the months counted from one month share no day and leave none
out, as far as `datetime.date` reaches. -/
structure Tiles (jy jm : ℤ) : Prop where
  consecutive : ∀ k s e s' e' : ℤ, shiftedSpan jy jm k = some (s, e) →
    shiftedSpan jy jm (k + 1) = some (s', e') → s' = e + 1
  length : ∀ k s e : ℤ, shiftedSpan jy jm k = some (s, e) → 29 ≤ e - s + 1 ∧ e - s + 1 ≤ 31
  disjoint : ∀ day k s e k' s' e' : ℤ, shiftedSpan jy jm k = some (s, e) →
    shiftedSpan jy jm k' = some (s', e') → s ≤ day → day ≤ e → s' ≤ day → day ≤ e' → k = k'
  covered : ∀ c : Civil, c.Valid → 31 < c.ordinal → c.ordinal + 31 ≤ maxOrdinal →
    ∃ k s e : ℤ, shiftedSpan jy jm k = some (s, e) ∧ s ≤ c.ordinal ∧ c.ordinal ≤ e ∧
      shiftMonth jy jm k = ((gregorianToJalali c.year c.month c.day).year,
        (gregorianToJalali c.year c.month c.day).month)

theorem shiftedSpan_eq_some {jy jm k : ℤ} {span : Date × Date} :
    shiftedSpan jy jm k = some span ↔
      span = (monthAt (jy * 12 + (jm - 1) + k), monthAt (jy * 12 + (jm - 1) + k + 1) - 1) ∧
        1 ≤ monthAt (jy * 12 + (jm - 1) + k) ∧
          monthAt (jy * 12 + (jm - 1) + k + 1) ≤ maxOrdinal := by
  have hnext := monthAt_succ (jy * 12 + (jm - 1) + k)
  rw [shiftedSpan, jalaliMonthSpan_eq_some, shiftMonth, nextMonth_index, ← monthAt]
  refine and_congr_right (fun _ ↦ ⟨fun h ↦ ⟨h.1.1, h.2.2⟩, fun h ↦ ?_⟩)
  refine ⟨⟨h.1, ?_⟩, ?_, h.2⟩
  · have := h.2
    omega
  · have := h.1
    rw [← monthAt]
    omega

theorem monthStart_inj {jy jm jy' jm' : ℤ} (hm : 1 ≤ jm ∧ jm ≤ 12) (hm' : 1 ≤ jm' ∧ jm' ≤ 12)
    (h : monthStart jy jm = monthStart jy' jm') : jy = jy' ∧ jm = jm' := by
  obtain ⟨hat, -⟩ := monthAt_index jy hm.1 hm.2
  obtain ⟨hat', -⟩ := monthAt_index jy' hm'.1 hm'.2
  have hlen := monthAt_succ (jy * 12 + jm - 1)
  have hlen' := monthAt_succ (jy' * 12 + jm' - 1)
  have hindex := monthAt_unique (i := jy * 12 + jm - 1) (k := jy' * 12 + jm' - 1)
    le_rfl (by omega) (by omega) (by omega)
  omega

theorem jalaliMonthSpan_of_years {jy jm : ℤ} (hy : 1 ≤ jy ∧ jy ≤ 9000) (hm : 1 ≤ jm ∧ jm ≤ 12) :
    jalaliMonthSpan jy jm =
      some (monthStart jy jm, monthStart (nextMonth jy jm).1 (nextMonth jy jm).2 - 1) := by
  obtain ⟨hat, hnext⟩ := monthAt_index jy hm.1 hm.2
  have hfirst : 1 ≤ monthAt 12 := by decide
  have hlast : monthAt (9000 * 12 + 12) ≤ maxOrdinal := by decide
  have hlow := monthAt_mono (i := 12) (k := jy * 12 + jm - 1) (by omega)
  have hhigh := monthAt_mono (i := jy * 12 + jm - 1 + 1) (k := 9000 * 12 + 12) (by omega)
  have hlen := monthAt_succ (jy * 12 + jm - 1)
  rw [jalaliMonthSpan_eq_some, ← hat, ← hnext]
  exact ⟨rfl, ⟨by omega, by omega⟩, by omega, by omega⟩

theorem spans_tile (jy jm : ℤ) : Tiles jy jm := by
  refine ⟨fun k s e s' e' h h' ↦ ?_, fun k s e h ↦ ?_, fun day k s e k' s' e' h h' hs he hs' he' ↦ ?_,
    fun c hc hlo hhi ↦ ?_⟩
  · obtain ⟨hspan, _⟩ := shiftedSpan_eq_some.mp h
    obtain ⟨hspan', _⟩ := shiftedSpan_eq_some.mp h'
    obtain ⟨rfl, rfl⟩ := Prod.mk.inj hspan
    obtain ⟨rfl, rfl⟩ := Prod.mk.inj hspan'
    have hk : jy * 12 + (jm - 1) + (k + 1) = jy * 12 + (jm - 1) + k + 1 := by omega
    rw [hk]
    omega
  · obtain ⟨hspan, _⟩ := shiftedSpan_eq_some.mp h
    obtain ⟨rfl, rfl⟩ := Prod.mk.inj hspan
    have := monthAt_succ (jy * 12 + (jm - 1) + k)
    omega
  · obtain ⟨hspan, _⟩ := shiftedSpan_eq_some.mp h
    obtain ⟨hspan', _⟩ := shiftedSpan_eq_some.mp h'
    obtain ⟨rfl, rfl⟩ := Prod.mk.inj hspan
    obtain ⟨rfl, rfl⟩ := Prod.mk.inj hspan'
    have := monthAt_unique hs (Int.lt_of_le_sub_one he) hs' (Int.lt_of_le_sub_one he')
    omega
  · obtain ⟨hm, hm', _, _, hstarts, hends⟩ := gregorianToJalali_places hc
    generalize gregorianToJalali c.year c.month c.day = j at *
    obtain ⟨hat, hnext⟩ := monthAt_index j.year hm hm'
    rw [← hnext] at hends
    have hlen := monthAt_succ (j.year * 12 + j.month - 1)
    have hk : jy * 12 + (jm - 1) + (j.year * 12 + j.month - 1 - (jy * 12 + (jm - 1))) =
        j.year * 12 + j.month - 1 := by omega
    refine ⟨j.year * 12 + j.month - 1 - (jy * 12 + (jm - 1)), _, _,
      shiftedSpan_eq_some.mpr ⟨rfl, ?_, ?_⟩, ?_, ?_, ?_⟩
    · rw [hk]
      omega
    · rw [hk]
      omega
    · rw [hk]
      omega
    · rw [hk]
      omega
    · rw [shiftMonth, hk]
      exact Prod.ext (by dsimp only; omega) (by dsimp only; omega)

end Spans

end TalaPala.Economic
