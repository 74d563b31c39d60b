import TalaPala.Library.Grid

namespace TalaPala.Prices

open Library

abbrev second : ℤ := 1000000

structure CandleInterval where
  name : String
  seconds : ℤ
  weekly : Bool := false
  seconds_pos : 0 < seconds := by decide
  weekly_seconds : weekly = true → seconds = 604800 := by decide

def hourInterval : CandleInterval := { name := "1h", seconds := 3600 }

def fourHourInterval : CandleInterval := { name := "4h", seconds := 14400 }

def dayInterval : CandleInterval := { name := "1d", seconds := 86400 }

def candleIntervals : List CandleInterval :=
  [{ name := "5m", seconds := 300 }, { name := "10m", seconds := 600 },
    { name := "15m", seconds := 900 }, { name := "20m", seconds := 1200 },
    { name := "30m", seconds := 1800 }, { name := "45m", seconds := 2700 }, hourInterval,
    { name := "2h", seconds := 7200 }, { name := "3h", seconds := 10800 }, fourHourInterval,
    { name := "6h", seconds := 21600 }, { name := "8h", seconds := 28800 },
    { name := "12h", seconds := 43200 }, dayInterval, { name := "2d", seconds := 172800 },
    { name := "3d", seconds := 259200 }, { name := "1w", seconds := 604800, weekly := true }]

def epochGrid (seconds : ℤ) (h : 0 < seconds) : Grid where
  origin := 0
  width := seconds * second
  width_pos := Int.mul_pos h (by decide)

/-- `t.Unix()`: whole seconds, rounded down. -/
def unix (t : ℤ) : ℤ := t / second

def floorEpoch (t seconds : ℤ) : ℤ :=
  let s := unix t
  let q := s.tdiv seconds
  let q := if s < 0 ∧ s.tmod seconds ≠ 0 then q - 1 else q
  q * seconds * second

def weekday (day : ℤ) : ℤ := (day + 4) % 7

def floorWeekUTC (t : ℤ) : ℤ :=
  let day := t / (86400 * second)
  (day - (weekday day + 6) % 7) * (86400 * second)

namespace CandleInterval

def bucketStart (iv : CandleInterval) (t : ℤ) : ℤ :=
  if iv.weekly then floorWeekUTC t else floorEpoch t iv.seconds

def bucketEnd (iv : CandleInterval) (start : ℤ) : ℤ := start + iv.seconds * second

def bucketCeil (iv : CandleInterval) (t : ℤ) : ℤ :=
  let start := iv.bucketStart t
  if start = t then start else iv.bucketEnd start

def confirmed (iv : CandleInterval) (start now : ℤ) : Bool := !decide (now < iv.bucketEnd start)

/-- The bucket of a row in the query: the start of its ISO week, or
`floor(extract(epoch from observed_at) / n) * n`. -/
def bucketExpr (iv : CandleInterval) (observedAt : ℤ) : ℤ :=
  if iv.weekly then
    observedAt - (observedAt + 3 * (86400 * second)) % (7 * (86400 * second))
  else observedAt / (iv.seconds * second) * (iv.seconds * second)

def grid (iv : CandleInterval) : Grid where
  origin := if iv.weekly then -(3 * (86400 * second)) else 0
  width := iv.seconds * second
  width_pos := Int.mul_pos iv.seconds_pos (by decide)

end CandleInterval

theorem floorEpoch_eq {seconds : ℤ} (h : 0 < seconds) (t : ℤ) :
    floorEpoch t seconds = t / (seconds * second) * (seconds * second) := by
  have hdiv : unix t / seconds = t / (seconds * second) := by
    rw [unix, Int.ediv_ediv_of_nonneg (by decide), mul_comm]
  have hq : (if unix t < 0 ∧ (unix t).tmod seconds ≠ 0 then (unix t).tdiv seconds - 1
      else (unix t).tdiv seconds) = unix t / seconds := by
    have hdvd := Int.dvd_iff_tmod_eq_zero (a := seconds) (b := unix t)
    have htdiv := Int.tdiv_eq_ediv (a := unix t) (b := seconds)
    rw [Int.sign_eq_one_of_pos h] at htdiv
    by_cases hneg : unix t < 0 ∧ (unix t).tmod seconds ≠ 0
    · have hrest : ¬ (0 ≤ unix t ∨ seconds ∣ unix t) := by
        rw [not_or, hdvd]
        exact ⟨not_le.mpr hneg.1, hneg.2⟩
      rw [if_neg hrest] at htdiv
      rw [if_pos hneg, htdiv]
      omega
    · have hrest : 0 ≤ unix t ∨ seconds ∣ unix t := by
        rw [hdvd, ← not_lt]
        tauto
      rw [if_pos hrest] at htdiv
      rw [if_neg hneg, htdiv]
      omega
  rw [floorEpoch]
  simp only [hq]
  rw [hdiv, mul_assoc]

theorem floorWeekUTC_eq (t : ℤ) : floorWeekUTC t =
    t - (t + 3 * (86400 * second)) % (7 * (86400 * second)) := by
  simp only [floorWeekUTC, weekday, second]
  omega

namespace CandleInterval

theorem bucketExpr_eq (iv : CandleInterval) (t : ℤ) : iv.bucketExpr t = iv.grid.floor t := by
  rw [bucketExpr, Grid.floor, grid]
  split
  · rename_i hw
    have hs := iv.weekly_seconds hw
    simp only [second, hs]
    omega
  · rename_i hw
    simp only [sub_zero]
    have := Int.emod_add_mul_ediv t (iv.seconds * second)
    rw [mul_comm]
    omega

theorem bucketStart_eq (iv : CandleInterval) (t : ℤ) : iv.bucketStart t = iv.grid.floor t := by
  rw [← bucketExpr_eq, bucketStart, bucketExpr, floorWeekUTC_eq, floorEpoch_eq iv.seconds_pos]

theorem bucketExpr_eq_bucketStart (iv : CandleInterval) (t : ℤ) :
    iv.bucketExpr t = iv.bucketStart t := by
  rw [bucketExpr_eq, bucketStart_eq]

theorem isBoundary_bucketStart (iv : CandleInterval) (t : ℤ) :
    iv.grid.IsBoundary (iv.bucketStart t) :=
  iv.bucketStart_eq t ▸ Grid.isBoundary_floor t

theorem bucketCeil_eq (iv : CandleInterval) (t : ℤ) : iv.bucketCeil t = iv.grid.ceil t := by
  simp only [bucketCeil, Grid.ceil, bucketStart_eq]
  split
  · assumption
  · rfl

theorem confirmed_iff (iv : CandleInterval) (start now : ℤ) :
    iv.confirmed start now = true ↔ start + iv.grid.width ≤ now := by
  rw [confirmed, Bool.not_eq_true', decide_eq_false_iff_not, not_lt]
  rfl

end CandleInterval

end TalaPala.Prices
