import TalaPala.Forecast.Features
import TalaPala.Economic.Jalali
import TalaPala.Library.Trailing

namespace TalaPala.Forecast.Valued

open Library

/-- The arithmetic of the cells of a frame, undefined ones included. Nothing below rests on a law
of it. -/
class Cells (C : Type*) extends Add C, Sub C, Mul C, Div C, Neg C where
  nan : C
  isNaN : C → Bool
  isFinite : C → Bool
  /-- Comparisons, which are false of an undefined cell. -/
  lt : C → C → Bool
  eq : C → C → Bool
  lit : ℚ → C
  sqrt : C → C
  log : C → C
  exp : C → C
  /-- The skewness of a window, and the correlation of two. -/
  skew : List C → C
  corr : List (C × C) → C

open Cells

variable {C : Type*} [Cells C]

section Cell

def abs (x : C) : C := if lt x (lit 0) then -x else x

def sign (x : C) : C :=
  if isNaN x then nan else if lt (lit 0) x then lit 1 else if lt x (lit 0) then lit (-1) else lit 0

def clipLower (bound x : C) : C := if lt x bound then bound else x

def clipUpper (bound x : C) : C := if lt bound x then bound else x

def replaceZero (x : C) : C := if eq x (lit 0) then nan else x

def fillna (value x : C) : C := if isNaN x then value else x

def sum (xs : List C) : C := xs.foldl (· + ·) (lit 0)

def mean (xs : List C) : C := sum xs / lit xs.length

def std (xs : List C) : C :=
  sqrt (sum (xs.map (fun x ↦ (x - mean xs) * (x - mean xs))) / lit (xs.length - 1))

def maxOf : List C → C
  | [] => nan
  | x :: rest => rest.foldl (fun m x ↦ if lt m x then x else m) x

def minOf : List C → C
  | [] => nan
  | x :: rest => rest.foldl (fun m x ↦ if lt x m then x else m) x

def medianOf (xs : List C) : C :=
  let s := xs.insertionSort (fun a b ↦ lt b a = false)
  if xs.length % 2 = 1 then s.getD (xs.length / 2) nan
  else (s.getD (xs.length / 2 - 1) nan + s.getD (xs.length / 2) nan) / lit 2

def meanAbsDev (xs : List C) : C := mean (xs.map (fun x ↦ abs (x - mean xs)))

def defined (xs : List C) : List C := xs.filter (fun x ↦ !isNaN x)

/-- The last `window` cells, when enough of them are defined. -/
def rollingAt (window minPeriods : ℕ) (f : List C → C) (before : List C) : C :=
  let seen := defined (newest window before)
  if seen.length < minPeriods then nan else f seen

/-- One step of `ewm(adjust=False).mean()`: the average and the weight of what it was. -/
def ewmStep (alpha : ℚ) : Option (C × C) → C → Option (C × C) × C
  | none, x => if isNaN x then (none, nan) else (some (x, lit 1), x)
  | some (weighted, oldWt), x =>
    let oldWt := oldWt * lit (1 - alpha)
    if isNaN x then (some (weighted, oldWt), weighted)
    else
      let weighted :=
        if eq weighted x then weighted
        else (oldWt * weighted + lit alpha * x) / (oldWt + lit alpha)
      (some (weighted, lit 1), weighted)

def streakStep : Option C → C → Option C × C
  | none, _ => (some (lit 0), lit 0)
  | some before, s =>
    let next :=
      if eq s (lit 0) then lit 0
      else if lt (lit 0) (before * s) then before + s
      else s
    (some next, next)

def stackCell (close fast mid slow : C) : C :=
  let bullish := lt fast close && lt mid fast && lt slow mid
  let bearish := lt close fast && lt fast mid && lt mid slow
  let state := if bullish then lit 1 else if bearish then lit (-1) else lit 0
  if isNaN fast || isNaN mid || isNaN slow || isNaN close then nan else state

def stackRunStep : ℤ × C → C → (ℤ × C) × C
  | (count, previous), current =>
    if isNaN current then ((0, nan), nan)
    else
      let count := if eq current previous then count + 1 else 1
      ((count, current), current * lit count)

end Cell

structure Bar (C : Type*) where
  time : ℤ
  close : C

abbrev Column (C : Type*) := Causal (Bar C) C

namespace Column

instance : Add (Column C) := ⟨Causal.map₂ (· + ·)⟩

instance : Sub (Column C) := ⟨Causal.map₂ (· - ·)⟩

instance : Mul (Column C) := ⟨Causal.map₂ (· * ·)⟩

instance : Div (Column C) := ⟨Causal.map₂ (· / ·)⟩

instance : Neg (Column C) := ⟨Causal.map (- ·)⟩

def num (q : ℚ) : Column C := .ofEntry (fun _ ↦ lit q)

def price : Column C := .ofEntry Bar.close

def shift (k : ℕ) (s : Column C) : Column C := s.andThen (shiftBy k nan) (isCausal_shiftBy k nan)

/-- The forward fill of `pct_change`. -/
def pad (s : Column C) : Column C :=
  s.andThen (running (fun last x ↦ (fillna last x, fillna last x)) nan) (isCausal_running _ _)

def pctChange (k : ℕ) (s : Column C) : Column C := pad s / shift k (pad s) - num 1

def diff (k : ℕ) (s : Column C) : Column C := s - shift k s

def rollingMin (window minPeriods : ℕ) (f : List C → C) (s : Column C) : Column C :=
  s.andThen (along (rollingAt window minPeriods f)) (isCausal_along _)

/-- `s.rolling(window)`: without `min_periods` the window has to be full. -/
def rolling (window : ℕ) (f : List C → C) (s : Column C) : Column C := rollingMin window window f s

def ewm (alpha : ℚ) (s : Column C) : Column C :=
  s.andThen (running (ewmStep alpha) none) (isCausal_running _ _)

/-- `s.where(keep, other)`. -/
def select (keep : Causal (Bar C) Bool) (s other : Column C) : Column C :=
  (keep.map₂ Prod.mk s).map₂ (fun (keep, x) y ↦ if keep then x else y) other

def rowMax (s t u : Column C) : Column C :=
  (s.map₂ Prod.mk t).map₂ (fun (x, y) z ↦ maxOf (defined [x, y, z])) u

def rsi (s : Column C) (period : ℕ) : Column C :=
  let delta := diff 1 s
  let gain := rolling period mean (delta.map (clipLower (lit 0)))
  let loss := rolling period mean (-(delta.map (clipUpper (lit 0))))
  let rs := gain / loss.map replaceZero
  let out := num 100 - num 100 / (num 1 + rs)
  select (loss.map₂ (fun loss gain ↦ !eq loss (lit 0) || isNaN gain) gain) out (num 100)

/-- The average of `ema_series`, seeded with the mean of the first cells. -/
def emaSeries (s : Column C) (period : ℕ) : Column C :=
  let k : C := lit 2 / (lit period + lit 1)
  s.andThen (seeded period nan (fun first ↦ sum first / lit period)
    (fun current value ↦ (value - current) * k + current)) (isCausal_seeded _ _ _ _)

def stackState (close fast mid slow : Column C) : Column C :=
  (close.map₂ Prod.mk fast).map₂ (fun (close, fast) (mid, slow) ↦ stackCell close fast mid slow)
    (mid.map₂ Prod.mk slow)

def stackRun (state : Column C) : Column C :=
  state.andThen (running stackRunStep (0, nan)) (isCausal_running _ _)

section Indicators

def streak (close : Column C) : Column C :=
  let retSign := ((diff 1 close).map sign).map (fillna (lit 0))
  ((retSign.andThen (running streakStep none) (isCausal_running _ _)).map (clipLower (lit (-10)))).map
    (clipUpper (lit 10))

def garchVol (close : Column C) : Column C :=
  let ret := pctChange 1 close
  (ewm (6 / 100) (ret * ret)).map sqrt

variable (close : Column C)

def high : Column C := rolling 2 maxOf close

def low : Column C := rolling 2 minOf close

def trueRange : Column C :=
  let prevClose := shift 1 close
  rowMax (high close - low close) ((high close - prevClose).map abs) ((low close - prevClose).map abs)

def adx : Column C :=
  let upMove := diff 1 (high close)
  let downMove := -diff 1 (low close)
  let directed : C → C → C := fun own other ↦
    if lt other own && lt (lit 0) own then own else lit 0
  let plusDm := upMove.map₂ directed downMove
  let minusDm := downMove.map₂ directed upMove
  let atr := (rolling 14 mean (trueRange close)).map replaceZero
  let plusDi := num 100 * rolling 14 mean plusDm / atr
  let minusDi := num 100 * rolling 14 mean minusDm / atr
  let dx := num 100 * (plusDi - minusDi).map abs / (plusDi + minusDi).map replaceZero
  rolling 14 mean dx

def high14 : Column C := rolling 14 maxOf (high close)

def low14 : Column C := rolling 14 minOf (low close)

def stochRange : Column C := (high14 close - low14 close).map replaceZero

def stochK : Column C := num 100 * (close - low14 close) / stochRange close

def cci : Column C :=
  let tp := (high close + low close + close) / num 3
  let tpMean := rolling 20 mean tp
  let tpMad := rolling 20 meanAbsDev tp
  (tp - tpMean) / (num (15 / 1000) * tpMad.map replaceZero)

def keltner : Column C :=
  let ema := ewm (2 / 21) close
  let atr := (rolling 20 mean (trueRange close)).map replaceZero
  (close - ema) / (num 2 * atr)

end Indicators

def priceColumns (close : Column C) : List (String × Column C) :=
  [("close", close)] ++
    [1, 2, 3, 5, 10, 20].flatMap (fun (k : ℕ) ↦
      [(s!"lag_{k}", shift k close), (s!"ret_{k}", pctChange k close)]) ++
    [5, 10, 20].flatMap (fun (w : ℕ) ↦
      [(s!"roll_mean_{w}", rolling w mean close), (s!"roll_std_{w}", rolling w std close),
        (s!"close_vs_mean_{w}", close / rolling w mean close - num 1)]) ++
    [("momentum_10", close / shift 10 close - num 1), ("rsi_14", rsi close 14),
      ("rsi_7", rsi close 7), ("vol_20", rolling 20 std (pctChange 1 close)),
      ("streak", streak close), ("ret_skew_20", rolling 20 skew (pctChange 1 close)),
      ("garch_vol", garchVol close), ("garch_vol_ratio_60",
        garchVol close / (rollingMin 60 20 mean (garchVol close)).map replaceZero),
      ("ret_med_5", rolling 5 medianOf (pctChange 1 close)), ("adx_14", adx close),
      ("stoch_k", stochK close), ("stoch_d", rolling 3 mean (stochK close)),
      ("williams_r_14", num (-100) * (high14 close - close) / stochRange close),
      ("cci_20", cci close),
      ("donchian_upper_dist_20", close / rolling 20 maxOf (high close) - num 1),
      ("donchian_lower_dist_20", close / rolling 20 minOf (low close) - num 1),
      ("keltner_pos_20", keltner close)]

/-- The columns of `daily_trend_stack`. -/
def dailyTrendStack (close : Column C) (index : List ℤ) (barSpacing : Option Spacing)
    (minHistory : Option ℕ) : List (String × Column C) :=
  if barSpacing.getD (inferBarSpacing index) ≠ .daily then []
  else
    let shortest := minHistory.getD walkForwardMinBars
    if shortest < trendMid then []
    else
      let fast := emaSeries close 26
      let mid := emaSeries close trendMid
      let columns := [("close_vs_ema_26", close / fast - num 1),
        ("ema26_vs_ema48", fast / mid - num 1)]
      if shortest < trendSlow then columns
      else
        let slow := emaSeries close trendSlow
        let state := stackState close fast mid slow
        columns ++ [("ema48_vs_ema220", mid / slow - num 1), ("trend_stack_1d", state),
          ("trend_stack_run", stackRun state)]

section Calendar

def dayOf (t : ℤ) : ℤ := t / 86400

def dayOfWeek (t : ℤ) : ℤ := (dayOf t + 3) % 7

def hourOf (t : ℤ) : ℤ := t % 86400 / 3600

def jalaliMonth (t : ℤ) : ℤ :=
  let date := Economic.civilOfDay (dayOf t + 719163 - daysBeforeYear 1600 - 1)
  (Economic.gregorianToJalali date.year date.month date.day).month

def ofTime (g : ℤ → ℤ) : Column C := .ofEntry (fun bar ↦ lit (g bar.time))

def calendarColumns (close : Column C) : List (String × Column C) :=
  [("drawdown_90d_pct", (close / rollingMin 90 1 maxOf close - num 1) * num 100),
      ("dow", ofTime dayOfWeek)] ++
    (List.range 7).map (fun d ↦ (s!"dow_{d}", ofTime (fun t ↦ if dayOfWeek t = d then 1 else 0))) ++
    [("hour", ofTime hourOf), ("jalali_month", ofTime jalaliMonth)]

end Calendar

end Column

end TalaPala.Forecast.Valued
