import TalaPala.Prices.Overlays
import Mathlib.Data.List.GetD
import Mathlib.Tactic.Linarith
import Mathlib.Tactic.FieldSimp
import Mathlib.Tactic.Positivity

namespace TalaPala.Indicators

open Library List

variable {K : Type*}

structure Reading (K : Type*) where
  finalUpper : K
  finalLower : K
  dir : ℤ

def Reading.line (r : Reading K) : K := if r.dir = 1 then r.finalLower else r.finalUpper

theorem line_of_dir_one {r : Reading K} (h : r.dir = 1) : r.line = r.finalLower := by
  rw [Reading.line, if_pos h]

theorem line_of_dir_neg {r : Reading K} (h : r.dir = -1) : r.line = r.finalUpper := by
  rw [Reading.line, h, if_neg (by decide)]

section Bands

variable [LinearOrder K] (last : Option (Reading K)) (prevClose : K)

def ratchetUpper (upper : K) : K :=
  match last with
  | none => upper
  | some r => if upper < r.finalUpper ∨ r.finalUpper < prevClose then upper else r.finalUpper

def ratchetLower (lower : K) : K :=
  match last with
  | none => lower
  | some r => if r.finalLower < lower ∨ prevClose < r.finalLower then lower else r.finalLower

def nextDir (prevDir : ℤ) (mid close finalLower finalUpper : K) : ℤ :=
  if prevDir = 0 then if mid ≤ close then 1 else -1
  else if prevDir = 1 ∧ close < finalLower then -1
  else if prevDir = -1 ∧ finalUpper < close then 1
  else prevDir

variable {prevClose} {r : Reading K}

theorem le_ratchetLower {lower : K} (h : r.finalLower ≤ prevClose) :
    r.finalLower ≤ ratchetLower (some r) prevClose lower := by
  unfold ratchetLower
  dsimp only
  split_ifs with hmoved
  · exact (hmoved.resolve_right (not_lt.mpr h)).le
  · exact le_rfl

theorem ratchetUpper_le {upper : K} (h : prevClose ≤ r.finalUpper) :
    ratchetUpper (some r) prevClose upper ≤ r.finalUpper := by
  unfold ratchetUpper
  dsimp only
  split_ifs with hmoved
  · exact (hmoved.resolve_right (not_lt.mpr h)).le
  · exact le_rfl

end Bands

variable [Field K]

section Slices

/-- A value of the slice, which is `none` where it holds no number. -/
def value (s : List (Option K)) (i : ℕ) : Option K := s.getD i none

theorem entry_append {s t : List K} {i : ℕ} (hi : i < s.length) :
    entry (s ++ t) i = entry s i :=
  getD_append _ _ _ _ hi

end Slices

structure SameLength {α : Type*} (high low closes : List α) : Prop where
  length_high : high.length = closes.length
  length_low : low.length = closes.length

theorem SameLength.append {α : Type*} {high low closes high' low' closes' : List α}
    (h : SameLength high low closes) (h' : SameLength high' low' closes') :
    SameLength (high ++ high') (low ++ low') (closes ++ closes') where
  length_high := by rw [length_append, length_append, h.length_high, h'.length_high]
  length_low := by rw [length_append, length_append, h.length_low, h'.length_low]

variable [LinearOrder K]

structure Ohlc (high low closes : List K) : Prop extends SameLength high low closes where
  low_le : ∀ i < closes.length, entry low i ≤ entry closes i
  le_high : ∀ i < closes.length, entry closes i ≤ entry high i

section TrueRange

variable (high low closes : List K) (period : ℤ)

def trueRange (i : ℕ) : K :=
  if i = 0 then entry high 0 - entry low 0
  else
    let hl := entry high i - entry low i
    let hc := |entry high i - entry closes (i - 1)|
    let lc := |entry low i - entry closes (i - 1)|
    max hl (max hc lc)

/-- The average the loop holds after bar `i`, from the mean of the first true ranges. -/
def wilder (i : ℕ) : K :=
  indexLoop (fun prev j ↦ (prev * (period - 1 : ℤ) + trueRange high low closes j) / period)
    (((List.range' 1 period.toNat).map (trueRange high low closes)).sum / period)
    (period.toNat + 1) (i + 1)

def atr : List (Option K) :=
  let n := closes.length
  if period ≤ 0 ∨ (n : ℤ) < period + 1 ∨ high.length ≠ n ∨ low.length ≠ n then
    List.replicate n none
  else
    (List.range n).map (fun i : ℕ ↦
      if (i : ℤ) < period then none else some (wilder high low closes period i))

end TrueRange

section Bar

variable (high low closes : List K)

/-- The upper band of bar `i`, from the bands before it and its average range. -/
def nextUpper (mult a : K) (last : Option (Reading K)) (i : ℕ) : K :=
  ratchetUpper last (entry closes (i - 1)) (mid high low i + mult * a)

def nextLower (mult a : K) (last : Option (Reading K)) (i : ℕ) : K :=
  ratchetLower last (entry closes (i - 1)) (mid high low i - mult * a)

def banded (mult a : K) (last : Option (Reading K)) (i : ℕ) : Reading K :=
  let finalUpper := nextUpper high low closes mult a last i
  let finalLower := nextLower high low closes mult a last i
  let prevDir := last.elim 0 Reading.dir
  ⟨finalUpper, finalLower, nextDir prevDir (mid high low i) (entry closes i) finalLower finalUpper⟩

variable (period : ℤ) (mult : K)

def superTrendBar (last : Option (Reading K)) (i : ℕ) : Option (Reading K) :=
  (value (atr high low closes period) i).map (fun a ↦ banded high low closes mult a last i)

/-- The last entries when the loop is about to do bar `t`. -/
def readingAt (t : ℕ) : Option (Reading K) :=
  indexLoop (superTrendBar high low closes period mult) none 0 t

def superTrend : List (Option K) × List ℤ :=
  let n := closes.length
  ((List.range n).map (fun i ↦ (readingAt high low closes period mult (i + 1)).map Reading.line),
    (List.range n).map (fun i ↦ (readingAt high low closes period mult (i + 1)).elim 0 Reading.dir))

structure Trails : Prop where
  below : ∀ i, (superTrend high low closes period mult).2[i]? = some 1 →
    ∃ x, (superTrend high low closes period mult).1[i]? = some (some x) ∧ x ≤ entry closes i
  above : ∀ i, (superTrend high low closes period mult).2[i]? = some (-1) →
    ∃ x, (superTrend high low closes period mult).1[i]? = some (some x) ∧ entry closes i ≤ x
  rising : ∀ (i : ℕ) (x y : K), (superTrend high low closes period mult).2[i]? = some 1 →
    (superTrend high low closes period mult).2[i + 1]? = some 1 →
    (superTrend high low closes period mult).1[i]? = some (some x) →
    (superTrend high low closes period mult).1[i + 1]? = some (some y) → x ≤ y
  falling : ∀ (i : ℕ) (x y : K), (superTrend high low closes period mult).2[i]? = some (-1) →
    (superTrend high low closes period mult).2[i + 1]? = some (-1) →
    (superTrend high low closes period mult).1[i]? = some (some x) →
    (superTrend high low closes period mult).1[i + 1]? = some (some y) → y ≤ x
  stable : ∀ high' low' closes', SameLength high' low' closes' → ∀ i < closes.length,
    (superTrend (high ++ high') (low ++ low') (closes ++ closes') period mult).1[i]? =
        (superTrend high low closes period mult).1[i]? ∧
      (superTrend (high ++ high') (low ++ low') (closes ++ closes') period mult).2[i]? =
        (superTrend high low closes period mult).2[i]?

/-- From the bands before bar `i` and the bar: it closes between bands that have crossed,
above its upper band and below its lower one. -/
def Squeezed (i : ℕ) : Prop :=
  ∃ r a, readingAt high low closes period mult i = some r ∧
    value (atr high low closes period) i = some a ∧
    nextUpper high low closes mult a (some r) i < entry closes i ∧
    entry closes i < nextLower high low closes mult a (some r) i

end Bar

section Average

variable {high low closes high' low' closes' : List K} {period : ℤ} {i : ℕ}

theorem trueRange_append (h : SameLength high low closes) (hi : i < closes.length) :
    trueRange (high ++ high') (low ++ low') (closes ++ closes') i = trueRange high low closes i := by
  have hhigh : ∀ j ≤ i, entry (high ++ high') j = entry high j :=
    fun j hj ↦ entry_append (by rw [h.length_high]; omega)
  have hlow : ∀ j ≤ i, entry (low ++ low') j = entry low j :=
    fun j hj ↦ entry_append (by rw [h.length_low]; omega)
  have hclose : entry (closes ++ closes') (i - 1) = entry closes (i - 1) :=
    entry_append (by omega)
  rw [trueRange, trueRange, hhigh 0 (Nat.zero_le i), hlow 0 (Nat.zero_le i), hhigh i le_rfl,
    hlow i le_rfl, hclose]

theorem sub_le_trueRange (i : ℕ) :
    entry high i - entry low i ≤ trueRange high low closes i := by
  unfold trueRange
  split_ifs with h
  · rw [h]
  · exact le_max_left _ _

theorem wilder_of_le (h : i ≤ period.toNat) :
    wilder high low closes period i =
      ((List.range' 1 period.toNat).map (trueRange high low closes)).sum / period :=
  indexLoop_of_le (Nat.succ_le_succ h)

theorem wilder_succ (h : period.toNat ≤ i) :
    wilder high low closes period (i + 1) =
      (wilder high low closes period i * (period - 1 : ℤ) + trueRange high low closes (i + 1)) /
        period :=
  indexLoop_succ (Nat.succ_le_succ h)

theorem wilder_append (h : SameLength high low closes) (hi : i < closes.length)
    (hperiod : period ≤ i) :
    wilder (high ++ high') (low ++ low') (closes ++ closes') period i =
      wilder high low closes period i := by
  have hseed : (List.range' 1 period.toNat).map
        (trueRange (high ++ high') (low ++ low') (closes ++ closes')) =
      (List.range' 1 period.toNat).map (trueRange high low closes) := by
    refine map_congr_left (fun j hj ↦ trueRange_append h ?_)
    have hj := mem_range'_1.mp hj
    omega
  rw [wilder, wilder, hseed]
  refine indexLoop_rel (R := Eq) rfl (fun s s' j _ hj hs ↦ ?_) (Nat.succ_le_of_lt hi)
  rw [hs, trueRange_append h hj]

theorem value_atr (h : SameLength high low closes) (hi : i < closes.length) :
    value (atr high low closes period) i =
      if 0 < period ∧ period ≤ i then some (wilder high low closes period i) else none := by
  unfold value atr
  dsimp only
  by_cases hshort : period ≤ 0 ∨ (closes.length : ℤ) < period + 1
  · have hnone : ¬ (0 < period ∧ period ≤ i) := by omega
    rw [if_pos (hshort.imp_right Or.inl), if_neg hnone, getD_eq_getElem?_getD,
      getElem?_replicate, if_pos hi]
    rfl
  · have hlong : ¬ (period ≤ 0 ∨ (closes.length : ℤ) < period + 1 ∨
        high.length ≠ closes.length ∨ low.length ≠ closes.length) := by
      simp only [h.length_high, h.length_low, ne_eq, not_true, or_false]
      exact hshort
    rw [if_neg hlong, getD_eq_getElem?_getD, getElem?_map, getElem?_range hi]
    by_cases hle : period ≤ i
    · rw [if_pos ⟨by omega, hle⟩]
      simp [not_lt.mpr hle]
    · rw [if_neg (fun hboth ↦ hle hboth.2)]
      simp [not_le.mp hle]

theorem value_atr_append (h : SameLength high low closes) (h' : SameLength high' low' closes')
    (hi : i < closes.length) :
    value (atr (high ++ high') (low ++ low') (closes ++ closes') period) i =
      value (atr high low closes period) i := by
  have hlt : i < (closes ++ closes').length := by rw [length_append]; omega
  rw [value_atr (h.append h') hlt, value_atr h hi]
  split_ifs with hle
  · rw [wilder_append h hi hle.2]
  · rfl

end Average

section Reading

variable {high low closes : List K} {period : ℤ} {mult a : K} {last : Option (Reading K)}
  {r : Reading K} {i t : ℕ}

theorem readingAt_succ (t : ℕ) :
    readingAt high low closes period mult (t + 1) =
      superTrendBar high low closes period mult (readingAt high low closes period mult t) t :=
  indexLoop_succ (Nat.zero_le t)

theorem readingAt_eq_some (h : readingAt high low closes period mult (t + 1) = some r) :
    ∃ a, value (atr high low closes period) t = some a ∧
      r = banded high low closes mult a (readingAt high low closes period mult t) t := by
  rw [readingAt_succ, superTrendBar] at h
  obtain ⟨a, ha, rfl⟩ := Option.map_eq_some_iff.mp h
  exact ⟨a, ha, rfl⟩

theorem dir_banded (hdir : ∀ s, last = some s → s.dir = 1 ∨ s.dir = -1) :
    (banded high low closes mult a last i).dir = 1 ∨
      (banded high low closes mult a last i).dir = -1 := by
  unfold banded nextDir
  dsimp only
  cases last with
  | none =>
    rw [Option.elim_none, if_pos rfl]
    split_ifs <;> simp
  | some s =>
    rw [Option.elim_some]
    have hs := hdir s rfl
    have hne : s.dir ≠ 0 := by omega
    rw [if_neg hne]
    split_ifs <;> omega

theorem readingAt_dir (h : readingAt high low closes period mult t = some r) :
    r.dir = 1 ∨ r.dir = -1 := by
  induction t generalizing r with
  | zero => cases h
  | succ t ih =>
    obtain ⟨a, -, rfl⟩ := readingAt_eq_some h
    exact dir_banded (fun _ hs ↦ ih hs)

def OnSide (closes : List K) (i : ℕ) (r : Reading K) : Prop :=
  r.dir = 1 ∧ r.finalLower ≤ entry closes i ∨ r.dir = -1 ∧ entry closes i ≤ r.finalUpper

theorem OnSide.lower_le (h : OnSide closes i r) (hdir : r.dir = 1) :
    r.finalLower ≤ entry closes i := by
  rcases h with ⟨-, hle⟩ | ⟨hdown, -⟩
  · exact hle
  · rw [hdir] at hdown
    exact absurd hdown (by decide)

theorem OnSide.le_upper (h : OnSide closes i r) (hdir : r.dir = -1) :
    entry closes i ≤ r.finalUpper := by
  rcases h with ⟨hup, -⟩ | ⟨-, hle⟩
  · rw [hdir] at hup
    exact absurd hup (by decide)
  · exact hle

theorem onSide_banded_iff (hdir : r.dir = 1 ∨ r.dir = -1) :
    OnSide closes i (banded high low closes mult a (some r) i) ↔
      ¬ (nextUpper high low closes mult a (some r) i < entry closes i ∧
        entry closes i < nextLower high low closes mult a (some r) i) := by
  unfold OnSide banded nextDir
  dsimp only
  rw [Option.elim_some]
  set upper := nextUpper high low closes mult a (some r) i
  set lower := nextLower high low closes mult a (some r) i
  rcases hdir with hup | hdown
  · rw [hup, if_neg one_ne_zero]
    by_cases hlt : entry closes i < lower
    · rw [if_pos ⟨rfl, hlt⟩]
      simp [hlt]
    · rw [if_neg (fun hboth ↦ hlt hboth.2), if_neg (fun hboth ↦ absurd hboth.1 (by decide))]
      simp [hlt, not_lt.mp hlt]
  · rw [hdown, if_neg (by decide), if_neg (fun hboth ↦ absurd hboth.1 (by decide))]
    by_cases hlt : upper < entry closes i
    · rw [if_pos ⟨rfl, hlt⟩]
      simp [hlt]
    · rw [if_neg (fun hboth ↦ hlt hboth.2)]
      simp [hlt, not_lt.mp hlt]

end Reading

section Series

variable {high low closes : List K} {period : ℤ} {mult : K} {r : Reading K} {i : ℕ}

theorem superTrend_line (hi : i < closes.length) :
    (superTrend high low closes period mult).1[i]? =
      some ((readingAt high low closes period mult (i + 1)).map Reading.line) := by
  rw [superTrend, getElem?_map, getElem?_range hi, Option.map_some]

theorem superTrend_dir (hi : i < closes.length) :
    (superTrend high low closes period mult).2[i]? =
      some ((readingAt high low closes period mult (i + 1)).elim 0 Reading.dir) := by
  rw [superTrend, getElem?_map, getElem?_range hi, Option.map_some]

theorem readingAt_of_dir {d : ℤ} (hd : d ≠ 0)
    (h : (superTrend high low closes period mult).2[i]? = some d) :
    ∃ r, readingAt high low closes period mult (i + 1) = some r ∧ r.dir = d ∧
      i < closes.length ∧ (superTrend high low closes period mult).1[i]? = some (some r.line) := by
  have hi : i < closes.length := by
    simpa [superTrend] using (List.getElem?_eq_some_iff.mp h).1
  rw [superTrend_dir hi] at h
  rw [superTrend_line hi]
  cases hr : readingAt high low closes period mult (i + 1) with
  | none =>
    rw [hr] at h
    exact absurd (Option.some.inj h).symm hd
  | some r =>
    rw [hr] at h
    exact ⟨r, rfl, Option.some.inj h, hi, rfl⟩

theorem readingAt_append {high' low' closes' : List K} (h : SameLength high low closes)
    (h' : SameLength high' low' closes') {t : ℕ} (ht : t ≤ closes.length) :
    readingAt (high ++ high') (low ++ low') (closes ++ closes') period mult t =
      readingAt high low closes period mult t := by
  refine indexLoop_rel (R := Eq) rfl (fun s s' j _ hj hs ↦ ?_) ht
  have hhigh : entry (high ++ high') j = entry high j := entry_append (by rw [h.length_high]; omega)
  have hlow : entry (low ++ low') j = entry low j := entry_append (by rw [h.length_low]; omega)
  have hclose : ∀ k ≤ j, entry (closes ++ closes') k = entry closes k :=
    fun k hk ↦ entry_append (by omega)
  have hmid : mid (high ++ high') (low ++ low') j = mid high low j := by
    rw [mid, mid, hhigh, hlow]
  rw [hs, superTrendBar, superTrendBar, value_atr_append h h' hj]
  refine congrArg (Option.map · _) (funext (fun a ↦ ?_))
  simp only [banded, nextUpper, nextLower, hmid, hclose j le_rfl, hclose (j - 1) (Nat.sub_le j 1)]

theorem Trails.onSide (h : Trails high low closes period mult) (hi : i < closes.length)
    (hr : readingAt high low closes period mult (i + 1) = some r) : OnSide closes i r := by
  have hdir : (superTrend high low closes period mult).2[i]? = some r.dir := by
    rw [superTrend_dir hi, hr, Option.elim_some]
  have hline : (superTrend high low closes period mult).1[i]? = some (some r.line) := by
    rw [superTrend_line hi, hr, Option.map_some]
  rcases readingAt_dir hr with hup | hdown
  · obtain ⟨x, hx, hle⟩ := h.below i (hup ▸ hdir)
    obtain rfl := Option.some.inj (Option.some.inj (hline.symm.trans hx))
    exact .inl ⟨hup, line_of_dir_one hup ▸ hle⟩
  · obtain ⟨x, hx, hle⟩ := h.above i (hdown ▸ hdir)
    obtain rfl := Option.some.inj (Option.some.inj (hline.symm.trans hx))
    exact .inr ⟨hdown, line_of_dir_neg hdown ▸ hle⟩

theorem trails_of_onSide (h : SameLength high low closes)
    (hside : ∀ i < closes.length, ∀ r,
      readingAt high low closes period mult (i + 1) = some r → OnSide closes i r) :
    Trails high low closes period mult := by
  have hnext : ∀ {i r r'}, readingAt high low closes period mult (i + 1) = some r →
      readingAt high low closes period mult (i + 1 + 1) = some r' →
      ∃ a, r' = banded high low closes mult a (some r) (i + 1) := by
    intro i r r' hr hr'
    obtain ⟨a, -, rfl⟩ := readingAt_eq_some hr'
    exact ⟨a, by rw [hr]⟩
  refine ⟨fun i hdir ↦ ?_, fun i hdir ↦ ?_, fun i x y hdir hdir' hx hy ↦ ?_,
    fun i x y hdir hdir' hx hy ↦ ?_, fun high' low' closes' h' i hi ↦ ?_⟩
  · obtain ⟨r, hr, hup, hi, hline⟩ := readingAt_of_dir one_ne_zero hdir
    exact ⟨r.line, hline, line_of_dir_one hup ▸ (hside i hi r hr).lower_le hup⟩
  · obtain ⟨r, hr, hdown, hi, hline⟩ := readingAt_of_dir (by decide) hdir
    exact ⟨r.line, hline, line_of_dir_neg hdown ▸ (hside i hi r hr).le_upper hdown⟩
  · obtain ⟨r, hr, hup, hi, hline⟩ := readingAt_of_dir one_ne_zero hdir
    obtain ⟨r', hr', hup', -, hline'⟩ := readingAt_of_dir one_ne_zero hdir'
    obtain rfl := Option.some.inj (Option.some.inj (hline.symm.trans hx))
    obtain rfl := Option.some.inj (Option.some.inj (hline'.symm.trans hy))
    rw [line_of_dir_one hup, line_of_dir_one hup']
    obtain ⟨a, rfl⟩ := hnext hr hr'
    exact le_ratchetLower ((hside i hi r hr).lower_le hup)
  · obtain ⟨r, hr, hdown, hi, hline⟩ := readingAt_of_dir (by decide) hdir
    obtain ⟨r', hr', hdown', -, hline'⟩ := readingAt_of_dir (by decide) hdir'
    obtain rfl := Option.some.inj (Option.some.inj (hline.symm.trans hx))
    obtain rfl := Option.some.inj (Option.some.inj (hline'.symm.trans hy))
    rw [line_of_dir_neg hdown, line_of_dir_neg hdown']
    obtain ⟨a, rfl⟩ := hnext hr hr'
    exact ratchetUpper_le ((hside i hi r hr).le_upper hdown)
  · have hlonger : i < (closes ++ closes').length := by rw [length_append]; omega
    rw [superTrend_line hlonger, superTrend_line hi, superTrend_dir hlonger, superTrend_dir hi,
      readingAt_append h h' (Nat.succ_le_of_lt hi)]
    exact ⟨rfl, rfl⟩

end Series

section Ordered

variable [IsStrictOrderedRing K] {high low closes : List K} {period : ℤ} {mult a : K}
  {r : Reading K} {i : ℕ}

theorem Ohlc.trueRange_nonneg (h : Ohlc high low closes) (hi : i < closes.length) :
    0 ≤ trueRange high low closes i :=
  (sub_nonneg.mpr ((h.low_le i hi).trans (h.le_high i hi))).trans (sub_le_trueRange i)

theorem Ohlc.wilder_nonneg (h : Ohlc high low closes) (hpos : 0 < period) (hle : period ≤ i)
    (hi : i < closes.length) : 0 ≤ wilder high low closes period i := by
  have hperiod : (0 : K) ≤ period := Int.cast_nonneg hpos.le
  have hbefore : (0 : K) ≤ (period - 1 : ℤ) := Int.cast_nonneg (by omega)
  induction i with
  | zero => omega
  | succ i ih =>
    rcases Nat.lt_or_ge i period.toNat with hfirst | hlater
    · rw [wilder_of_le hfirst]
      refine div_nonneg (sum_nonneg (fun x hx ↦ ?_)) hperiod
      obtain ⟨j, hj, rfl⟩ := mem_map.mp hx
      have hj := mem_range'_1.mp hj
      exact h.trueRange_nonneg (by omega)
    · rw [wilder_succ hlater]
      have hprev := ih (by omega) (Nat.lt_of_succ_lt hi)
      exact div_nonneg (add_nonneg (mul_nonneg hprev hbefore) (h.trueRange_nonneg hi)) hperiod

theorem Ohlc.atr_nonneg (h : Ohlc high low closes) (hi : i < closes.length)
    (ha : value (atr high low closes period) i = some a) : 0 ≤ a := by
  rw [value_atr h.toSameLength hi] at ha
  split_ifs at ha with hle
  rw [← Option.some.inj ha]
  exact h.wilder_nonneg hle.1 hle.2 hi

theorem onSide_banded_none (ha : 0 ≤ a) (hmult : 0 < mult) :
    OnSide closes i (banded high low closes mult a none i) := by
  have hwide : 0 ≤ mult * a := mul_nonneg hmult.le ha
  unfold OnSide banded nextDir nextUpper nextLower ratchetUpper ratchetLower
  dsimp only
  rw [Option.elim_none, if_pos rfl]
  by_cases hle : mid high low i ≤ entry closes i
  · rw [if_pos hle]
    exact .inl ⟨rfl, (sub_le_self _ hwide).trans hle⟩
  · rw [if_neg hle]
    exact .inr ⟨rfl, (not_le.mp hle).le.trans (le_add_of_nonneg_right hwide)⟩

theorem Ohlc.onSide_iff (h : Ohlc high low closes) (hmult : 0 < mult) (hi : i < closes.length)
    (hr : readingAt high low closes period mult (i + 1) = some r) :
    OnSide closes i r ↔ ¬ Squeezed high low closes period mult i := by
  obtain ⟨a, ha, rfl⟩ := readingAt_eq_some hr
  cases hlast : readingAt high low closes period mult i with
  | none =>
    refine iff_of_true (onSide_banded_none (h.atr_nonneg hi ha) hmult) ?_
    rintro ⟨r, -, hr, -⟩
    rw [hlast] at hr
    cases hr
  | some s =>
    rw [onSide_banded_iff (readingAt_dir hlast)]
    refine not_congr ⟨fun hbetween ↦ ⟨s, a, hlast, ha, hbetween⟩, ?_⟩
    rintro ⟨s', a', hs', ha', hbetween⟩
    obtain rfl := Option.some.inj (hlast.symm.trans hs')
    obtain rfl := Option.some.inj (ha.symm.trans ha')
    exact hbetween

/-- The line is a trailing stop on the side its direction says exactly where no bar closes
between crossed bands. -/
theorem superTrend_trails_iff (h : Ohlc high low closes) (hmult : 0 < mult) :
    Trails high low closes period mult ↔
      ∀ i < closes.length, ¬ Squeezed high low closes period mult i := by
  constructor
  · intro htrails i hi hsqueezed
    obtain ⟨s, a, hs, ha, -⟩ := id hsqueezed
    have hr : readingAt high low closes period mult (i + 1) =
        some (banded high low closes mult a (some s) i) := by
      rw [readingAt_succ, superTrendBar, ha, hs, Option.map_some]
    exact (h.onSide_iff hmult hi hr).mp (htrails.onSide hi hr) hsqueezed
  · intro hclear
    exact trails_of_onSide h.toSameLength
      (fun i hi r hr ↦ (h.onSide_iff hmult hi hr).mpr (hclear i hi))

theorem risingBars_trails :
    Trails [101, 102, 103, 104] [99, 100, 101, 102] [100, 101, 102, 103] 2 (1 : ℚ) ↔
      ∀ i < 4, ¬ Squeezed [101, 102, 103, 104] [99, 100, 101, 102] [100, 101, 102, 103] 2 (1 : ℚ) i :=
  superTrend_trails_iff (by refine ⟨⟨rfl, rfl⟩, ?_, ?_⟩ <;> decide +kernel) (by decide)

/-- Eleven bars without a range leave both bands at the price. The next bar
lifts the lower band over its close: the direction turns down, the line is below. -/
theorem flatThenTall_crossed :
    Ohlc (List.replicate 11 100 ++ [140]) (List.replicate 11 100 ++ [104])
        (List.replicate 11 100 ++ [(105 : ℚ)]) ∧
      ¬ Trails (List.replicate 11 100 ++ [140]) (List.replicate 11 100 ++ [104])
        (List.replicate 11 100 ++ [(105 : ℚ)]) 10 3 := by
  refine ⟨⟨⟨rfl, rfl⟩, by decide +kernel, by decide +kernel⟩, fun htrails ↦ ?_⟩
  obtain ⟨x, hx, hle⟩ := htrails.above 11 (by decide +kernel)
  have hline : (superTrend (List.replicate 11 100 ++ [140]) (List.replicate 11 100 ++ [104])
      (List.replicate 11 100 ++ [(105 : ℚ)]) 10 3).1[11]? = some (some 100) := by decide +kernel
  obtain rfl := Option.some.inj (Option.some.inj (hline.symm.trans hx))
  exact absurd hle (by decide +kernel)

theorem Ohlc.trueRange_le (h : Ohlc high low closes) (hi : i < closes.length)
    (ha : value (atr high low closes period) i = some a) :
    trueRange high low closes i ≤ period * a := by
  rw [value_atr h.toSameLength hi] at ha
  split_ifs at ha with hle
  obtain ⟨hpos, hle⟩ := hle
  have hperiod : (0 : K) < period := Int.cast_pos.mpr hpos
  have hbefore : (0 : K) ≤ (period - 1 : ℤ) := Int.cast_nonneg (by omega)
  rw [← Option.some.inj ha, ← div_le_iff₀' hperiod]
  rcases hle.eq_or_lt with heq | hlt
  · have hmem : trueRange high low closes i ∈
        (List.range' 1 period.toNat).map (trueRange high low closes) :=
      mem_map_of_mem (mem_range'_1.mpr (by omega))
    have hnonneg : ∀ x ∈ (List.range' 1 period.toNat).map (trueRange high low closes), 0 ≤ x := by
      intro x hx
      obtain ⟨j, hj, rfl⟩ := mem_map.mp hx
      have hj := mem_range'_1.mp hj
      exact h.trueRange_nonneg (by omega)
    rw [wilder_of_le (by omega)]
    exact div_le_div_of_nonneg_right (single_le_sum hnonneg _ hmem) hperiod.le
  · obtain ⟨j, rfl⟩ : ∃ j, i = j + 1 := ⟨i - 1, by omega⟩
    have hprev := h.wilder_nonneg (i := j) hpos (by omega) (by omega)
    rw [wilder_succ (by omega)]
    exact div_le_div_of_nonneg_right (le_add_of_nonneg_left (mul_nonneg hprev hbefore)) hperiod.le

theorem Ohlc.not_squeezed (h : Ohlc high low closes) (hmult : (period : K) ≤ 2 * mult)
    (hi : i < closes.length) : ¬ Squeezed high low closes period mult i := by
  rintro ⟨r, a, -, ha, hupper, hlower⟩
  have hnonneg := h.atr_nonneg hi ha
  have hrange := (sub_le_trueRange i).trans (h.trueRange_le hi ha)
  have hwide : entry high i - entry low i ≤ 2 * (mult * a) := by
    have hmul := mul_le_mul_of_nonneg_right hmult hnonneg
    linarith
  have hlow := h.low_le i hi
  have hhigh := h.le_high i hi
  have habove : entry closes i ≤ mid high low i + mult * a := by
    rw [mid]
    linarith
  have hbelow : mid high low i - mult * a ≤ entry closes i := by
    rw [mid]
    linarith
  unfold nextUpper ratchetUpper at hupper
  unfold nextLower ratchetLower at hlower
  dsimp only at hupper hlower
  split_ifs at hupper with hup
  · exact absurd hupper (not_lt.mpr habove)
  · split_ifs at hlower with hdown
    · exact absurd hlower (not_lt.mpr hbelow)
    · have hkept := not_lt.mp (not_or.mp hup).2
      have hkept' := not_lt.mp (not_or.mp hdown).2
      exact absurd (hupper.trans hlower) (not_lt.mpr (hkept'.trans hkept))

/-- A multiplier of half the period or more makes the line a trailing stop on every series. -/
theorem Ohlc.trails_of_wide (h : Ohlc high low closes) (hmult : 0 < mult)
    (hwide : (period : K) ≤ 2 * mult) : Trails high low closes period mult :=
  trails_of_onSide h.toSameLength (fun _ hi _ hr ↦
    (h.onSide_iff hmult hi hr).mpr (h.not_squeezed hwide hi))

theorem shortPeriod_trails :
    Trails [101, 102, 103, 104] [99, 100, 101, 102] [100, 101, 102, 103] 2 (1 : ℚ) :=
  Ohlc.trails_of_wide (by refine ⟨⟨rfl, rfl⟩, ?_, ?_⟩ <;> decide +kernel) (by decide)
    (by decide +kernel)

end Ordered

end TalaPala.Indicators
