import TalaPala.Indicators.SuperTrend

namespace TalaPala.Indicators

open Library

variable {K : Type*} [Field K] [LinearOrder K]

structure Sar (K : Type*) where
  uptrend : Bool
  sar : K
  /-- The extreme point of the trend. -/
  ep : K
  /-- The acceleration factor. -/
  af : K

section Bars

variable (high low : List K) (afStart afStep afMax : K)

def sarStart : Sar K :=
  if entry high 0 + entry low 0 ≤ entry high 1 + entry low 1 then
    ⟨true, entry low 0, entry high 1, afStart⟩
  else ⟨false, entry high 0, entry low 1, afStart⟩

def clamped (s : Sar K) (i : ℕ) : K :=
  let sar := s.sar + s.af * (s.ep - s.sar)
  if s.uptrend then min sar (min (entry low (i - 1)) (entry low (i - 2)))
  else max sar (max (entry high (i - 1)) (entry high (i - 2)))

def sarBar (s : Sar K) (i : ℕ) : Sar K :=
  let sar := clamped high low s i
  if s.uptrend then
    if entry low i < sar then ⟨false, s.ep, entry low i, afStart⟩
    else if s.ep < entry high i then ⟨true, sar, entry high i, min (s.af + afStep) afMax⟩
    else ⟨true, sar, s.ep, s.af⟩
  else
    if sar < entry high i then ⟨true, s.ep, entry high i, afStart⟩
    else if entry low i < s.ep then ⟨false, sar, entry low i, min (s.af + afStep) afMax⟩
    else ⟨false, sar, s.ep, s.af⟩

/-- The registers when the loop is about to do bar `t`. -/
def sarAt (t : ℕ) : Sar K :=
  indexLoop (sarBar high low afStart afStep afMax) (sarStart high low afStart) 2 t

def parabolicSar : List (Option K) :=
  let n := high.length
  if n < 2 then List.replicate n none
  else
    (List.range n).map (fun i ↦
      if i = 0 then none else some (sarAt high low afStart afStep afMax (i + 1)).sar)

/-- A stop that stays outside the bars and accelerates towards price. -/
structure Stops : Prop where
  outside : ∀ (i : ℕ) (x : K), 2 ≤ i →
    (parabolicSar high low afStart afStep afMax)[i]? = some (some x) →
    if (sarAt high low afStart afStep afMax (i + 1)).uptrend then x ≤ entry low i
    else entry high i ≤ x
  towards : ∀ (i : ℕ) (x y : K),
    (parabolicSar high low afStart afStep afMax)[i]? = some (some x) →
    (parabolicSar high low afStart afStep afMax)[i + 1]? = some (some y) →
    (sarAt high low afStart afStep afMax (i + 2)).uptrend =
      (sarAt high low afStart afStep afMax (i + 1)).uptrend →
    if (sarAt high low afStart afStep afMax (i + 1)).uptrend then x ≤ y else y ≤ x
  acceleration : ∀ (i : ℕ) (x : K),
    (parabolicSar high low afStart afStep afMax)[i]? = some (some x) →
    afStart ≤ (sarAt high low afStart afStep afMax (i + 1)).af ∧
      (sarAt high low afStart afStep afMax (i + 1)).af ≤ max afStart afMax
  stable : ∀ high' low', low'.length = high'.length → ∀ i < high.length,
    (parabolicSar (high ++ high') (low ++ low') afStart afStep afMax)[i]? =
      (parabolicSar high low afStart afStep afMax)[i]?

/-- From the registers before bar `i` and the bar: it reverses the trend and has also gone past
the trend's extreme point. -/
def Overruns (s : Sar K) (i : ℕ) : Prop :=
  if s.uptrend then entry low i < clamped high low s i ∧ s.ep < entry high i
  else clamped high low s i < entry high i ∧ entry low i < s.ep

def SeedPassed : Prop :=
  if (sarStart high low afStart).uptrend then
    entry low 1 < entry low 0 ∧ entry low 1 ≤ entry low 2
  else entry high 0 < entry high 1 ∧ entry high 2 ≤ entry high 1

end Bars

structure Ranges (high low : List K) : Prop where
  length_low : low.length = high.length
  low_le : ∀ i < high.length, entry low i ≤ entry high i

/-- The extreme point of a trend is not behind bar `i` or the stop. -/
def Tracks (high low : List K) (i : ℕ) (s : Sar K) : Prop :=
  if s.uptrend then entry high i ≤ s.ep ∧ s.sar ≤ s.ep else s.ep ≤ entry low i ∧ s.ep ≤ s.sar

/-- The stop is outside bar `i` and the one before it. -/
def Behind (high low : List K) (i : ℕ) (s : Sar K) : Prop :=
  if s.uptrend then s.sar ≤ entry low i ∧ s.sar ≤ entry low (i - 1)
  else entry high i ≤ s.sar ∧ entry high (i - 1) ≤ s.sar

section Step

variable {high low : List K} {afStart afStep afMax : K} {s : Sar K} {i : ℕ}

theorem clamped_le (hup : s.uptrend) :
    clamped high low s i ≤ entry low (i - 1) ∧ clamped high low s i ≤ entry low (i - 2) := by
  rw [clamped, if_pos hup]
  exact ⟨(min_le_right _ _).trans (min_le_left _ _), (min_le_right _ _).trans (min_le_right _ _)⟩

theorem le_clamped (hdown : ¬ s.uptrend) :
    entry high (i - 1) ≤ clamped high low s i ∧ entry high (i - 2) ≤ clamped high low s i := by
  rw [clamped, if_neg hdown]
  exact ⟨(le_max_left _ _).trans (le_max_right _ _), (le_max_right _ _).trans (le_max_right _ _)⟩

theorem sarBar_cases (high low : List K) (afStart afStep afMax : K) (s : Sar K) (i : ℕ) :
    (s.uptrend = true ∧ entry low i < clamped high low s i ∧
      sarBar high low afStart afStep afMax s i = ⟨false, s.ep, entry low i, afStart⟩) ∨
    (s.uptrend = true ∧ clamped high low s i ≤ entry low i ∧
      ∃ af, (af = s.af ∨ af = min (s.af + afStep) afMax) ∧
        sarBar high low afStart afStep afMax s i =
          ⟨true, clamped high low s i, max s.ep (entry high i), af⟩) ∨
    (s.uptrend = false ∧ clamped high low s i < entry high i ∧
      sarBar high low afStart afStep afMax s i = ⟨true, s.ep, entry high i, afStart⟩) ∨
    (s.uptrend = false ∧ entry high i ≤ clamped high low s i ∧
      ∃ af, (af = s.af ∨ af = min (s.af + afStep) afMax) ∧
        sarBar high low afStart afStep afMax s i =
          ⟨false, clamped high low s i, min s.ep (entry low i), af⟩) := by
  unfold sarBar
  dsimp only
  cases hup : s.uptrend with
  | true =>
    simp only [if_true, Bool.true_eq_false, false_and, or_false, true_and]
    split_ifs with hlow hhigh
    · exact .inl ⟨hlow, rfl⟩
    · exact .inr ⟨not_lt.mp hlow, _, .inr rfl, by rw [max_eq_right hhigh.le]⟩
    · exact .inr ⟨not_lt.mp hlow, _, .inl rfl, by rw [max_eq_left (not_lt.mp hhigh)]⟩
  | false =>
    simp only [Bool.false_eq_true, if_false, false_and, false_or, true_and]
    split_ifs with hhigh hlow
    · exact .inl ⟨hhigh, rfl⟩
    · exact .inr ⟨not_lt.mp hhigh, _, .inr rfl, by rw [min_eq_right hlow.le]⟩
    · exact .inr ⟨not_lt.mp hhigh, _, .inl rfl, by rw [min_eq_left (not_lt.mp hlow)]⟩

theorem sar_sarBar (h : (sarBar high low afStart afStep afMax s i).uptrend = s.uptrend) :
    (sarBar high low afStart afStep afMax s i).sar = clamped high low s i := by
  rcases sarBar_cases high low afStart afStep afMax s i with
    ⟨hup, -, heq⟩ | ⟨-, -, af, -, heq⟩ | ⟨hdown, -, heq⟩ | ⟨-, -, af, -, heq⟩
  · rw [heq, hup] at h
    cases h
  · rw [heq]
  · rw [heq, hdown] at h
    cases h
  · rw [heq]

theorem sarBar_stays_iff (h : s.uptrend = true) :
    (sarBar high low afStart afStep afMax s i).uptrend = true ↔ clamped high low s i ≤ entry low i := by
  rcases sarBar_cases high low afStart afStep afMax s i with
    ⟨-, hlt, heq⟩ | ⟨-, hle, af, -, heq⟩ | ⟨hdown, -, -⟩ | ⟨hdown, -, -⟩
  · rw [heq]
    exact iff_of_false Bool.false_ne_true (not_le.mpr hlt)
  · rw [heq]
    exact iff_of_true rfl hle
  · exact absurd (hdown.symm.trans h) Bool.false_ne_true
  · exact absurd (hdown.symm.trans h) Bool.false_ne_true

theorem sarBar_stays_down_iff (h : s.uptrend = false) :
    (sarBar high low afStart afStep afMax s i).uptrend = false ↔
      entry high i ≤ clamped high low s i := by
  rcases sarBar_cases high low afStart afStep afMax s i with
    ⟨hup, -, -⟩ | ⟨hup, -, -⟩ | ⟨-, hlt, heq⟩ | ⟨-, hle, af, -, heq⟩
  · exact absurd (h.symm.trans hup) Bool.false_ne_true
  · exact absurd (h.symm.trans hup) Bool.false_ne_true
  · rw [heq]
    exact iff_of_false (Ne.symm Bool.false_ne_true) (not_le.mpr hlt)
  · rw [heq]
    exact iff_of_true rfl hle

theorem tracks_sarBar (h : Ranges high low) (hi : i < high.length) (hs : Tracks high low (i - 1) s)
    (hclear : ¬ Overruns high low s i) :
    Tracks high low i (sarBar high low afStart afStep afMax s i) ∧
      Behind high low i (sarBar high low afStart afStep afMax s i) := by
  have hrange := h.low_le i hi
  unfold Tracks at hs
  unfold Overruns at hclear
  rcases sarBar_cases high low afStart afStep afMax s i with
    ⟨hup, hlt, heq⟩ | ⟨hup, hle, af, -, heq⟩ | ⟨hdown, hlt, heq⟩ | ⟨hdown, hle, af, -, heq⟩
  · rw [if_pos hup] at hs hclear
    have hhigh : entry high i ≤ s.ep := not_lt.mp (fun hpast ↦ hclear ⟨hlt, hpast⟩)
    rw [heq]
    exact ⟨⟨le_rfl, hrange.trans hhigh⟩, hhigh, hs.1⟩
  · rw [heq]
    exact ⟨⟨le_max_right _ _, hle.trans (hrange.trans (le_max_right _ _))⟩, hle, (clamped_le hup).1⟩
  · rw [hdown, if_neg Bool.false_ne_true] at hs hclear
    have hlow : s.ep ≤ entry low i := not_lt.mp (fun hpast ↦ hclear ⟨hlt, hpast⟩)
    rw [heq]
    exact ⟨⟨le_rfl, hlow.trans hrange⟩, hlow, hs.1⟩
  · rw [heq]
    have hclamped : entry high (i - 1) ≤ clamped high low s i :=
      (le_clamped (by rw [hdown]; exact Bool.false_ne_true)).1
    exact ⟨⟨min_le_right _ _, (min_le_right _ _).trans (hrange.trans hle)⟩, hle, hclamped⟩

theorem not_outside_of_overruns (h : Overruns high low s i) :
    ¬ (if (sarBar high low afStart afStep afMax s i).uptrend then
        (sarBar high low afStart afStep afMax s i).sar ≤ entry low i
      else entry high i ≤ (sarBar high low afStart afStep afMax s i).sar) := by
  unfold Overruns at h
  rcases sarBar_cases high low afStart afStep afMax s i with
    ⟨hup, -, heq⟩ | ⟨hup, hle, -⟩ | ⟨hdown, -, heq⟩ | ⟨hdown, hle, -⟩
  · rw [if_pos hup] at h
    rw [heq]
    exact not_le.mpr h.2
  · rw [if_pos hup] at h
    exact absurd h.1 (not_lt.mpr hle)
  · rw [hdown, if_neg Bool.false_ne_true] at h
    rw [heq]
    exact not_le.mpr h.2
  · rw [hdown, if_neg Bool.false_ne_true] at h
    exact absurd h.1 (not_lt.mpr hle)

end Step

section Run

variable {high low high' low' : List K} {afStart afStep afMax : K} {i : ℕ}

theorem sarAt_succ (hi : 2 ≤ i) :
    sarAt high low afStart afStep afMax (i + 1) =
      sarBar high low afStart afStep afMax (sarAt high low afStart afStep afMax i) i :=
  indexLoop_succ hi

theorem parabolicSar_get (hfirst : 1 ≤ i) (hi : i < high.length) :
    (parabolicSar high low afStart afStep afMax)[i]? =
      some (some (sarAt high low afStart afStep afMax (i + 1)).sar) := by
  rw [parabolicSar, if_neg (by omega), List.getElem?_map, List.getElem?_range hi, Option.map_some,
    if_neg (by omega)]

theorem parabolicSar_zero (h : 0 < high.length) :
    (parabolicSar high low afStart afStep afMax)[0]? = some none := by
  unfold parabolicSar
  dsimp only
  split_ifs
  · rw [List.getElem?_replicate, if_pos h]
  · rw [List.getElem?_map, List.getElem?_range h, Option.map_some, if_pos rfl]

theorem printed {x : K} (h : (parabolicSar high low afStart afStep afMax)[i]? = some (some x)) :
    1 ≤ i ∧ i < high.length ∧ x = (sarAt high low afStart afStep afMax (i + 1)).sar := by
  have hne : ¬ high.length < 2 := by
    intro hshort
    rw [parabolicSar, if_pos hshort] at h
    cases List.eq_of_mem_replicate (List.mem_of_getElem? h)
  have hi : i < high.length := by
    have hlt := (List.getElem?_eq_some_iff.mp h).1
    rw [parabolicSar, if_neg hne, List.length_map, List.length_range] at hlt
    exact hlt
  rcases Nat.eq_zero_or_pos i with rfl | hfirst
  · rw [parabolicSar_zero hi] at h
    cases h
  · rw [parabolicSar_get hfirst hi] at h
    exact ⟨hfirst, hi, (Option.some.inj (Option.some.inj h)).symm⟩

theorem sarAt_append (hlen : low.length = high.length) {t : ℕ} (hlong : 2 ≤ high.length)
    (ht : t ≤ high.length) :
    sarAt (high ++ high') (low ++ low') afStart afStep afMax t =
      sarAt high low afStart afStep afMax t := by
  have hhigh : ∀ j < high.length, entry (high ++ high') j = entry high j := fun j hj ↦ entry_append hj
  have hlow : ∀ j < high.length, entry (low ++ low') j = entry low j :=
    fun j hj ↦ entry_append (by omega)
  have hstart : sarStart (high ++ high') (low ++ low') afStart = sarStart high low afStart := by
    rw [sarStart, sarStart, hhigh 0 (by omega), hhigh 1 (by omega), hlow 0 (by omega),
      hlow 1 (by omega)]
  refine indexLoop_rel (R := Eq) hstart (fun s s' j _ hj hs ↦ ?_) ht
  have hclamped : clamped (high ++ high') (low ++ low') s' j = clamped high low s' j := by
    rw [clamped, clamped, hhigh (j - 1) (by omega), hhigh (j - 2) (by omega),
      hlow (j - 1) (by omega), hlow (j - 2) (by omega)]
  rw [hs, sarBar, sarBar, hclamped, hhigh j hj, hlow j hj]

end Run

section Ordered

variable [IsStrictOrderedRing K] {high low : List K} {afStart afStep afMax : K} {s : Sar K} {i : ℕ}

theorem towards_clamped_iff (haf : 0 ≤ s.af) (hs : Tracks high low i s) :
    (if s.uptrend then s.sar ≤ clamped high low s (i + 1) else clamped high low s (i + 1) ≤ s.sar) ↔
      Behind high low i s := by
  unfold Tracks at hs
  unfold Behind clamped
  split_ifs at hs ⊢ with hup
  · have hmove : 0 ≤ s.af * (s.ep - s.sar) := mul_nonneg haf (sub_nonneg.mpr hs.2)
    rw [le_min_iff, le_min_iff]
    exact and_iff_right (le_add_of_nonneg_right hmove)
  · have hmove : s.af * (s.ep - s.sar) ≤ 0 :=
      mul_nonpos_of_nonneg_of_nonpos haf (sub_nonpos.mpr hs.2)
    rw [max_le_iff, max_le_iff]
    exact and_iff_right (add_le_of_nonpos_right hmove)

theorem towards_sarBar_iff (haf : 0 ≤ s.af) (hs : Tracks high low i s)
    (hsame : (sarBar high low afStart afStep afMax s (i + 1)).uptrend = s.uptrend) :
    (if s.uptrend then s.sar ≤ (sarBar high low afStart afStep afMax s (i + 1)).sar
      else (sarBar high low afStart afStep afMax s (i + 1)).sar ≤ s.sar) ↔ Behind high low i s := by
  rw [sar_sarBar hsame]
  exact towards_clamped_iff haf hs

theorem tracks_sarStart (h : Ranges high low) (hlong : 2 ≤ high.length) :
    Tracks high low 1 (sarStart high low afStart) := by
  have hfirst := h.low_le 0 (by omega)
  have hsecond := h.low_le 1 (by omega)
  unfold sarStart
  split_ifs with hup
  · exact ⟨le_rfl, by dsimp only; linarith⟩
  · exact ⟨le_rfl, by dsimp only; linarith⟩

theorem sarAt_tracks (h : Ranges high low)
    (hclear : ∀ j, 2 ≤ j → j < high.length →
      ¬ Overruns high low (sarAt high low afStart afStep afMax j) j)
    (hfirst : 1 ≤ i) (hi : i < high.length) :
    Tracks high low i (sarAt high low afStart afStep afMax (i + 1)) ∧
      (2 ≤ i → Behind high low i (sarAt high low afStart afStep afMax (i + 1))) := by
  induction i, hfirst using Nat.le_induction with
  | base =>
    have hstart : sarAt high low afStart afStep afMax 2 = sarStart high low afStart :=
      indexLoop_of_le le_rfl
    rw [hstart]
    exact ⟨tracks_sarStart h hi, fun hle ↦ absurd hle (by decide)⟩
  | succ i hle ih =>
    have hbar : 2 ≤ i + 1 := Nat.succ_le_succ hle
    rw [sarAt_succ hbar]
    exact (tracks_sarBar h hi (ih (Nat.lt_of_succ_lt hi)).1 (hclear _ hbar hi)).imp_right
      (fun hbehind _ ↦ hbehind)

theorem sarAt_af (hmax : afStart ≤ afMax) (hstep : 0 ≤ afStep) (t : ℕ) :
    afStart ≤ (sarAt high low afStart afStep afMax t).af ∧
      (sarAt high low afStart afStep afMax t).af ≤ max afStart afMax := by
  have hstart : ∀ t ≤ 2, (sarAt high low afStart afStep afMax t).af = afStart := by
    intro t ht
    rw [sarAt, indexLoop_of_le ht, sarStart]
    split_ifs <;> rfl
  induction t with
  | zero =>
    rw [hstart 0 (by decide)]
    exact ⟨le_rfl, le_max_left _ _⟩
  | succ t ih =>
    rcases Nat.lt_or_ge t 2 with hearly | hlater
    · rw [hstart (t + 1) hearly]
      exact ⟨le_rfl, le_max_left _ _⟩
    · have hkept : ∀ af, (af = (sarAt high low afStart afStep afMax t).af ∨
          af = min ((sarAt high low afStart afStep afMax t).af + afStep) afMax) →
          afStart ≤ af ∧ af ≤ max afStart afMax := by
        rintro af (rfl | rfl)
        · exact ih
        · exact ⟨le_min (le_add_of_le_of_nonneg ih.1 hstep) hmax,
            (min_le_right _ _).trans (le_max_right _ _)⟩
      rw [sarAt_succ hlater]
      rcases sarBar_cases high low afStart afStep afMax (sarAt high low afStart afStep afMax t) t with
        ⟨-, -, heq⟩ | ⟨-, -, af, haf, heq⟩ | ⟨-, -, heq⟩ | ⟨-, -, af, haf, heq⟩
      · rw [heq]
        exact ⟨le_rfl, le_max_left _ _⟩
      · rw [heq]
        exact hkept af haf
      · rw [heq]
        exact ⟨le_rfl, le_max_left _ _⟩
      · rw [heq]
        exact hkept af haf

theorem seedPassed_iff (afStep afMax : K) (h : Ranges high low) (haf : 0 ≤ afStart)
    (hlong : 2 < high.length) :
    SeedPassed high low afStart ↔
      ¬ Behind high low 1 (sarStart high low afStart) ∧
        (sarAt high low afStart afStep afMax 3).uptrend = (sarStart high low afStart).uptrend := by
  have hfirst := h.low_le 0 (by omega)
  have hsecond := h.low_le 1 (by omega)
  rw [sarAt_succ le_rfl, sarAt, indexLoop_of_le le_rfl]
  by_cases hsum : entry high 0 + entry low 0 ≤ entry high 1 + entry low 1
  · have hstart : sarStart high low afStart = ⟨true, entry low 0, entry high 1, afStart⟩ :=
      if_pos hsum
    rw [SeedPassed, Behind, hstart, if_pos rfl, if_pos rfl, sarBar_stays_iff rfl]
    constructor
    · rintro ⟨hpast, hkept⟩
      exact ⟨fun hboth ↦ not_le.mpr hpast hboth.1, (clamped_le rfl).1.trans hkept⟩
    · rintro ⟨hbehind, hkept⟩
      have hpast : entry low 1 < entry low 0 := not_le.mp (fun hle ↦ hbehind ⟨hle, le_rfl⟩)
      have hmove : 0 ≤ afStart * (entry high 1 - entry low 0) :=
        mul_nonneg haf (by linarith)
      have hclamped : entry low 1 ≤ clamped high low ⟨true, entry low 0, entry high 1, afStart⟩ 2 :=
        le_min (hpast.le.trans (le_add_of_nonneg_right hmove)) (le_min le_rfl hpast.le)
      exact ⟨hpast, hclamped.trans hkept⟩
  · have hstart : sarStart high low afStart = ⟨false, entry high 0, entry low 1, afStart⟩ :=
      if_neg hsum
    rw [SeedPassed, Behind, hstart, if_neg Bool.false_ne_true, if_neg Bool.false_ne_true,
      sarBar_stays_down_iff rfl]
    constructor
    · rintro ⟨hpast, hkept⟩
      have hclamped : entry high 1 ≤ clamped high low ⟨false, entry high 0, entry low 1, afStart⟩ 2 :=
        (le_clamped (i := 2) Bool.false_ne_true).1
      exact ⟨fun hboth ↦ not_le.mpr hpast hboth.1, hkept.trans hclamped⟩
    · rintro ⟨hbehind, hkept⟩
      have hpast : entry high 0 < entry high 1 := not_le.mp (fun hle ↦ hbehind ⟨hle, le_rfl⟩)
      have hmove : afStart * (entry low 1 - entry high 0) ≤ 0 :=
        mul_nonpos_of_nonneg_of_nonpos haf (by linarith)
      have hclamped : clamped high low ⟨false, entry high 0, entry low 1, afStart⟩ 2 ≤ entry high 1 :=
        max_le ((add_le_of_nonpos_right hmove).trans hpast.le) (max_le le_rfl hpast.le)
      exact ⟨hpast, hkept.trans hclamped⟩

/-- The stop is outside every bar from the third on and trails price exactly where no
reversing bar has passed its extreme point, and the second bar has not passed its stop
while the trend goes on. -/
theorem parabolicSar_stops_iff (h : Ranges high low) (hstart : 0 < afStart) (hmax : afStart ≤ afMax)
    (hstep : 0 ≤ afStep) :
    Stops high low afStart afStep afMax ↔
      (∀ i, 2 ≤ i → i < high.length →
        ¬ Overruns high low (sarAt high low afStart afStep afMax i) i) ∧
      (2 < high.length → ¬ SeedPassed high low afStart) := by
  have hsecond : sarAt high low afStart afStep afMax 2 = sarStart high low afStart :=
    indexLoop_of_le le_rfl
  have haf : ∀ t, 0 ≤ (sarAt high low afStart afStep afMax t).af :=
    fun t ↦ hstart.le.trans (sarAt_af hmax hstep t).1
  constructor
  · intro hstops
    refine ⟨fun i hbar hi hoverruns ↦ ?_, fun hlong hseed ↦ ?_⟩
    · have hout := hstops.outside i _ hbar (parabolicSar_get (by omega) hi)
      rw [sarAt_succ hbar] at hout
      exact not_outside_of_overruns hoverruns hout
    · obtain ⟨hbehind, hsame⟩ := (seedPassed_iff afStep afMax h hstart.le hlong).mp hseed
      have hmove := hstops.towards 1 _ _ (parabolicSar_get le_rfl (by omega))
        (parabolicSar_get (by omega) hlong) (by rw [hsecond]; exact hsame)
      rw [sarAt_succ le_rfl] at hsame hmove
      have htracks : Tracks high low 1 (sarStart high low afStart) := tracks_sarStart h hlong.le
      rw [← hsecond] at hbehind hsame htracks
      exact hbehind ((towards_sarBar_iff (haf 2) htracks hsame).mp hmove)
  · rintro ⟨hclear, hseed⟩
    refine ⟨fun i x hbar hx ↦ ?_, fun i x y hx hy hsame ↦ ?_, fun i x _ ↦ ?_,
      fun high' low' hlen i hi ↦ ?_⟩
    · obtain ⟨hfirst, hi, rfl⟩ := printed hx
      have hbehind := (sarAt_tracks h hclear hfirst hi).2 hbar
      unfold Behind at hbehind
      split_ifs at hbehind ⊢
      · exact hbehind.1
      · exact hbehind.1
    · obtain ⟨hfirst, hi, rfl⟩ := printed hx
      obtain ⟨-, hi', rfl⟩ := printed hy
      obtain ⟨htracks, hbehind⟩ := sarAt_tracks h hclear hfirst hi
      rw [sarAt_succ (Nat.succ_le_succ hfirst)] at hsame ⊢
      refine (towards_sarBar_iff (haf (i + 1)) htracks hsame).mpr ?_
      rcases hfirst.eq_or_lt with rfl | hlater
      · rw [hsecond]
        by_contra hnot
        refine hseed hi' ((seedPassed_iff afStep afMax h hstart.le hi').mpr ⟨hnot, ?_⟩)
        exact (congrArg Sar.uptrend (sarAt_succ le_rfl)).trans
          (hsame.trans (congrArg Sar.uptrend hsecond))
      · exact hbehind hlater
    · exact sarAt_af hmax hstep (i + 1)
    · have hlonger : i < (high ++ high').length := by rw [List.length_append]; omega
      rcases Nat.eq_zero_or_pos i with rfl | hfirst
      · rw [parabolicSar_zero hlonger, parabolicSar_zero hi]
      · rw [parabolicSar_get hfirst hlonger, parabolicSar_get hfirst hi,
          sarAt_append h.length_low (by omega) hi]

/-- A trend that goes on. -/
theorem risingHighs_stops :
    Stops [10, 11, 12, 13] [8, 9, 10, 11] (1 / 50) (1 / 50) (1 / 5 : ℚ) ↔
      (∀ i, 2 ≤ i → i < 4 → ¬ Overruns [10, 11, 12, 13] [8, 9, 10, 11]
        (sarAt [10, 11, 12, 13] [8, 9, 10, 11] (1 / 50) (1 / 50) (1 / 5 : ℚ) i) i) ∧
      (2 < 4 → ¬ SeedPassed [10, 11, 12, 13] [8, 9, 10, 11] (1 / 50 : ℚ)) :=
  parabolicSar_stops_iff ⟨rfl, by decide +kernel⟩ (by decide +kernel) (by decide +kernel)
    (by decide +kernel)

/-- A bar that goes above every bar of the uptrend and below its stop: the stop printed on it is
the old extreme, under its high. -/
theorem outsideBar_inside :
    Ranges [10, 11, 12, 20] [9, 10, 11, (5 : ℚ)] ∧
      ¬ Stops [10, 11, 12, 20] [9, 10, 11, 5] (1 / 50) (1 / 50) (1 / 5 : ℚ) := by
  refine ⟨⟨rfl, by decide +kernel⟩, fun hstops ↦ ?_⟩
  have hprinted : (parabolicSar [10, 11, 12, 20] [9, 10, 11, 5] (1 / 50) (1 / 50) (1 / 5 : ℚ))[3]? =
      some (some 12) := by decide +kernel
  have hdown : (sarAt [10, 11, 12, 20] [9, 10, 11, 5] (1 / 50) (1 / 50) (1 / 5 : ℚ) 4).uptrend =
      false := by decide +kernel
  have hout := hstops.outside 3 12 (by decide) hprinted
  rw [hdown, if_neg Bool.false_ne_true] at hout
  exact absurd hout (by decide +kernel)

end Ordered

end TalaPala.Indicators
