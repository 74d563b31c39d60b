import TalaPala.Economic.Observations
import TalaPala.Liquidity.Panel

namespace TalaPala.Liquidity

open Library Float64 List

inductive Target
  | close
  | avg

inductive Model
  | randomWalk
  | trend
  | m2Paced

def minErrors : ℕ := 12

def maxHorizon : ℕ := 24

section Forecast

variable {F : Type*} [Float64 F]

def Panel.series (p : Panel F) : Target → List F
  | .avg => p.avg
  | .close => p.close

/-- The index of the newest stored M2 month at or before `t - lag`; negative when
there is none. -/
def Panel.usableM2 (p : Panel F) (t : ℤ) : ℤ :=
  let k := if (p.m2.length : ℤ) ≤ t - p.lag then (p.m2.length : ℤ) - 1 else t - p.lag
  stepBack (fun j ↦ decide (0 ≤ j) && isNaN (p.at p.m2 j)) (k + 1).toNat k

/-- The trailing M2 growth that ends at index `k`, from up to eighteen months
before it. -/
def Panel.m2Growth (p : Panel F) (k : ℤ) : F :=
  if k < 0 ∨ p.m2.length ≤ k ∨ isNaN (p.at p.m2 k) then nan
  else
    let j := stepBack (fun j ↦ decide (0 ≤ j) && decide (k - 18 < j) && isNaN (p.at p.m2 j)) 6
      (k - 12)
    if j < 0 ∨ isNaN (p.at p.m2 j) then nan
    else div (sub (p.at p.m2 k) (p.at p.m2 j)) (ofInt (k - j))

def Panel.trendSlope (p : Panel F) (t : ℤ) : F :=
  if p.iFirst < 0 ∨ t ≤ p.iFirst then nan
  else div (sub (p.at p.avg t) (p.at p.avg p.iFirst)) (ofInt (t - p.iFirst))

/-- The forecast of a series `h` months after index `t`. -/
def Panel.forecast (p : Panel F) (m : Model) (y : List F) (t h : ℤ) : F :=
  match m with
  | .randomWalk => p.at y t
  | .trend => add (p.at y t) (mul (ofInt h) (p.trendSlope t))
  | .m2Paced => add (p.at y t) (mul (ofInt h) (p.m2Growth (p.usableM2 t)))

structure OriginError (F : Type*) where
  t : ℤ
  err : F

def Panel.originError (p : Panel F) (m : Model) (y : List F) (h t : ℤ) : Option (OriginError F) :=
  let f := p.forecast m y t h
  let a := p.at y (t + h)
  if isNaN f || isNaN a then none else some ⟨t, sub a f⟩

def Panel.errors (p : Panel F) (m : Model) (y : List F) (h fromT toT : ℤ) :
    List (OriginError F) :=
  if p.iLast < 0 then []
  else (Int.range (max fromT 0) (min toT (p.iLast - h) + 1)).filterMap (p.originError m y h)

def Panel.m2Errors (p : Panel F) (tg : Target) (poolFrom : ℤ) : List (List (OriginError F)) :=
  if p.iLast < 0 then List.replicate (maxHorizon + 1) []
  else [] :: (List.range maxHorizon).map (fun (i : ℕ) ↦
    p.errors .m2Paced (p.series tg) (i + 1 : ℕ) (p.idx poolFrom) (p.iLast - (i + 1 : ℕ)))

end Forecast

section Band

variable {F : Type*} [Float64 F]

/-- `sort.Float64s`: what is not a number stands first. -/
def sortFloat64s (l : List F) : List F :=
  l.mergeSort (fun a b ↦ !(lt b a || (isNaN b && !isNaN a)))

/-- `none` where the source's index is out of range. -/
def sortedQuantile (s : List F) (q : F) : Option F :=
  if s = [] then some nan
  else
    let pos := mul (ofInt (s.length - 1)) q
    let lo := floor pos
    if (s.length : ℤ) - 1 ≤ lo then s.getLast?
    else if lo < 0 then none
    else do
      let a ← s[lo.toNat]?
      let b ← s[lo.toNat + 1]?
      some (add a (mul (sub pos (ofInt lo)) (sub b a)))

/-- The errors of one horizon that are known at `t`. -/
def knownErrors (errs : List (OriginError F)) (h : ℕ) (t : ℤ) : List F :=
  (errs.takeWhile (fun e ↦ e.t + h ≤ t)).map OriginError.err

def knownBandFrom (t : ℤ) (lowerQ upperQ : F) (monotone : Bool) :
    ℕ → F → F → List (List (OriginError F)) → Option (List (ℕ × F × F))
  | _, _, _, [] => some []
  | h, lo, hi, errs :: rest =>
    let past := sortFloat64s (knownErrors errs h t)
    if past.length < minErrors then
      if monotone then some []
      else knownBandFrom t lowerQ upperQ monotone (h + 1) lo hi rest
    else do
      let rl ← sortedQuantile past lowerQ
      let rh ← sortedQuantile past upperQ
      let lo' := if monotone then min lo rl else rl
      let hi' := if monotone then max hi rh else rh
      let out ← knownBandFrom t lowerQ upperQ monotone (h + 1) lo' hi' rest
      some ((h, lo', hi') :: out)

/-- The band by horizon, from the errors known at `t`. -/
def knownBand (all : List (List (OriginError F))) (t : ℤ) (lowerQ upperQ : F) (monotone : Bool) :
    Option (List (ℕ × F × F)) :=
  knownBandFrom t lowerQ upperQ monotone 1 (inf false) (inf true) all.tail

end Band

section Growth

variable {F : Type*} [Float64 F]

/-- The growth that is known with the months up to `top`: from the newest stored month,
over the newest one twelve to eighteen before it. -/
inductive GrowthAt (f : ℤ → F) (top : ℤ) : F → Prop
  | unread (h : ∀ i ≤ top, isNaN (f i) = true) : GrowthAt f top nan
  | unbased {m : ℤ} (h : IsNewest (fun i ↦ isNaN (f i) = false) top m)
      (hbase : ∀ i, m - 18 ≤ i → i ≤ m - 12 → isNaN (f i) = true) : GrowthAt f top nan
  | growth {m b : ℤ} (h : IsNewest (fun i ↦ isNaN (f i) = false) top m)
      (hbase : IsNewest (fun i ↦ m - 18 ≤ i ∧ isNaN (f i) = false) (m - 12) b) :
      GrowthAt f top (div (sub (f m) (f b)) (ofInt (m - b)))

theorem GrowthAt.unique {f f' : ℤ → F} {top : ℤ} (hf : ∀ i ≤ top, f i = f' i) {g g' : F}
    (h : GrowthAt f top g) (h' : GrowthAt f' top g') : g = g' := by
  have hnewest {m m' : ℤ} (hm : IsNewest (fun i ↦ isNaN (f i) = false) top m)
      (hm' : IsNewest (fun i ↦ isNaN (f' i) = false) top m') : m = m' :=
    hm.unique hm' (fun i hi ↦ by rw [hf i hi])
  cases h with
  | unread h =>
    cases h' with
    | unread => rfl
    | unbased => rfl
    | growth hm' =>
      have := hm'.holds
      rw [← hf _ hm'.le, h _ hm'.le] at this
      cases this
  | unbased hm hbase =>
    cases h' with
    | unread => rfl
    | unbased => rfl
    | growth hm' hb' =>
      obtain rfl := hnewest hm hm'
      obtain ⟨hlo, hheld⟩ := hb'.holds
      have := hm.le
      have := hb'.le
      rw [← hf _ (by omega), hbase _ hlo hb'.le] at hheld
      cases hheld
  | growth hm hb =>
    cases h' with
    | unread h' =>
      have := hm.holds
      rw [hf _ hm.le, h' _ hm.le] at this
      cases this
    | unbased hm' hbase' =>
      obtain rfl := hnewest hm hm'
      obtain ⟨hlo, hheld⟩ := hb.holds
      have := hm.le
      have := hb.le
      rw [hf _ (by omega), hbase' _ hlo hb.le] at hheld
      cases hheld
    | growth hm' hb' =>
      obtain rfl := hnewest hm hm'
      have := hm.le
      obtain rfl := hb.unique hb' (fun i hi ↦ by rw [hf i (by omega)])
      have := hb.le
      rw [hf _ hm.le, hf _ (by omega)]

theorem GrowthAt.shift {f : ℤ → F} {top : ℤ} {g : F} (h : GrowthAt f top g) (c : ℤ) :
    GrowthAt (fun i ↦ f (i - c)) (top + c) g := by
  cases h with
  | unread h => exact .unread (fun i hi ↦ h (i - c) (by omega))
  | unbased hm hbase =>
    exact .unbased (hm.shift c) (fun i hi hi' ↦ hbase (i - c) (by omega) (by omega))
  | @growth m b hm hb =>
    have hbase : IsNewest (fun i ↦ m + c - 18 ≤ i ∧ isNaN (f (i - c)) = false) (m + c - 12)
        (b + c) := by
      have hle := hb.le
      obtain ⟨hlo, hheld⟩ := hb.holds
      refine ⟨by omega, ⟨by omega, ?_⟩, fun i hi hi' h ↦ ?_⟩
      · rw [add_sub_cancel_right]
        exact hheld
      · exact hb.newest (i - c) (by omega) (by omega) ⟨by omega, h.2⟩
    have := GrowthAt.growth (hm.shift c) hbase
    rw [add_sub_cancel_right, add_sub_cancel_right, add_sub_add_right_eq_sub] at this
    exact this

theorem usableM2_spec (p : Panel F) (t : ℤ) :
    (p.usableM2 t < 0 ∧ ∀ i ≤ t - p.lag, isNaN (p.at p.m2 i) = true) ∨
      (0 ≤ p.usableM2 t ∧
        IsNewest (fun i ↦ isNaN (p.at p.m2 i) = false) (t - p.lag) (p.usableM2 t)) := by
  rw [Panel.usableM2]
  generalize hk : (if (p.m2.length : ℤ) ≤ t - p.lag then (p.m2.length : ℤ) - 1 else t - p.lag) = k
  have hoff : ∀ i, k < i → i ≤ t - p.lag → isNaN (p.at p.m2 i) = true := by
    intro i hi hit
    rw [Panel.at, slot_of_length_le (by split at hk <;> omega), isNaN_nan]
  have hkt : k ≤ t - p.lag := by split at hk <;> omega
  obtain ⟨hle, hstop, hpassed⟩ := stepBack_spec
    (fun j ↦ decide (0 ≤ j) && isNaN (p.at p.m2 j)) (n := (k + 1).toNat) (j := k) (by
      rw [decide_eq_false (by omega), Bool.false_and])
  generalize stepBack _ (k + 1).toNat k = r at hle hstop hpassed
  have habove : ∀ i, r < i → i ≤ t - p.lag → isNaN (p.at p.m2 i) = true := by
    intro i hi hit
    rcases le_or_gt i k with hik | hik
    · exact (Bool.and_eq_true_iff.mp (hpassed i hi hik)).2
    · exact hoff i hik hit
  rcases lt_or_ge r 0 with hr | hr
  · refine .inl ⟨hr, fun i hi ↦ ?_⟩
    rcases lt_or_ge i 0 with hi' | hi'
    · rw [Panel.at, slot_of_neg hi', isNaN_nan]
    · exact habove i (by omega) hi
  · rw [decide_eq_true hr, Bool.true_and] at hstop
    refine .inr ⟨hr, hle.trans hkt, hstop, fun i hi hit ↦ ?_⟩
    rw [habove i hi hit]
    exact Bool.noConfusion

theorem not_isNaN_of_eq_false {x : F} (h : isNaN x = false) : ¬ isNaN x = true := by
  rw [h]
  exact Bool.noConfusion

theorem m2Growth_spec (p : Panel F) (t : ℤ) :
    GrowthAt (fun i ↦ p.at p.m2 i) (t - p.lag) (p.m2Growth (p.usableM2 t)) := by
  rcases usableM2_spec p t with ⟨hneg, hnone⟩ | ⟨hpos, hnewest⟩
  · rw [Panel.m2Growth, if_pos (.inl hneg)]
    exact .unread hnone
  · generalize p.usableM2 t = k at hpos hnewest
    have hlen : ¬ (p.m2.length : ℤ) ≤ k := by
      intro hle
      have := hnewest.holds
      rw [Panel.at, slot_of_length_le hle, isNaN_nan] at this
      cases this
    rw [Panel.m2Growth, if_neg (by simp [hlen, hnewest.holds]; omega)]
    obtain ⟨hle, hstop, hpassed⟩ := stepBack_spec
      (fun j ↦ decide (0 ≤ j) && decide (k - 18 < j) && isNaN (p.at p.m2 j)) (n := 6)
      (j := k - 12) (by
        rw [decide_eq_false (p := k - 18 < _) (by omega), Bool.and_false, Bool.false_and])
    generalize stepBack _ 6 (k - 12) = r at hle hstop hpassed
    have habove : ∀ i, r < i → i ≤ k - 12 → isNaN (p.at p.m2 i) = true := fun i hi hik ↦
      (Bool.and_eq_true_iff.mp (hpassed i hi hik)).2
    have hlo : k - 18 ≤ r := by
      by_contra hlt
      have hpass := hpassed (k - 18) (by omega) (by omega)
      rw [decide_eq_false (p := k - 18 < k - 18) (by omega)] at hpass
      simp at hpass
    dsimp only
    split
    · rename_i hmiss
      refine .unbased hnewest (fun i hi hik ↦ ?_)
      rcases lt_or_ge r i with hri | hri
      · exact habove i hri hik
      · rcases hmiss with hr | hr
        · rw [Panel.at, slot_of_neg (by omega), isNaN_nan]
        · simp only [hr, Bool.and_true, Bool.and_eq_false_iff, decide_eq_false_iff_not] at hstop
          rcases hstop with hneg | hlow
          · rw [Panel.at, slot_of_neg (by omega), isNaN_nan]
          · obtain rfl : i = r := by omega
            exact hr
    · rename_i hheld
      rw [not_or, not_lt, Bool.not_eq_true] at hheld
      refine .growth hnewest ⟨hle, ⟨hlo, hheld.2⟩, fun i hi hik h ↦ ?_⟩
      exact not_isNaN_of_eq_false h.2 (habove i hi hik)

end Growth

section Agreement

variable {F : Type*} [Float64 F] {log : F → F}

/-- Two panels that say the same of the dollar up to month `t` and of M2 up to
`lag` months before it, whatever months their grids cover. -/
structure Agree (p p' : Panel F) (t : ℤ) : Prop where
  lag : p.lag = p'.lag
  avg : ∀ m ≤ t, p.at p.avg (p.idx m) = p'.at p'.avg (p'.idx m)
  close : ∀ m ≤ t, p.at p.close (p.idx m) = p'.at p'.close (p'.idx m)
  m2 : ∀ m ≤ t - p.lag, p.at p.m2 (p.idx m) = p'.at p'.m2 (p'.idx m)
  first : 0 ≤ p.iFirst → p.first + p.iFirst < t →
    0 ≤ p'.iFirst ∧ p'.first + p'.iFirst = p.first + p.iFirst

theorem Agree.mono {p p' : Panel F} {s t : ℤ} (h : Agree p p' t) (hs : s ≤ t) :
    Agree p p' s :=
  ⟨h.lag, fun m hm ↦ h.avg m (hm.trans hs), fun m hm ↦ h.close m (hm.trans hs),
    fun m hm ↦ h.m2 m (by omega), fun hpos hlt ↦ h.first hpos (hlt.trans_le hs)⟩

theorem Agree.series {p p' : Panel F} {t : ℤ} (h : Agree p p' t) (tg : Target) {m : ℤ}
    (hm : m ≤ t) :
    p.at (p.series tg) (p.idx m) = p'.at (p'.series tg) (p'.idx m) := by
  cases tg with
  | close => exact h.close m hm
  | avg => exact h.avg m hm

theorem trendSlope_idx (p : Panel F) (t : ℤ) :
    p.trendSlope (p.idx t) =
      if 0 ≤ p.iFirst ∧ p.first + p.iFirst < t then
        div (sub (p.at p.avg (p.idx t)) (p.at p.avg (p.idx (p.first + p.iFirst))))
          (ofInt (t - (p.first + p.iFirst)))
      else nan := by
  have hfirst : p.idx (p.first + p.iFirst) = p.iFirst := by rw [Panel.idx]; omega
  have hspan : t - (p.first + p.iFirst) = p.idx t - p.iFirst := by rw [Panel.idx]; omega
  rw [Panel.trendSlope, hfirst, hspan]
  have hidx : p.idx t = t - p.first := rfl
  by_cases h : 0 ≤ p.iFirst ∧ p.first + p.iFirst < t
  · rw [if_pos h, if_neg (by omega)]
  · rw [if_neg h, if_pos (by omega)]

theorem Agree.trendSlope {p p' : Panel F} {t : ℤ} (h : Agree p p' t) (h' : Agree p' p t) :
    p.trendSlope (p.idx t) = p'.trendSlope (p'.idx t) := by
  rw [trendSlope_idx, trendSlope_idx]
  by_cases hp : 0 ≤ p.iFirst ∧ p.first + p.iFirst < t
  · obtain ⟨hpos, hsame⟩ := h.first hp.1 hp.2
    rw [if_pos hp, if_pos ⟨hpos, hsame ▸ hp.2⟩, hsame, h.avg t le_rfl, h.avg _ hp.2.le]
  · have hp' : ¬ (0 ≤ p'.iFirst ∧ p'.first + p'.iFirst < t) := by
      rintro ⟨hpos, hlt⟩
      obtain ⟨hpos', hsame⟩ := h'.first hpos hlt
      exact hp ⟨hpos', hsame ▸ hlt⟩
    rw [if_neg hp, if_neg hp']

theorem m2Growth_months (p : Panel F) (t : ℤ) :
    GrowthAt (fun m ↦ p.at p.m2 (p.idx m)) (t - p.lag) (p.m2Growth (p.usableM2 (p.idx t))) := by
  have hshift := (m2Growth_spec p (p.idx t)).shift p.first
  have htop : p.idx t - p.lag + p.first = t - p.lag := by rw [Panel.idx]; omega
  rw [htop] at hshift
  exact hshift

theorem Agree.forecast {p p' : Panel F} {t : ℤ} (h : Agree p p' t) (h' : Agree p' p t)
    (m : Model) (tg : Target) (k : ℤ) :
    p.forecast m (p.series tg) (p.idx t) k = p'.forecast m (p'.series tg) (p'.idx t) k := by
  cases m with
  | randomWalk => exact h.series tg le_rfl
  | trend => rw [Panel.forecast, Panel.forecast, h.series tg le_rfl, h.trendSlope h']
  | m2Paced =>
    have hgrowth : p.m2Growth (p.usableM2 (p.idx t)) = p'.m2Growth (p'.usableM2 (p'.idx t)) :=
      (m2Growth_months p t).unique h.m2 (h.lag ▸ m2Growth_months p' t)
    rw [Panel.forecast, Panel.forecast, h.series tg le_rfl, hgrowth]

end Agreement

section Known

variable {F : Type*} [Float64 F]

def Panel.Bounded (p : Panel F) : Prop :=
  ∀ tg i, isNaN (p.at (p.series tg) i) = false → 0 ≤ p.iLast ∧ i ≤ p.iLast

theorem isNaN_forecast_of_neg (p : Panel F) (m : Model) (y : List F) {t : ℤ} (ht : t < 0)
    (h : ℤ) : isNaN (p.forecast m y t h) = true := by
  have hoff : p.at y t = nan := slot_of_neg ht
  cases m with
  | randomWalk => rw [Panel.forecast, hoff, isNaN_nan]
  | trend => rw [Panel.forecast, hoff, isNaN_nan_add]
  | m2Paced => rw [Panel.forecast, hoff, isNaN_nan_add]

theorem originError_eq_some {p : Panel F} {m : Model} {y : List F} {h t : ℤ} {e : OriginError F}
    (he : p.originError m y h t = some e) :
    e.t = t ∧ isNaN (p.forecast m y t h) = false ∧ isNaN (p.at y (t + h)) = false := by
  rw [Panel.originError] at he
  split at he
  · cases he
  · rename_i hnum
    rw [Bool.or_eq_true, not_or, Bool.not_eq_true, Bool.not_eq_true] at hnum
    obtain rfl := Option.some.inj he
    exact ⟨rfl, hnum⟩

theorem Panel.Bounded.of_originError {p : Panel F} (hb : p.Bounded) {m : Model} {tg : Target}
    {h t : ℤ} (he : (p.originError m (p.series tg) h t).isSome) :
    0 ≤ t ∧ 0 ≤ p.iLast ∧ t + h ≤ p.iLast := by
  obtain ⟨e, he⟩ := Option.isSome_iff_exists.mp he
  obtain ⟨_, hforecast, houtcome⟩ := originError_eq_some he
  refine ⟨?_, hb tg _ houtcome⟩
  by_contra hneg
  rw [isNaN_forecast_of_neg p m _ (not_le.mp hneg)] at hforecast
  cases hforecast

theorem Panel.Bounded.errors {p : Panel F} (hb : p.Bounded) (m : Model) (tg : Target)
    (h fromT : ℤ) :
    p.errors m (p.series tg) h fromT (p.iLast - h) =
      (Int.range fromT (p.iLast - h + 1)).filterMap (p.originError m (p.series tg) h) := by
  rw [Panel.errors]
  split
  · rename_i hneg
    rw [eq_comm, filterMap_eq_nil_iff]
    intro t _
    rw [← Option.not_isSome_iff_eq_none]
    exact fun hsome ↦ absurd (hb.of_originError hsome).2.1 (not_le.mpr hneg)
  · rw [min_self]
    refine filterMap_range (fun t ht ↦ ?_)
    have := hb.of_originError ht
    omega

theorem Panel.Bounded.knownErrors {p : Panel F} (hb : p.Bounded) (m : Model) (tg : Target)
    (h : ℕ) (poolFrom t : ℤ) :
    knownErrors (p.errors m (p.series tg) h (p.idx poolFrom) (p.iLast - h)) h (p.idx t) =
      (Int.range poolFrom (t - h + 1)).filterMap (fun s ↦
        (p.originError m (p.series tg) h (p.idx s)).map OriginError.err) := by
  have hasc : AscendingBy OriginError.t
      ((Int.range (p.idx poolFrom) (p.iLast - h + 1)).filterMap
        (p.originError m (p.series tg) h)) := by
    refine (range_ascending _ _).filterMap _ (fun i j hij e he e' he' ↦ ?_)
    rw [(originError_eq_some he).1, (originError_eq_some he').1]
    exact hij
  rw [Liquidity.knownErrors, hb.errors,
    hasc.takeWhile_eq_filter (p := fun i ↦ decide (i + h ≤ p.idx t))
      (fun k k' hk hk' ↦ decide_eq_true (by have := of_decide_eq_true hk'; omega)),
    filter_filterMap, map_filterMap]
  have hknown : ∀ i, i + h ≤ p.idx t →
      (p.originError m (p.series tg) h i).filter (fun e ↦ decide (e.t + h ≤ p.idx t)) =
        p.originError m (p.series tg) h i := by
    intro i hi
    cases he : p.originError m (p.series tg) h i with
    | none => rfl
    | some e =>
      rw [Option.filter_some,
        if_pos (decide_eq_true (by rw [(originError_eq_some he).1]; exact hi))]
  have hlate : ∀ i, ¬ i + h ≤ p.idx t →
      (p.originError m (p.series tg) h i).filter (fun e ↦ decide (e.t + h ≤ p.idx t)) = none := by
    intro i hi
    cases he : p.originError m (p.series tg) h i with
    | none => rfl
    | some e =>
      rw [Option.filter_some,
        if_neg (by rw [(originError_eq_some he).1, decide_eq_true_eq]; exact hi)]
  have hlo : p.idx poolFrom + p.first = poolFrom := by rw [Panel.idx]; omega
  have hhi : p.idx t - h + 1 + p.first = t - h + 1 := by rw [Panel.idx]; omega
  calc _ = (Int.range (p.idx poolFrom) (p.idx t - h + 1)).filterMap (fun i ↦
          ((p.originError m (p.series tg) h i).filter
            (fun e ↦ decide (e.t + h ≤ p.idx t))).map OriginError.err) := by
        refine filterMap_range (fun i hi ↦ ?_)
        rw [Option.isSome_map] at hi
        by_cases hle : i + h ≤ p.idx t
        · rw [hknown i hle] at hi
          have := hb.of_originError hi
          omega
        · rw [hlate i hle] at hi
          cases hi
    _ = (Int.range (p.idx poolFrom) (p.idx t - h + 1)).filterMap (fun i ↦
          (p.originError m (p.series tg) h i).map OriginError.err) := by
        refine filterMap_congr (fun i hi ↦ ?_)
        obtain ⟨_, hlt⟩ := Int.mem_range_iff.mp hi
        rw [hknown i (by omega)]
    _ = _ := by
        rw [filterMap_range_shift _ _ _ p.first, hlo, hhi]
        rfl

theorem Panel.m2Errors_eq (p : Panel F) (tg : Target) (poolFrom : ℤ) :
    p.m2Errors tg poolFrom = [] :: (List.range maxHorizon).map (fun (i : ℕ) ↦
      p.errors .m2Paced (p.series tg) (i + 1 : ℕ) (p.idx poolFrom) (p.iLast - (i + 1 : ℕ))) := by
  rw [Panel.m2Errors]
  split
  · rename_i hneg
    have hnone (i : ℕ) : p.errors .m2Paced (p.series tg) (i + 1 : ℕ) (p.idx poolFrom)
        (p.iLast - (i + 1 : ℕ)) = [] := by
      rw [Panel.errors, if_pos hneg]
    rw [map_congr_left (fun i _ ↦ hnone i)]
    rfl
  · rfl

theorem knownBandFrom_congr {t t' : ℤ} (lowerQ upperQ : F) (monotone : Bool)
    {all all' : List (List (OriginError F))} (hlen : all.length = all'.length) {h : ℕ}
    (hknown : ∀ i, Liquidity.knownErrors (all.getD i []) (h + i) t =
      Liquidity.knownErrors (all'.getD i []) (h + i) t') (lo hi : F) :
    knownBandFrom t lowerQ upperQ monotone h lo hi all =
      knownBandFrom t' lowerQ upperQ monotone h lo hi all' := by
  induction all generalizing h lo hi all' with
  | nil =>
    obtain rfl := length_eq_zero_iff.mp hlen.symm
    rfl
  | cons errs rest ih =>
    cases all' with
    | nil => cases hlen
    | cons errs' rest' =>
      have hrest (lo hi : F) := ih (Nat.succ.inj hlen) (h := h + 1) (fun i ↦ by
        have := hknown (i + 1)
        rw [getD_cons_succ, getD_cons_succ] at this
        rw [Nat.add_right_comm, Nat.add_assoc]
        exact this) lo hi
      have hhead : Liquidity.knownErrors errs h t = Liquidity.knownErrors errs' h t' := hknown 0
      simp only [knownBandFrom, hhead, hrest]

end Known

section NoLookAhead

variable {F : Type*} [Float64 F] {log : F → F}

theorem Agree.originError {p p' : Panel F} {t s : ℤ} (h : Agree p p' t) (h' : Agree p' p t)
    (m : Model) (tg : Target) {k : ℕ} (hs : s + k ≤ t) :
    (p.originError m (p.series tg) k (p.idx s)).map OriginError.err =
      (p'.originError m (p'.series tg) k (p'.idx s)).map OriginError.err := by
  have hforecast := (h.mono (s := s) (by omega)).forecast (h'.mono (by omega)) m tg k
  have houtcome := h.series tg hs
  have hidx (p : Panel F) : p.idx s + k = p.idx (s + k) := by rw [Panel.idx, Panel.idx]; omega
  rw [Panel.originError, Panel.originError, hidx, hidx, hforecast, houtcome]
  split <;> rfl

theorem Agree.knownBand {p p' : Panel F} {t : ℤ} (h : Agree p p' t) (h' : Agree p' p t)
    (hb : p.Bounded) (hb' : p'.Bounded) (tg : Target) (poolFrom : ℤ) (lowerQ upperQ : F)
    (monotone : Bool) :
    knownBand (p.m2Errors tg poolFrom) (p.idx t) lowerQ upperQ monotone =
      knownBand (p'.m2Errors tg poolFrom) (p'.idx t) lowerQ upperQ monotone := by
  rw [Liquidity.knownBand, Liquidity.knownBand, Panel.m2Errors_eq, Panel.m2Errors_eq]
  refine knownBandFrom_congr lowerQ upperQ monotone (by simp) (fun i ↦ ?_) _ _
  rw [tail_cons, tail_cons]
  by_cases hi : i < maxHorizon
  · simp only [getD_eq_getElem?_getD, getElem?_map, getElem?_range hi,
      Option.map_some, Option.getD_some, Nat.add_comm 1 i]
    rw [hb.knownErrors, hb'.knownErrors]
    refine filterMap_congr (fun s hs ↦ h.originError h' .m2Paced tg ?_)
    have := (Int.mem_range_iff.mp hs).2
    omega
  · have hlen : (List.range maxHorizon)[i]? = none :=
      getElem?_eq_none (by rw [length_range]; omega)
    simp only [getD_eq_getElem?_getD, getElem?_map, hlen, Option.map_none, Option.getD_none]
    rfl

theorem dollarAt_eq_nan {value : UsdMonth F → F} {usd : List (UsdMonth F)} {m : ℤ}
    (h : ∀ u ∈ usd, u.usable = true → u.month ≠ m) : dollarAt log value usd m = nan := by
  have hnone : (usd.filter UsdMonth.usable).reverse.find? (fun u ↦ u.month = m) = none := by
    refine find?_eq_none.mpr (fun u hu ↦ ?_)
    obtain ⟨hu, husable⟩ := mem_filter.mp (mem_reverse.mp hu)
    rw [decide_eq_true_eq]
    exact h u hu husable
  rw [dollarAt, hnone]
  rfl

theorem dollarAt_congr {value : UsdMonth F → F} {usd usd' : List (UsdMonth F)}
    (hone : (usd'.map UsdMonth.month).Nodup) {m : ℤ}
    (hsame : ∀ u : UsdMonth F, u.complete = true → u.month = m → (u ∈ usd ↔ u ∈ usd')) :
    dollarAt log value usd m = dollarAt log value usd' m := by
  have hfind : (usd.filter UsdMonth.usable).reverse.find? (fun u ↦ u.month = m) =
      (usd'.filter UsdMonth.usable).reverse.find? (fun u ↦ u.month = m) := by
    refine find?_reverse_congr (hone.sublist (filter_sublist.map _)) (fun u hu ↦ ?_)
    rw [mem_filter, mem_filter]
    refine and_congr_left (fun husable ↦ hsame u ?_ hu)
    exact (Bool.and_eq_true_iff.mp (Bool.and_eq_true_iff.mp husable).1).1
  rw [dollarAt, hfind, ← dollarAt]

theorem moneyAt_congr {m2 m2' : List (MoneyPoint F)} (hone : (m2'.map MoneyPoint.month).Nodup)
    {m : ℤ} (hsame : ∀ q : MoneyPoint F, q.month = m → (q ∈ m2 ↔ q ∈ m2')) :
    moneyAt log m2 m = moneyAt log m2' m := by
  have hfind : (m2.filter MoneyPoint.usable).reverse.find? (fun q ↦ q.month = m) =
      (m2'.filter MoneyPoint.usable).reverse.find? (fun q ↦ q.month = m) := by
    refine find?_reverse_congr (hone.sublist (filter_sublist.map _)) (fun q hq ↦ ?_)
    rw [mem_filter, mem_filter]
    exact and_congr_left (fun _ ↦ hsame q hq)
  rw [moneyAt, hfind, ← moneyAt]

def laggedPanel (log : F → F) (usd : List (UsdMonth F)) (m2 : List (MoneyPoint F)) (lag : ℤ) :
    Panel F := (newPanel log usd m2).withLag lag

theorem Panel.Lays.series {p : Panel F} {usd : List (UsdMonth F)} {m2 : List (MoneyPoint F)}
    (h : p.Lays log usd m2) (tg : Target) :
    ∃ value, ∀ m, p.at (p.series tg) (p.idx m) = dollarAt log value usd m := by
  cases tg with
  | close => exact ⟨_, h.close⟩
  | avg => exact ⟨_, h.avg⟩

theorem Panel.Lays.bounded {p : Panel F} {usd : List (UsdMonth F)} {m2 : List (MoneyPoint F)}
    (h : p.Lays log usd m2) : p.Bounded := by
  intro tg i hi
  obtain ⟨value, hvalue⟩ := h.series tg
  have hmonth : p.idx (p.first + i) = i := by rw [Panel.idx]; omega
  have hat := hvalue (p.first + i)
  rw [hmonth] at hat
  by_contra hout
  have hnone : ∀ u ∈ usd, u.usable = true → u.month ≠ p.first + i := by
    intro u hu husable hmonth
    have := h.last u hu husable
    exact hout ⟨this.2, by omega⟩
  rw [hat, dollarAt_eq_nan hnone, isNaN_nan] at hi
  cases hi

theorem Panel.Lays.agree {p p' : Panel F} {usd usd' : List (UsdMonth F)}
    {m2 m2' : List (MoneyPoint F)} (h : p.Lays log usd m2) (h' : p'.Lays log usd' m2')
    (hone : (usd'.map UsdMonth.month).Nodup) (hmoney : (m2'.map MoneyPoint.month).Nodup) {t : ℤ}
    (husd : ∀ u : UsdMonth F, u.complete = true → u.month ≤ t → (u ∈ usd ↔ u ∈ usd'))
    (hm2 : ∀ q : MoneyPoint F, q.month ≤ t - p.lag → (q ∈ m2 ↔ q ∈ m2'))
    (hlag : p.lag = p'.lag) : Agree p p' t := by
  refine ⟨hlag, fun m hm ↦ ?_, fun m hm ↦ ?_, fun m hm ↦ ?_, fun hpos hlt ↦ ?_⟩
  · rw [h.avg, h'.avg, dollarAt_congr hone (fun u hu hmonth ↦ husd u hu (hmonth ▸ hm))]
  · rw [h.close, h'.close, dollarAt_congr hone (fun u hu hmonth ↦ husd u hu (hmonth ▸ hm))]
  · rw [h.m2, h'.m2, moneyAt_congr hmoney (fun q hmonth ↦ hm2 q (hmonth ▸ hm))]
  · have hcomplete {u : UsdMonth F} (husable : u.usable = true) : u.complete = true :=
      (Bool.and_eq_true_iff.mp (Bool.and_eq_true_iff.mp husable).1).1
    obtain ⟨⟨u, hu, husable, hmonth⟩, hleast⟩ := h.first hpos
    have hu' := (husd u (hcomplete husable) (by omega)).mp hu
    have hpos' : 0 ≤ p'.iFirst := by
      by_contra hneg
      rw [h'.first_of_neg (not_le.mp hneg) u hu'] at husable
      cases husable
    obtain ⟨⟨v, hv, hvusable, hvmonth⟩, hleast'⟩ := h'.first hpos'
    have hle := hleast' u hu' husable
    have hge := hleast v ((husd v (hcomplete hvusable) (by omega)).mpr hv) hvusable
    exact ⟨hpos', by omega⟩

/-- Neither a forecast nor the band known at a month depends on a dollar month
after it, or on an M2 month less than the lag before it. -/
theorem scenario_never_looks_ahead {usd usd' : List (UsdMonth F)} {m2 m2' : List (MoneyPoint F)}
    (husd : (usd.map UsdMonth.month).Nodup) (husd' : (usd'.map UsdMonth.month).Nodup)
    (hm2 : (m2.map MoneyPoint.month).Nodup) (hm2' : (m2'.map MoneyPoint.month).Nodup)
    (log : F → F) (t lag : ℤ)
    (hdollar : ∀ u : UsdMonth F, u.complete = true → u.month ≤ t → (u ∈ usd ↔ u ∈ usd'))
    (hmoney : ∀ q : MoneyPoint F, q.month ≤ t - lag → (q ∈ m2 ↔ q ∈ m2')) :
    (∀ m tg h, (laggedPanel log usd m2 lag).forecast m ((laggedPanel log usd m2 lag).series tg)
          ((laggedPanel log usd m2 lag).idx t) h =
        (laggedPanel log usd' m2' lag).forecast m ((laggedPanel log usd' m2' lag).series tg)
          ((laggedPanel log usd' m2' lag).idx t) h) ∧
    (∀ tg poolFrom lowerQ upperQ monotone,
      knownBand ((laggedPanel log usd m2 lag).m2Errors tg poolFrom)
          ((laggedPanel log usd m2 lag).idx t) lowerQ upperQ monotone =
        knownBand ((laggedPanel log usd' m2' lag).m2Errors tg poolFrom)
          ((laggedPanel log usd' m2' lag).idx t) lowerQ upperQ monotone) := by
  have hlays : (laggedPanel log usd m2 lag).Lays log usd m2 :=
    (newPanel_lays log usd m2).withLag lag
  have hlays' : (laggedPanel log usd' m2' lag).Lays log usd' m2' :=
    (newPanel_lays log usd' m2').withLag lag
  have hagree := hlays.agree hlays' husd' hm2' hdollar hmoney rfl
  have hagree' := hlays'.agree hlays husd hm2 (fun u hu hm ↦ (hdollar u hu hm).symm)
    (fun q hq ↦ (hmoney q hq).symm) rfl
  exact ⟨fun m tg h ↦ hagree.forecast hagree' m tg h, fun tg poolFrom lowerQ upperQ monotone ↦
    hagree.knownBand hagree' hlays.bounded hlays'.bounded tg poolFrom lowerQ upperQ monotone⟩

end NoLookAhead

section Exact

open Economic

def addValue : Value → Value → Value
  | .finite x, .finite y => .finite (x + y)
  | .infinite n, .infinite n' => if n = n' then .infinite n else .nan
  | .infinite n, .finite _ => .infinite n
  | .finite _, .infinite n => .infinite n
  | .nan, _ => .nan
  | _, .nan => .nan

def negValue : Value → Value
  | .finite x => .finite (-x)
  | .infinite n => .infinite !n
  | .nan => .nan

def isNegative : Value → Bool
  | .finite x => decide (x < 0)
  | .infinite n => n
  | .nan => false

def mulValue : Value → Value → Value
  | .finite x, .finite y => .finite (x * y)
  | .nan, _ => .nan
  | _, .nan => .nan
  | x, y => if x = .finite 0 ∨ y = .finite 0 then .nan else .infinite (isNegative x != isNegative y)

def divValue : Value → Value → Value
  | .finite x, .finite y =>
    if y ≠ 0 then .finite (x / y) else if x = 0 then .nan else .infinite (decide (x < 0))
  | .finite _, .infinite _ => .finite 0
  | .infinite n, .finite y => .infinite (n != decide (y < 0))
  | _, _ => .nan

def ltValue : Value → Value → Bool
  | .finite x, .finite y => decide (x < y)
  | .infinite n, .infinite n' => n && !n'
  | .infinite n, .finite _ => n
  | .finite _, .infinite n => !n
  | _, _ => false

/-- Exact arithmetic with the special values of a float. -/
instance : Float64 Value where
  nan := .nan
  isNaN x := x = .nan
  inf := .infinite
  ofInt n := .finite n
  add := addValue
  sub x y := addValue x (negValue y)
  mul := mulValue
  div := divValue
  le x y := ltValue x y || (x = y && x ≠ .nan)
  lt := ltValue
  min x y := if x = .infinite true ∨ y = .infinite true then .infinite true
    else if x = .nan ∨ y = .nan then .nan else if ltValue x y then x else y
  max x y := if x = .infinite false ∨ y = .infinite false then .infinite false
    else if x = .nan ∨ y = .nan then .nan else if ltValue y x then x else y
  floor
    | .finite x => x.floor
    | _ => 0
  isNaN_nan := rfl
  isNaN_nan_add x := by cases x <;> rfl

def unitMonth (m : ℤ) : UsdMonth Value := ⟨m, .finite 1, .finite 1, true⟩

theorem later_month_unread :
    (laggedPanel (fun _ ↦ Value.finite 0) [unitMonth 0] [⟨-3, .finite 1⟩] 3).forecast .m2Paced
        (laggedPanel (fun _ ↦ Value.finite 0) [unitMonth 0] [⟨-3, .finite 1⟩] 3).close 3 1 =
      (laggedPanel (fun _ ↦ Value.finite 0) [unitMonth 1, unitMonth 0]
          [⟨-2, .finite 1⟩, ⟨-3, .finite 1⟩] 3).forecast .m2Paced
        (laggedPanel (fun _ ↦ Value.finite 0) [unitMonth 1, unitMonth 0]
          [⟨-2, .finite 1⟩, ⟨-3, .finite 1⟩] 3).close 3 1 := by
  refine (scenario_never_looks_ahead (by decide) (by decide) (by decide) (by decide) _ 0 3
    (fun u _ hm ↦ ?_) (fun q hq ↦ ?_)).1 .m2Paced .close 1
  · have hlate : u ≠ unitMonth 1 := by
      rintro rfl
      exact absurd hm (by decide)
    simp [hlate]
  · have hlate : q ≠ ⟨-2, .finite 1⟩ := by
      rintro rfl
      exact absurd hq (by decide)
    simp [hlate]

end Exact

end TalaPala.Liquidity
