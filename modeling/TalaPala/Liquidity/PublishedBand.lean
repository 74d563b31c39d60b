import TalaPala.Liquidity.KnownBand
import Mathlib.Data.List.TakeWhile

namespace TalaPala.Liquidity

open Library Float64 List

def evalStart : ℤ := 12 * 1394

section Definitions

variable {F : Type*} [Float64 F]

def bandLowerQ : F := div (ofInt 5) (ofInt 100)

def bandUpperQ : F := div (ofInt 95) (ofInt 100)

def medianQ : F := div (ofInt 1) (ofInt 2)

structure BandStep (F : Type*) where
  h : ℕ
  lo : F
  hi : F
  rawLo : F
  rawHi : F
  median : F
  n : ℕ

def BandStep.edges (s : BandStep F) : ℕ × F × F := (s.h, s.lo, s.hi)

/-- The loop over the horizons, `k` of them from horizon `h` on. -/
def Panel.bandFrom (p : Panel F) (y : List F) (fromT : ℤ) :
    ℕ → ℕ → F → F → Option (List (BandStep F))
  | 0, _, _, _ => some []
  | k + 1, h, lo, hi =>
    let errs := p.errors .m2Paced y h fromT (p.iLast - h)
    if errs.length < minErrors then some []
    else do
      let vals := sortFloat64s (errs.map OriginError.err)
      let rl ← sortedQuantile vals bandLowerQ
      let rh ← sortedQuantile vals bandUpperQ
      let lo' := min lo rl
      let hi' := max hi rh
      let median ← sortedQuantile vals medianQ
      let out ← p.bandFrom y fromT k (h + 1) lo' hi'
      some (⟨h, lo', hi', rl, rh, median, errs.length⟩ :: out)

def Panel.band (p : Panel F) (tg : Target) (horizon : ℕ) : Option (List (BandStep F)) :=
  if p.iLast < 0 then some []
  else p.bandFrom (p.series tg) (p.idx evalStart) horizon 1 (inf false) (inf true)

structure CoverageCell where
  hits : ℕ
  n : ℕ

def CoverageCell.count (c : CoverageCell) (hit : Bool) : CoverageCell :=
  ⟨c.hits + hit.toNat, c.n + 1⟩

def own (errs : List (OriginError F)) (t : ℤ) : Option F :=
  (errs.reverse.find? (fun e ↦ e.t = t)).map OriginError.err

def within (edges : F × F) (e : F) : Bool := le edges.1 e && le e edges.2

def coverOrigin (all : List (List (OriginError F))) (band : List (ℕ × F × F)) (t : ℤ)
    (out : ℕ → CoverageCell) (h : ℕ) : ℕ → CoverageCell :=
  match band.lookup h, own (all.getD h []) t with
  | some b, some e => Function.update out h ((out h).count (within b e))
  | _, _ => out

/-- The cells by horizon; one that is never counted reads as an empty one. -/
def Panel.coverage (p : Panel F) (tg : Target) (lowerQ upperQ : F) (monotone : Bool)
    (poolFrom : ℤ) : Option (ℕ → CoverageCell) :=
  if p.iLast < 0 then some (fun _ ↦ ⟨0, 0⟩)
  else
    let all := p.m2Errors tg poolFrom
    (Int.range (p.idx evalStart) p.iLast).foldlM (fun out t ↦
      (knownBand all t lowerQ upperQ monotone).map (fun band ↦
        ((List.range' 1 maxHorizon).takeWhile (fun (h : ℕ) ↦ t + h ≤ p.iLast)).foldl
          (coverOrigin all band t) out)) (fun _ ↦ ⟨0, 0⟩)

end Definitions

section Drawn

/-- What the band relies on of floating-point numbers: their order, and that a length
times a fraction is not negative. -/
class FloatLaws (F : Type*) [Float64 F] : Prop where
  lt_irrefl : ∀ x : F, lt x x = false
  lt_of_lt_min : ∀ x y z : F, lt z (min x y) = true → lt z x = true
  lt_of_max_lt : ∀ x y z : F, lt (max x y) z = true → lt x z = true
  floor_nonneg : ∀ n a b : ℤ, 0 ≤ n → 0 ≤ a → 0 < b →
    0 ≤ floor (mul (ofInt n) (div (ofInt a) (ofInt b)) : F)

variable {F : Type*} [Float64 F] {p : Panel F} {y : List F} {fromT : ℤ}

theorem bandFrom_succ_eq_some {k h : ℕ} {lo hi : F} {steps : List (BandStep F)}
    (hsteps : p.bandFrom y fromT (k + 1) h lo hi = some steps) :
    steps = [] ∨ ∃ s rest, steps = s :: rest ∧ s.h = h ∧ s.lo = min lo s.rawLo ∧
      s.hi = max hi s.rawHi ∧ minErrors ≤ s.n ∧
      p.bandFrom y fromT k (h + 1) s.lo s.hi = some rest := by
  rw [Panel.bandFrom] at hsteps
  dsimp only at hsteps
  split at hsteps
  · exact .inl (Option.some.inj hsteps).symm
  · rename_i hmany
    simp only [Option.bind_eq_bind, Option.bind_eq_some_iff] at hsteps
    obtain ⟨rl, -, rh, -, median, -, rest, hrest, hsteps⟩ := hsteps
    exact .inr ⟨_, rest, (Option.some.inj hsteps).symm, rfl, rfl, rfl, not_lt.mp hmany, hrest⟩

theorem bandFrom_horizons {k h : ℕ} {lo hi : F} {steps : List (BandStep F)}
    (hsteps : p.bandFrom y fromT k h lo hi = some steps) :
    ∃ j ≤ k, steps.map BandStep.h = List.range' h j := by
  induction k generalizing h lo hi steps with
  | zero =>
    obtain rfl := Option.some.inj hsteps
    exact ⟨0, le_rfl, rfl⟩
  | succ k ih =>
    rcases bandFrom_succ_eq_some hsteps with rfl | ⟨s, rest, rfl, hh, -, -, -, hrest⟩
    · exact ⟨0, Nat.zero_le _, rfl⟩
    · obtain ⟨j, hj, hmap⟩ := ih hrest
      exact ⟨j + 1, Nat.succ_le_succ hj, by rw [map_cons, hmap, hh, range'_succ]⟩

theorem bandFrom_pooled {k h : ℕ} {lo hi : F} {steps : List (BandStep F)}
    (hsteps : p.bandFrom y fromT k h lo hi = some steps) : ∀ s ∈ steps, minErrors ≤ s.n := by
  induction k generalizing h lo hi steps with
  | zero =>
    obtain rfl := Option.some.inj hsteps
    exact fun s hs ↦ absurd hs not_mem_nil
  | succ k ih =>
    rcases bandFrom_succ_eq_some hsteps with rfl | ⟨s, rest, rfl, -, -, -, hn, hrest⟩
    · exact fun s hs ↦ absurd hs not_mem_nil
    · exact forall_mem_cons.mpr ⟨hn, ih hrest⟩

variable [FloatLaws F]

theorem bandFrom_widens {k h : ℕ} {lo hi : F} {steps : List (BandStep F)}
    (hsteps : p.bandFrom y fromT k h lo hi = some steps) :
    (∀ s ∈ steps, ∀ z, (lt z s.lo = true → lt z lo = true) ∧
      (lt s.hi z = true → lt hi z = true)) ∧
    steps.Pairwise (fun s s' ↦ lt s.lo s'.lo = false ∧ lt s'.hi s.hi = false) := by
  induction k generalizing h lo hi steps with
  | zero =>
    obtain rfl := Option.some.inj hsteps
    exact ⟨fun s hs ↦ absurd hs not_mem_nil, .nil⟩
  | succ k ih =>
    rcases bandFrom_succ_eq_some hsteps with rfl | ⟨s, rest, rfl, -, hlo, hhi, -, hrest⟩
    · exact ⟨fun s hs ↦ absurd hs not_mem_nil, .nil⟩
    · obtain ⟨hbeyond, hpair⟩ := ih hrest
      have hfirst (z : F) : (lt z s.lo = true → lt z lo = true) ∧
          (lt s.hi z = true → lt hi z = true) := by
        rw [hlo, hhi]
        exact ⟨FloatLaws.lt_of_lt_min _ _ _, FloatLaws.lt_of_max_lt _ _ _⟩
      refine ⟨forall_mem_cons.mpr ⟨hfirst, fun s' hs' z ↦ ?_⟩,
        pairwise_cons.mpr ⟨fun s' hs' ↦ ?_, hpair⟩⟩
      · exact ⟨fun h ↦ (hfirst z).1 ((hbeyond s' hs' z).1 h),
          fun h ↦ (hfirst z).2 ((hbeyond s' hs' z).2 h)⟩
      · refine ⟨?_, ?_⟩ <;> rw [← Bool.not_eq_true]
        · intro h
          have hself := (hbeyond s' hs' s.lo).1 h
          rw [FloatLaws.lt_irrefl] at hself
          cases hself
        · intro h
          have hself := (hbeyond s' hs' s.hi).2 h
          rw [FloatLaws.lt_irrefl] at hself
          cases hself

theorem sortedQuantile_fraction (s : List F) {a b : ℤ} (ha : 0 ≤ a) (hb : 0 < b) :
    ∃ x, sortedQuantile s (div (ofInt a) (ofInt b)) = some x := by
  rw [sortedQuantile]
  split
  · exact ⟨_, rfl⟩
  · rename_i hs
    have hlen : 0 < s.length := length_pos_of_ne_nil hs
    have hfloor := FloatLaws.floor_nonneg (F := F) ((s.length : ℤ) - 1) a b (by omega) ha hb
    dsimp only
    split
    · exact ⟨_, getLast?_eq_some_getLast hs⟩
    · rename_i hlo
      rw [if_neg (not_lt.mpr hfloor), getElem?_eq_getElem (by omega),
        getElem?_eq_getElem (by omega)]
      exact ⟨_, rfl⟩

theorem sortedQuantile_lower (s : List F) : ∃ x, sortedQuantile s bandLowerQ = some x :=
  sortedQuantile_fraction s (by decide) (by decide)

theorem sortedQuantile_upper (s : List F) : ∃ x, sortedQuantile s bandUpperQ = some x :=
  sortedQuantile_fraction s (by decide) (by decide)

theorem sortedQuantile_median (s : List F) : ∃ x, sortedQuantile s medianQ = some x :=
  sortedQuantile_fraction s (by decide) (by decide)

theorem knownBandFrom_total (t : ℤ) (monotone : Bool) (all : List (List (OriginError F))) (h : ℕ)
    (lo hi : F) :
    ∃ known, knownBandFrom t bandLowerQ bandUpperQ monotone h lo hi all = some known := by
  induction all generalizing h lo hi with
  | nil => exact ⟨_, rfl⟩
  | cons errs rest ih =>
    rw [knownBandFrom]
    dsimp only
    split
    · split
      · exact ⟨_, rfl⟩
      · exact ih _ _ _
    · obtain ⟨rl, hrl⟩ := sortedQuantile_lower (sortFloat64s (knownErrors errs h t))
      obtain ⟨rh, hrh⟩ := sortedQuantile_upper (sortFloat64s (knownErrors errs h t))
      obtain ⟨out, hout⟩ := ih (h + 1) (if monotone then min lo rl else rl)
        (if monotone then max hi rh else rh)
      rw [hrl, hrh]
      simp only [Option.bind_eq_bind, Option.bind_some, hout]
      exact ⟨_, rfl⟩

omit [FloatLaws F] in
theorem knownBandFrom_keys {t : ℤ} {lowerQ upperQ : F} {monotone : Bool}
    {all : List (List (OriginError F))} {h : ℕ} {lo hi : F} {known : List (ℕ × F × F)}
    (hknown : knownBandFrom t lowerQ upperQ monotone h lo hi all = some known) :
    ∀ x ∈ known, h ≤ x.1 ∧ x.1 < h + all.length := by
  induction all generalizing h lo hi known with
  | nil =>
    obtain rfl := Option.some.inj hknown
    exact fun x hx ↦ absurd hx not_mem_nil
  | cons errs rest ih =>
    have hlater {out : List (ℕ × F × F)} {lo hi : F}
        (hout : knownBandFrom t lowerQ upperQ monotone (h + 1) lo hi rest = some out)
        (x : ℕ × F × F) (hx : x ∈ out) : h ≤ x.1 ∧ x.1 < h + (errs :: rest).length := by
      have := ih hout x hx
      rw [length_cons]
      omega
    rw [knownBandFrom] at hknown
    dsimp only at hknown
    split at hknown
    · split at hknown
      · obtain rfl := Option.some.inj hknown
        exact fun x hx ↦ absurd hx not_mem_nil
      · exact hlater hknown
    · simp only [Option.bind_eq_bind, Option.bind_eq_some_iff] at hknown
      obtain ⟨rl, -, rh, -, out, hout, hknown⟩ := hknown
      obtain rfl := Option.some.inj hknown
      exact forall_mem_cons.mpr ⟨⟨le_rfl, by rw [length_cons]; omega⟩, hlater hout⟩

omit [FloatLaws F] in
theorem known_of_mem_errors {m : Model} {h toT : ℤ} {e : OriginError F}
    (he : e ∈ p.errors m y h fromT toT) : e.t + h ≤ p.iLast := by
  rw [Panel.errors] at he
  split at he
  · cases he
  · obtain ⟨t, ht, hsome⟩ := mem_filterMap.mp he
    have hlt := (Int.mem_range_iff.mp ht).2
    rw [(originError_eq_some hsome).1]
    omega

omit [FloatLaws F] in
theorem knownErrors_last {m : Model} {h : ℕ} {toT : ℤ} :
    knownErrors (p.errors m y h fromT toT) h p.iLast =
      (p.errors m y h fromT toT).map OriginError.err := by
  rw [knownErrors, takeWhile_eq_self_iff.mpr (fun e he ↦
    decide_eq_true (known_of_mem_errors he))]

omit [FloatLaws F] in
theorem length_sortFloat64s (l : List F) : (sortFloat64s l).length = l.length :=
  length_mergeSort _

theorem bandFrom_eq_known {k m h : ℕ} {lo hi : F} {known : List (ℕ × F × F)} (hk : k ≤ m)
    (hknown : knownBandFrom p.iLast bandLowerQ bandUpperQ true h lo hi
      ((List.range' h m).map (fun (j : ℕ) ↦ p.errors .m2Paced y j fromT (p.iLast - j))) =
        some known) :
    ∃ steps, p.bandFrom y fromT k h lo hi = some steps ∧
      steps.map BandStep.edges = known.filter (fun x ↦ x.1 < h + k) := by
  induction k generalizing m h lo hi known with
  | zero =>
    refine ⟨[], rfl, (filter_eq_nil_iff.mpr (fun x hx ↦ ?_)).symm⟩
    rw [decide_eq_true_eq, not_lt, Nat.add_zero]
    exact (knownBandFrom_keys hknown x hx).1
  | succ k ih =>
    obtain ⟨m, rfl⟩ : ∃ m', m = m' + 1 := ⟨m - 1, by omega⟩
    rw [range'_succ, map_cons, knownBandFrom, knownErrors_last, length_sortFloat64s,
      length_map] at hknown
    rw [Panel.bandFrom]
    dsimp only at hknown ⊢
    split at hknown
    · rename_i hfew
      obtain rfl := Option.some.inj hknown
      rw [if_pos hfew]
      exact ⟨[], rfl, rfl⟩
    · rename_i hmany
      simp only [Option.bind_eq_bind, Option.bind_eq_some_iff] at hknown
      obtain ⟨rl, hrl, rh, hrh, out, hout, hknown⟩ := hknown
      obtain rfl := Option.some.inj hknown
      obtain ⟨median, hmedian⟩ := sortedQuantile_median
        (sortFloat64s ((p.errors .m2Paced y h fromT (p.iLast - h)).map OriginError.err))
      obtain ⟨steps, hsteps, hedges⟩ := ih (Nat.le_of_succ_le_succ hk) hout
      have hrest : p.bandFrom y fromT k (h + 1) (min lo rl) (max hi rh) = some steps := hsteps
      rw [if_neg hmany, hrl, hrh, hmedian]
      simp only [Option.bind_eq_bind, Option.bind_some]
      refine ⟨_, by rw [hrest]; rfl, ?_⟩
      have hsame : (fun x : ℕ × F × F ↦ decide (x.1 < h + (k + 1))) =
          fun x ↦ decide (x.1 < h + 1 + k) := by
        funext x
        exact decide_eq_decide.mpr (by omega)
      rw [map_cons, hedges, hsame, filter_cons, if_pos (decide_eq_true (by omega))]
      rfl

omit [FloatLaws F] in
theorem m2Errors_tail (p : Panel F) (tg : Target) (poolFrom : ℤ) :
    (p.m2Errors tg poolFrom).tail = (List.range' 1 maxHorizon).map (fun (j : ℕ) ↦
      p.errors .m2Paced (p.series tg) j (p.idx poolFrom) (p.iLast - j)) := by
  rw [p.m2Errors_eq, tail_cons, range'_eq_map_range, map_map]
  refine map_congr_left (fun i _ ↦ ?_)
  rw [Function.comp_apply, Nat.add_comm 1 i]

omit [FloatLaws F] in
theorem band_eq_bandFrom (p : Panel F) (tg : Target) (horizon : ℕ) :
    p.band tg horizon =
      p.bandFrom (p.series tg) (p.idx evalStart) horizon 1 (inf false) (inf true) := by
  rw [Panel.band]
  split
  · rename_i hneg
    cases horizon with
    | zero => rfl
    | succ k =>
      rw [Panel.bandFrom, Panel.errors, if_pos hneg]
      rfl
  · rfl

theorem band_eq_known (p : Panel F) (tg : Target) {horizon : ℕ} (hh : horizon ≤ maxHorizon) :
    ∃ steps known, p.band tg horizon = some steps ∧
      knownBand (p.m2Errors tg evalStart) p.iLast bandLowerQ bandUpperQ true = some known ∧
      steps.map BandStep.edges = known.filter (fun x ↦ x.1 ≤ horizon) ∧
      known.filter (fun x ↦ x.1 ≤ maxHorizon) = known := by
  obtain ⟨known, hknown⟩ := knownBandFrom_total p.iLast true (p.m2Errors tg evalStart).tail 1
    (inf false) (inf true)
  have hkeys : known.filter (fun x ↦ x.1 ≤ maxHorizon) = known := by
    refine filter_eq_self.mpr (fun x hx ↦ decide_eq_true ?_)
    have hlt := (knownBandFrom_keys hknown x hx).2
    rw [m2Errors_tail, length_map, length_range'] at hlt
    omega
  have hknown' := hknown
  rw [m2Errors_tail] at hknown'
  obtain ⟨steps, hsteps, hedges⟩ := bandFrom_eq_known hh hknown'
  refine ⟨steps, known, (band_eq_bandFrom p tg horizon).trans hsteps, hknown, hedges.trans ?_,
    hkeys⟩
  refine filter_congr (fun x _ ↦ decide_eq_decide.mpr ?_)
  omega

end Drawn

section Cut

variable {F : Type*} [Float64 F]

def cutPanel (log : F → F) (usd : List (UsdMonth F)) (m2 : List (MoneyPoint F)) (lag t : ℤ) :
    Panel F :=
  laggedPanel log (usd.filter (fun u ↦ u.month ≤ t)) (m2.filter (fun q ↦ q.month ≤ t)) lag

variable {log : F → F} {usd : List (UsdMonth F)} {m2 : List (MoneyPoint F)} {lag t : ℤ}

theorem find?_cut {α : Type*} {month : α → ℤ} {l : List α} {m : ℤ} (hm : m ≤ t) :
    (l.filter (fun a ↦ month a ≤ t)).find? (fun a ↦ month a = m) =
      l.find? (fun a ↦ month a = m) := by
  rw [find?_filter]
  congr 1
  funext a
  simp only [decide_eq_true_eq, decide_eq_decide]
  exact and_iff_right_of_imp (fun ha ↦ ha.trans_le hm)

theorem dollarAt_cut (value : UsdMonth F → F) {m : ℤ} (hm : m ≤ t) :
    dollarAt log value (usd.filter (fun u ↦ u.month ≤ t)) m = dollarAt log value usd m := by
  rw [dollarAt, dollarAt, filter_comm, ← filter_reverse, find?_cut hm]

theorem moneyAt_cut {m : ℤ} (hm : m ≤ t) :
    moneyAt log (m2.filter (fun q ↦ q.month ≤ t)) m = moneyAt log m2 m := by
  rw [moneyAt, moneyAt, filter_comm, ← filter_reverse, find?_cut hm]

theorem laggedPanel_lays (log : F → F) (usd : List (UsdMonth F)) (m2 : List (MoneyPoint F))
    (lag : ℤ) : (laggedPanel log usd m2 lag).Lays log usd m2 :=
  (newPanel_lays log usd m2).withLag lag

theorem Panel.Lays.agree_of {p p' : Panel F} {usd usd' : List (UsdMonth F)}
    {m2 m2' : List (MoneyPoint F)} (h : p.Lays log usd m2) (h' : p'.Lays log usd' m2')
    (hdollar : ∀ value, ∀ m ≤ t, dollarAt log value usd m = dollarAt log value usd' m)
    (hmoney : ∀ m ≤ t - p.lag, moneyAt log m2 m = moneyAt log m2' m)
    (hmem : ∀ u : UsdMonth F, u.month ≤ t → (u ∈ usd ↔ u ∈ usd')) (hlag : p.lag = p'.lag) :
    Agree p p' t := by
  refine ⟨hlag, fun m hm ↦ ?_, fun m hm ↦ ?_, fun m hm ↦ ?_, fun hpos hlt ↦ ?_⟩
  · rw [h.avg, h'.avg, hdollar _ m hm]
  · rw [h.close, h'.close, hdollar _ m hm]
  · rw [h.m2, h'.m2, hmoney m hm]
  · obtain ⟨⟨u, hu, husable, hmonth⟩, hleast⟩ := h.first hpos
    have hu' := (hmem u (by omega)).mp hu
    have hpos' : 0 ≤ p'.iFirst := by
      by_contra hneg
      rw [h'.first_of_neg (not_le.mp hneg) u hu'] at husable
      cases husable
    obtain ⟨⟨v, hv, hvusable, hvmonth⟩, hleast'⟩ := h'.first hpos'
    have hle := hleast' u hu' husable
    have hge := hleast v ((hmem v (by omega)).mpr hv) hvusable
    exact ⟨hpos', by omega⟩

theorem cutPanel_agree (hlag : 0 ≤ lag) :
    Agree (laggedPanel log usd m2 lag) (cutPanel log usd m2 lag t) t ∧
      Agree (cutPanel log usd m2 lag t) (laggedPanel log usd m2 lag) t := by
  have hlays := laggedPanel_lays log usd m2 lag
  have hlays' := laggedPanel_lays log (usd.filter (fun u ↦ u.month ≤ t))
    (m2.filter (fun q ↦ q.month ≤ t)) lag
  have hlag' : (laggedPanel log usd m2 lag).lag = lag := rfl
  have hlag'' : (cutPanel log usd m2 lag t).lag = lag := rfl
  refine ⟨hlays.agree_of hlays' (fun value m hm ↦ (dollarAt_cut value hm).symm)
    (fun m hm ↦ (moneyAt_cut (by omega)).symm) (fun u hu ↦ ?_) rfl,
    hlays'.agree_of hlays (fun value m hm ↦ dollarAt_cut value hm)
    (fun m hm ↦ moneyAt_cut (by rw [show Panel.lag _ = lag from rfl] at hm; omega))
    (fun u hu ↦ ?_) rfl⟩
  · simp [hu]
  · simp [hu]

theorem known_of_mem_errors_cut {tg : Target} {h : ℕ} {fromT toT : ℤ} {e : OriginError F}
    (he : e ∈ (cutPanel log usd m2 lag t).errors .m2Paced ((cutPanel log usd m2 lag t).series tg) h
      fromT toT) : e.t + h ≤ (cutPanel log usd m2 lag t).idx t := by
  rw [Panel.errors] at he
  split at he
  · cases he
  · obtain ⟨i, -, hsome⟩ := mem_filterMap.mp he
    obtain ⟨rfl, -, houtcome⟩ := originError_eq_some hsome
    obtain ⟨value, hvalue⟩ := (laggedPanel_lays log (usd.filter (fun u ↦ u.month ≤ t))
      (m2.filter (fun q ↦ q.month ≤ t)) lag).series tg
    by_contra hlate
    have hmonth := hvalue ((cutPanel log usd m2 lag t).first + (e.t + h))
    have hidx : (cutPanel log usd m2 lag t).idx ((cutPanel log usd m2 lag t).first + (e.t + h)) =
        e.t + h := by
      rw [Panel.idx]
      omega
    have hnone : ∀ u ∈ usd.filter (fun u ↦ u.month ≤ t), u.usable = true →
        u.month ≠ (cutPanel log usd m2 lag t).first + (e.t + h) := by
      intro u hu _ hmonth
      have hle := of_decide_eq_true (mem_filter.mp hu).2
      rw [Panel.idx] at hlate
      omega
    rw [← cutPanel, hidx, dollarAt_eq_nan hnone] at hmonth
    rw [hmonth, isNaN_nan] at houtcome
    cases houtcome

theorem knownBand_cut (tg : Target) (poolFrom : ℤ) (lowerQ upperQ : F) (monotone : Bool) :
    knownBand ((cutPanel log usd m2 lag t).m2Errors tg poolFrom)
        (cutPanel log usd m2 lag t).iLast lowerQ upperQ monotone =
      knownBand ((cutPanel log usd m2 lag t).m2Errors tg poolFrom)
        ((cutPanel log usd m2 lag t).idx t) lowerQ upperQ monotone := by
  rw [knownBand, knownBand, m2Errors_tail]
  refine knownBandFrom_congr lowerQ upperQ monotone rfl (fun i ↦ ?_) _ _
  by_cases hi : i < maxHorizon
  · simp only [getD_eq_getElem?_getD, getElem?_map, getElem?_range' hi,
      Option.map_some, Option.getD_some, one_mul]
    rw [knownErrors_last, knownErrors, takeWhile_eq_self_iff.mpr
      (fun e he ↦ decide_eq_true (known_of_mem_errors_cut he))]
  · have hlen : (List.range' 1 maxHorizon)[i]? = none :=
      getElem?_eq_none (by rw [length_range']; omega)
    simp only [getD_eq_getElem?_getD, getElem?_map, hlen, Option.map_none, Option.getD_none]
    rfl

variable [FloatLaws F]

theorem band_cut (log : F → F) (usd : List (UsdMonth F)) (m2 : List (MoneyPoint F)) (t : ℤ)
    (hlag : 0 ≤ lag) (tg : Target) :
    ∃ steps, (cutPanel log usd m2 lag t).band tg maxHorizon = some steps ∧
      knownBand ((laggedPanel log usd m2 lag).m2Errors tg evalStart)
        ((laggedPanel log usd m2 lag).idx t) bandLowerQ bandUpperQ true =
          some (steps.map BandStep.edges) := by
  obtain ⟨steps, known, hsteps, hknown, hedges, hall⟩ :=
    band_eq_known (cutPanel log usd m2 lag t) tg le_rfl
  have hagree : Agree (laggedPanel log usd m2 lag) (cutPanel log usd m2 lag t) t :=
    (cutPanel_agree hlag).1
  have hagree' : Agree (cutPanel log usd m2 lag t) (laggedPanel log usd m2 lag) t :=
    (cutPanel_agree hlag).2
  refine ⟨steps, hsteps, ?_⟩
  rw [hagree.knownBand hagree' (laggedPanel_lays log usd m2 lag).bounded
    (laggedPanel_lays log _ _ lag).bounded, ← knownBand_cut, hknown, hedges, hall]

end Cut

section Coverage

variable {F : Type*} [Float64 F] {all : List (List (OriginError F))} {band : List (ℕ × F × F)}

def Panel.errorOf (p : Panel F) (tg : Target) (h : ℕ) (i : ℤ) : Option F :=
  (p.originError .m2Paced (p.series tg) h i).map OriginError.err

def scored (b : Option (F × F)) (e : Option F) : Bool := b.isSome && e.isSome

def hit (b : Option (F × F)) (e : Option F) : Bool :=
  match b, e with
  | some b, some e => within b e
  | _, _ => false

theorem own_errors {p : Panel F} (hb : p.Bounded) {tg : Target} {h : ℕ} {poolFrom i : ℤ}
    (hi : p.idx poolFrom ≤ i) :
    own (p.errors .m2Paced (p.series tg) h (p.idx poolFrom) (p.iLast - h)) i =
      p.errorOf tg h i := by
  rw [hb.errors, own, Panel.errorOf]
  have hfrom {e : OriginError F} (he : e ∈ (Int.range (p.idx poolFrom)
      (p.iLast - h + 1)).filterMap (p.originError .m2Paced (p.series tg) h)) :
      p.originError .m2Paced (p.series tg) h e.t = some e := by
    obtain ⟨t, -, ht⟩ := mem_filterMap.mp he
    rwa [(originError_eq_some ht).1]
  cases he : p.originError .m2Paced (p.series tg) h i with
  | none =>
    have hfind : ((Int.range (p.idx poolFrom) (p.iLast - h + 1)).filterMap
        (p.originError .m2Paced (p.series tg) h)).reverse.find? (fun e ↦ e.t = i) = none := by
      refine find?_eq_none.mpr (fun e hmem ht ↦ ?_)
      have hsome := hfrom (mem_reverse.mp hmem)
      rw [of_decide_eq_true ht, he] at hsome
      cases hsome
    rw [hfind]
  | some e =>
    have hlast := hb.of_originError (Option.isSome_iff_exists.mpr ⟨e, he⟩)
    have hmem : e ∈ (Int.range (p.idx poolFrom) (p.iLast - h + 1)).filterMap
        (p.originError .m2Paced (p.series tg) h) :=
      mem_filterMap.mpr ⟨i, Int.mem_range_iff.mpr ⟨hi, by omega⟩, he⟩
    cases hfind : (((Int.range (p.idx poolFrom) (p.iLast - h + 1)).filterMap
        (p.originError .m2Paced (p.series tg) h)).reverse.find? (fun e ↦ e.t = i)) with
    | none =>
      have hnot := find?_eq_none.mp hfind e (mem_reverse.mpr hmem)
      exact absurd (decide_eq_true (originError_eq_some he).1) hnot
    | some e' =>
      have hsome := hfrom (mem_reverse.mp (mem_of_find?_eq_some hfind))
      have hfound := find?_some hfind
      have ht : e'.t = i := of_decide_eq_true hfound
      rw [ht, he] at hsome
      rw [Option.some.inj hsome]

theorem m2Errors_getD (p : Panel F) (tg : Target) (poolFrom : ℤ) {h : ℕ} (h1 : 1 ≤ h)
    (hmax : h ≤ maxHorizon) :
    (p.m2Errors tg poolFrom).getD h [] =
      p.errors .m2Paced (p.series tg) h (p.idx poolFrom) (p.iLast - h) := by
  obtain ⟨k, rfl⟩ : ∃ k, h = k + 1 := ⟨h - 1, by omega⟩
  rw [p.m2Errors_eq, getD_cons_succ, getD_eq_getElem?_getD, getElem?_map,
    getElem?_range (by omega)]
  rfl

theorem mem_horizons {i last : ℤ} {h : ℕ} (h1 : 1 ≤ h) (hmax : h ≤ maxHorizon)
    (hlast : i + h ≤ last) :
    h ∈ (List.range' 1 maxHorizon).takeWhile (fun (h : ℕ) ↦ i + h ≤ last) := by
  have hasc : AscendingBy id (List.range' 1 maxHorizon) := pairwise_lt_range'
  have heq := hasc.takeWhile_eq_filter (p := fun h : ℕ ↦ decide (i + h ≤ last))
    (fun k k' hk hk' ↦ decide_eq_true (by have := of_decide_eq_true hk'; omega))
  simp only [id_eq] at heq
  rw [heq]
  exact mem_filter.mpr ⟨mem_range'_1.mpr ⟨h1, by omega⟩, decide_eq_true hlast⟩

theorem coverOrigin_of_ne {t : ℤ} {out : ℕ → CoverageCell} {h h' : ℕ} (hne : h' ≠ h) :
    coverOrigin all band t out h h' = out h' := by
  rw [coverOrigin]
  cases band.lookup h with
  | none => rfl
  | some b =>
    cases own (all.getD h []) t with
    | none => rfl
    | some e => exact Function.update_of_ne hne _ _

theorem coverOrigin_self {t : ℤ} {out : ℕ → CoverageCell} {h : ℕ} :
    coverOrigin all band t out h h =
      ⟨(out h).hits + (hit (band.lookup h) (own (all.getD h []) t)).toNat,
        (out h).n + (scored (band.lookup h) (own (all.getD h []) t)).toNat⟩ := by
  rw [coverOrigin]
  cases band.lookup h with
  | none => rfl
  | some b =>
    cases own (all.getD h []) t with
    | none => rfl
    | some e => exact Function.update_self _ _ _

theorem foldl_coverOrigin {t : ℤ} {hs : List ℕ} (hnodup : hs.Nodup) {out : ℕ → CoverageCell}
    {h : ℕ} :
    hs.foldl (coverOrigin all band t) out h =
      if h ∈ hs then coverOrigin all band t out h h else out h := by
  induction hs generalizing out with
  | nil => rfl
  | cons h' hs ih =>
    obtain ⟨hnot, hnodup⟩ := nodup_cons.mp hnodup
    rw [foldl_cons, ih hnodup]
    by_cases heq : h = h'
    · subst heq
      rw [if_neg hnot, if_pos mem_cons_self]
    · simp only [mem_cons, heq, false_or, coverOrigin_self, coverOrigin_of_ne heq]

theorem foldlM_eq_some_foldl {α β : Type*} {f : β → α → Option β} {g : β → α → β}
    {l : List α} (h : ∀ a ∈ l, ∀ b, f b a = some (g b a)) (b : β) :
    l.foldlM f b = some (l.foldl g b) := by
  induction l generalizing b with
  | nil => rfl
  | cons a l ih =>
    rw [foldlM_cons, h a mem_cons_self, foldl_cons]
    exact ih (fun a' ha' ↦ h a' (mem_cons_of_mem _ ha')) (g b a)

theorem foldl_cells {ts : List ℤ} {step : (ℕ → CoverageCell) → ℤ → ℕ → CoverageCell} {h : ℕ}
    (isHit isScored : ℤ → Bool)
    (hstep : ∀ t ∈ ts, ∀ out, step out t h =
      ⟨(out h).hits + (isHit t).toNat, (out h).n + (isScored t).toNat⟩)
    (out : ℕ → CoverageCell) :
    ts.foldl step out h =
      ⟨(out h).hits + ts.countP isHit, (out h).n + ts.countP isScored⟩ := by
  induction ts generalizing out with
  | nil => rfl
  | cons t ts ih =>
    rw [foldl_cons, ih (fun t' ht' ↦ hstep t' (mem_cons_of_mem _ ht')),
      hstep t mem_cons_self, countP_cons, countP_cons]
    have hbit (b : Bool) : b.toNat = if b then 1 else 0 := by cases b <;> rfl
    rw [hbit, hbit, CoverageCell.mk.injEq]
    dsimp only
    constructor <;> omega

/-- The edges at horizon `h` of the band that the data up to month `t` draw. -/
def publishedEdges (log : F → F) (usd : List (UsdMonth F)) (m2 : List (MoneyPoint F)) (lag : ℤ)
    (tg : Target) (t : ℤ) (h : ℕ) : Option (F × F) :=
  ((cutPanel log usd m2 lag t).band tg maxHorizon).bind
    (fun steps ↦ (steps.map BandStep.edges).lookup h)

def Panel.month (p : Panel F) (i : ℤ) : ℤ := p.first + i

variable [FloatLaws F] {log : F → F} {usd : List (UsdMonth F)} {m2 : List (MoneyPoint F)}
  {lag : ℤ}

theorem knownBand_published (log : F → F) (usd : List (UsdMonth F)) (m2 : List (MoneyPoint F))
    (hlag : 0 ≤ lag) (tg : Target) (i : ℤ) :
    ∃ band, knownBand ((laggedPanel log usd m2 lag).m2Errors tg evalStart) i bandLowerQ bandUpperQ
        true = some band ∧
      ∀ h, band.lookup h =
        publishedEdges log usd m2 lag tg ((laggedPanel log usd m2 lag).month i) h := by
  obtain ⟨steps, hsteps, hknown⟩ := band_cut log usd m2
    ((laggedPanel log usd m2 lag).month i) hlag tg
  have hidx : (laggedPanel log usd m2 lag).idx ((laggedPanel log usd m2 lag).month i) = i := by
    rw [Panel.idx, Panel.month]
    omega
  rw [hidx] at hknown
  refine ⟨_, hknown, fun h ↦ ?_⟩
  rw [publishedEdges, hsteps]
  rfl

theorem coverage_published (hlag : 0 ≤ lag) (tg : Target) :
    ∃ cells, (laggedPanel log usd m2 lag).coverage tg bandLowerQ bandUpperQ true evalStart =
        some cells ∧
      ∀ h, 1 ≤ h → h ≤ maxHorizon → cells h =
        ⟨(Int.range ((laggedPanel log usd m2 lag).idx evalStart)
            (laggedPanel log usd m2 lag).iLast).countP (fun i ↦
              hit (publishedEdges log usd m2 lag tg ((laggedPanel log usd m2 lag).month i) h)
                ((laggedPanel log usd m2 lag).errorOf tg h i)),
          (Int.range ((laggedPanel log usd m2 lag).idx evalStart)
            (laggedPanel log usd m2 lag).iLast).countP (fun i ↦
              scored (publishedEdges log usd m2 lag tg ((laggedPanel log usd m2 lag).month i) h)
                ((laggedPanel log usd m2 lag).errorOf tg h i))⟩ := by
  have hb := (laggedPanel_lays log usd m2 lag).bounded
  generalize hp : laggedPanel log usd m2 lag = p at hb
  have hpublished := hp ▸ knownBand_published log usd m2 hlag tg
  choose band hband hedges using hpublished
  -- An error needs a month after its origin.
  have hnone {h : ℕ} {i : ℤ} (hlate : ¬(0 ≤ p.iLast ∧ i + h ≤ p.iLast)) :
      p.errorOf tg h i = none := by
    rw [Panel.errorOf, Option.map_eq_none_iff, ← Option.not_isSome_iff_eq_none]
    exact fun hsome ↦ hlate (hb.of_originError hsome).2
  rw [Panel.coverage]
  split
  · rename_i hneg
    refine ⟨_, rfl, fun h _ _ ↦ ?_⟩
    have hno (i : ℤ) : p.errorOf tg h i = none := hnone (fun hlate ↦ not_le.mpr hneg hlate.1)
    have hhit (b : Option (F × F)) : hit b none = false := by cases b <;> rfl
    have hscored (b : Option (F × F)) : scored b (none : Option F) = false := Bool.and_false _
    simp only [hno, hhit, hscored, countP_false]
    rfl
  · rename_i hpos
    refine ⟨_, foldlM_eq_some_foldl (fun i _ out ↦ by rw [hband i]; rfl) _, fun h h1 hmax ↦ ?_⟩
    refine (foldl_cells
      (fun i ↦ hit (publishedEdges log usd m2 lag tg (p.month i) h) (p.errorOf tg h i))
      (fun i ↦ scored (publishedEdges log usd m2 lag tg (p.month i) h) (p.errorOf tg h i))
      (fun i hi out ↦ ?_) _).trans
      (by rw [Nat.zero_add, Nat.zero_add])
    have hfrom := (Int.mem_range_iff.mp hi).1
    have hnodup : ((List.range' 1 maxHorizon).takeWhile
        (fun (h : ℕ) ↦ decide (i + h ≤ p.iLast))).Nodup :=
      List.Nodup.sublist (takeWhile_sublist _) nodup_range'
    have hown : own ((p.m2Errors tg evalStart).getD h []) i = p.errorOf tg h i := by
      rw [← own_errors hb hfrom, m2Errors_getD p tg evalStart h1 hmax]
    dsimp only
    rw [foldl_coverOrigin hnodup, coverOrigin_self, hown, hedges]
    split
    · rfl
    · rename_i hout
      have hlate : ¬(0 ≤ p.iLast ∧ i + h ≤ p.iLast) := fun hlate ↦
        hout (mem_horizons h1 hmax hlate.2)
      rw [hnone hlate]
      cases publishedEdges log usd m2 lag tg (p.month i) h <;> rfl

/-- The band that is drawn is the band known at the last month, and an origin is counted
by the band that was drawn at it. -/
theorem coverage_of_drawn_band (log : F → F) (usd : List (UsdMonth F)) (m2 : List (MoneyPoint F))
    (hlag : 0 ≤ lag) (tg : Target) :
    (∀ (p : Panel F) (horizon : ℕ), horizon ≤ maxHorizon →
      ∃ steps known, p.band tg horizon = some steps ∧
        knownBand (p.m2Errors tg evalStart) p.iLast bandLowerQ bandUpperQ true = some known ∧
        steps.map BandStep.edges = known.filter (fun x ↦ x.1 ≤ horizon) ∧
        (∃ k ≤ horizon, steps.map BandStep.h = List.range' 1 k) ∧
        steps.Pairwise (fun s s' ↦ lt s.lo s'.lo = false ∧ lt s'.hi s.hi = false) ∧
        ∀ s ∈ steps, minErrors ≤ s.n) ∧
    (∀ t, ∃ steps, (cutPanel log usd m2 lag t).band tg maxHorizon = some steps ∧
      knownBand ((laggedPanel log usd m2 lag).m2Errors tg evalStart)
        ((laggedPanel log usd m2 lag).idx t) bandLowerQ bandUpperQ true =
          some (steps.map BandStep.edges)) ∧
    ∃ cells, (laggedPanel log usd m2 lag).coverage tg bandLowerQ bandUpperQ true evalStart =
        some cells ∧
      ∀ h, 1 ≤ h → h ≤ maxHorizon → cells h =
        ⟨(Int.range ((laggedPanel log usd m2 lag).idx evalStart)
            (laggedPanel log usd m2 lag).iLast).countP (fun i ↦
              hit (publishedEdges log usd m2 lag tg ((laggedPanel log usd m2 lag).month i) h)
                ((laggedPanel log usd m2 lag).errorOf tg h i)),
          (Int.range ((laggedPanel log usd m2 lag).idx evalStart)
            (laggedPanel log usd m2 lag).iLast).countP (fun i ↦
              scored (publishedEdges log usd m2 lag tg ((laggedPanel log usd m2 lag).month i) h)
                ((laggedPanel log usd m2 lag).errorOf tg h i))⟩ := by
  refine ⟨fun p horizon hh ↦ ?_, fun t ↦ band_cut log usd m2 t hlag tg, coverage_published hlag tg⟩
  obtain ⟨steps, known, hsteps, hknown, hedges, -⟩ := band_eq_known p tg hh
  have hfrom := (band_eq_bandFrom p tg horizon).symm.trans hsteps
  exact ⟨steps, known, hsteps, hknown, hedges, bandFrom_horizons hfrom,
    (bandFrom_widens hfrom).2, bandFrom_pooled hfrom⟩

end Coverage

section Exact

open Economic

theorem ltValue_trans {x y z : Value} (h : ltValue x y = true) (h' : ltValue y z = true) :
    ltValue x z = true := by
  rcases x with x | n | _ <;> rcases y with y | n' | _ <;> rcases z with z | n'' | _ <;>
    simp_all [ltValue]
  exact lt_trans h h'

theorem ltValue_trichotomy {x y : Value} (hx : x ≠ .nan) (hy : y ≠ .nan) :
    ltValue x y = true ∨ x = y ∨ ltValue y x = true := by
  rcases x with x | n | _ <;> rcases y with y | n' | _ <;> simp_all [ltValue]
  · exact lt_trichotomy x y
  · cases n <;> cases n' <;> simp

theorem ltValue_of_not_lt {x y z : Value} (hx : x ≠ .nan) (hy : y ≠ .nan)
    (hle : ¬ltValue x y = true) (h : ltValue z y = true) : ltValue z x = true := by
  rcases ltValue_trichotomy hx hy with hlt | rfl | hlt
  · exact absurd hlt hle
  · exact h
  · exact ltValue_trans h hlt

theorem ltValue_of_not_gt {x y z : Value} (hx : x ≠ .nan) (hy : y ≠ .nan)
    (hle : ¬ltValue y x = true) (h : ltValue y z = true) : ltValue x z = true := by
  rcases ltValue_trichotomy hx hy with hlt | rfl | hlt
  · exact ltValue_trans hlt h
  · exact h
  · exact absurd hlt hle

instance : FloatLaws Value where
  lt_irrefl x := by
    rcases x with x | n | _ <;> simp [Float64.lt, ltValue]
  lt_of_lt_min x y z h := by
    simp only [Float64.min, Float64.lt] at h ⊢
    split at h
    · rcases z with z | n | _ <;> simp [ltValue] at h
    · split at h
      · rcases z with z | n | _ <;> simp [ltValue] at h
      · rename_i hnum
        rw [not_or] at hnum
        split at h
        · exact h
        · exact ltValue_of_not_lt hnum.1 hnum.2 ‹_› h
  lt_of_max_lt x y z h := by
    simp only [Float64.max, Float64.lt] at h ⊢
    split at h
    · rcases z with z | n | _ <;> simp [ltValue] at h
    · split at h
      · rcases z with z | n | _ <;> simp [ltValue] at h
      · rename_i hnum
        rw [not_or] at hnum
        split at h
        · exact h
        · exact ltValue_of_not_gt hnum.1 hnum.2 ‹_› h
  floor_nonneg n a b hn ha hb := by
    have hne : (b : ℚ) ≠ 0 := Int.cast_ne_zero.mpr hb.ne'
    simp only [Float64.floor, Float64.mul, Float64.div, Float64.ofInt, divValue, if_pos hne,
      mulValue]
    refine Rat.le_floor_iff.mpr ?_
    exact mul_nonneg (Int.cast_nonneg hn) (div_nonneg (Int.cast_nonneg ha) (Int.cast_nonneg hb.le))

theorem coverage_of_unit_months :
    ∃ cells, (laggedPanel (fun _ ↦ Value.finite 0) [unitMonth 16728, unitMonth 16729]
      [⟨16710, .finite 1⟩] 3).coverage .close bandLowerQ bandUpperQ true evalStart = some cells := by
  have hlag : (0 : ℤ) ≤ 3 := by decide
  obtain ⟨-, -, cells, hcells, -⟩ := coverage_of_drawn_band (fun _ ↦ Value.finite 0)
    [unitMonth 16728, unitMonth 16729] [⟨16710, .finite 1⟩] hlag .close
  exact ⟨cells, hcells⟩

end Exact

end TalaPala.Liquidity
