import TalaPala.Clock
import TalaPala.Library.Grouping
import Mathlib.Analysis.SpecialFunctions.Pow.Real

namespace TalaPala.Bourse

open Library List

variable {K : Type*} [Field K] [LinearOrder K]

/-- A ratio within `[10**0.9, 10**1.1]`, compared through tenth powers. -/
def inScaleBand (ratio : K) : Bool :=
  decide (10 ^ 9 ≤ ratio ^ 10) && decide (ratio ^ 10 ≤ 10 ^ 11)

/-- The relative exponents and the breaks of the values after `previous`, which
is row `i - 1` and stands at exponent `k`. -/
def scaleWalk (k : ℤ) (i : ℕ) (previous : K) : List K → List ℤ × List ℕ
  | [] => ([], [])
  | close :: closes =>
    let ratio := close / previous
    if inScaleBand ratio then
      let (rel, breaks) := scaleWalk (k - 1) (i + 1) close closes
      ((k - 1) :: rel, i :: breaks)
    else if inScaleBand (1 / ratio) then
      let (rel, breaks) := scaleWalk (k + 1) (i + 1) close closes
      ((k + 1) :: rel, i :: breaks)
    else
      let (rel, breaks) := scaleWalk k (i + 1) close closes
      (k :: rel, breaks)

/-- The order of `max` over the counted exponents: more rows first, then nearer
to zero, then the larger one. -/
def preferred (rel : List ℤ) (k k' : ℤ) : Prop :=
  rel.count k' < rel.count k ∨ (rel.count k = rel.count k' ∧
    (|k| < |k'| ∨ (|k| = |k'| ∧ k' ≤ k)))

instance (rel : List ℤ) : DecidableRel (preferred rel) :=
  fun _ _ ↦ inferInstanceAs (Decidable (_ ∨ _))

def referenceScale (rel : List ℤ) : ℤ := (firstBy (preferred rel) rel.dedup).getD 0

structure BadClose (K : Type*) where
  close : K

def scaleExponents (closes : List K) : Except (BadClose K) (List ℤ × List ℕ) :=
  match closes with
  | [] => .ok ([], [])
  | first :: rest =>
    match closes.find? (fun c ↦ !decide (0 < c)) with
    | some c => .error { close := c }
    | none =>
      let (rel, breaks) := scaleWalk 0 1 first rest
      .ok ((0 :: rel).map (fun k ↦ k - referenceScale (0 :: rel)), breaks)

def maxAbsExp : ℕ := 3

instance (rel : List ℤ) : Std.Total (preferred rel) where
  total k k' := by
    unfold preferred
    omega

instance (rel : List ℤ) : IsTrans ℤ (preferred rel) where
  trans k k' k'' := by
    unfold preferred
    omega

theorem count_add_count_le (rel : List ℤ) {k k' : ℤ} (h : k ≠ k') :
    rel.count k + rel.count k' ≤ rel.length := by
  induction rel with
  | nil => rfl
  | cons a rel ih =>
    rw [count_cons, count_cons, length_cons]
    by_cases hk : a = k
    · have hk' : a ≠ k' := hk ▸ h
      simp only [beq_iff_eq, hk, if_true, h, if_false]
      omega
    · simp only [beq_iff_eq, hk, if_false]
      split <;> omega

theorem referenceScale_of_majority {rel : List ℤ} {k : ℤ} (h : rel.length < 2 * rel.count k) :
    referenceScale rel = k := by
  have hmem : k ∈ rel := by
    rw [← count_pos_iff]
    omega
  have hfirst (k' : ℤ) (hne : k ≠ k') : rel.count k' < rel.count k := by
    have := count_add_count_le rel hne
    omega
  rw [referenceScale]
  rw [firstBy_eq_some (mem_dedup.mpr hmem) (fun k' _ ↦ ?_) (fun k' _ _ hback ↦ ?_)]
  · rfl
  · by_cases hne : k = k'
    · subst hne
      exact .inr ⟨rfl, .inr ⟨rfl, le_rfl⟩⟩
    · exact .inl (hfirst k' hne)
  · by_contra hne
    have hlt := hfirst k' (fun he ↦ hne he.symm)
    rcases hback with hback | ⟨hback, _⟩
    · exact absurd hback hlt.not_gt
    · exact absurd hback hlt.ne

def scaleStep (k : ℤ) (ratio : K) : ℤ :=
  if inScaleBand ratio then k - 1 else if inScaleBand (1 / ratio) then k + 1 else k

theorem scaleWalk_cons (k : ℤ) (i : ℕ) (previous close : K) (closes : List K) :
    scaleWalk k i previous (close :: closes) =
      (scaleStep k (close / previous) ::
        (scaleWalk (scaleStep k (close / previous)) (i + 1) close closes).1,
        (if scaleStep k (close / previous) = k then [] else [i]) ++
          (scaleWalk (scaleStep k (close / previous)) (i + 1) close closes).2) := by
  rw [scaleWalk, scaleStep]
  split
  · simp
  · split
    · simp
    · simp

def scaleChanges (exps : List ℤ) : List ℕ :=
  (List.range exps.length).filter (fun i ↦ 0 < i ∧ exps[i]? ≠ exps[i - 1]?)

def changesFrom (i : ℕ) (e : ℤ) : List ℤ → List ℕ
  | [] => []
  | e' :: exps => (if e' = e then [] else [i]) ++ changesFrom (i + 1) e' exps

theorem changesFrom_eq (i : ℕ) (e : ℤ) (exps : List ℤ) : changesFrom i e exps =
    (List.range' i exps.length).filter (fun j ↦
      (e :: exps)[j + 1 - i]? ≠ (e :: exps)[j - i]?) := by
  induction exps generalizing i e with
  | nil => rfl
  | cons e' exps ih =>
    have htail : (List.range' (i + 1) exps.length).filter (fun j ↦
        (e :: e' :: exps)[j + 1 - i]? ≠ (e :: e' :: exps)[j - i]?) =
        (List.range' (i + 1) exps.length).filter (fun j ↦
          (e' :: exps)[j + 1 - (i + 1)]? ≠ (e' :: exps)[j - (i + 1)]?) := by
      apply filter_congr
      intro j hj
      obtain ⟨m, rfl⟩ := Nat.exists_eq_add_of_le (mem_range'_1.mp hj).1
      have h₁ : i + 1 + m + 1 - i = m + 2 := by omega
      have h₂ : i + 1 + m - i = m + 1 := by omega
      have h₃ : i + 1 + m + 1 - (i + 1) = m + 1 := by omega
      have h₄ : i + 1 + m - (i + 1) = m := by omega
      simp only [h₁, h₂, h₃, h₄, getElem?_cons_succ]
    rw [changesFrom, ih, length_cons, range'_succ, filter_cons, htail]
    by_cases he : e' = e
    · simp [he]
    · simp [he]

theorem scaleChanges_cons (e : ℤ) (exps : List ℤ) :
    scaleChanges (e :: exps) = changesFrom 1 e exps := by
  rw [changesFrom_eq, scaleChanges, length_cons, range_eq_range', range'_succ,
    filter_cons_of_neg (by simp)]
  apply filter_congr
  intro j hj
  have := (mem_range'_1.mp hj).1
  simp [Nat.lt_of_lt_of_le Nat.zero_lt_one this]

section Recovery

def stored (row : K × ℤ) : K := row.1 * 10 ^ row.2

def Shifted (row row' : ℝ × ℤ) : Prop :=
  (row'.2 = row.2 ∧ (10 : ℝ) ^ (-0.9 : ℝ) < row'.1 / row.1 ∧
      row'.1 / row.1 < (10 : ℝ) ^ (0.9 : ℝ)) ∨
    (|row'.2 - row.2| = 1 ∧ (10 : ℝ) ^ (-0.1 : ℝ) ≤ row'.1 / row.1 ∧
      row'.1 / row.1 ≤ (10 : ℝ) ^ (0.1 : ℝ))

def Continues (row row' : K × ℤ) : Prop :=
  (row'.2 = row.2 ∧ 1 < 10 ^ 9 * (row'.1 / row.1) ^ 10 ∧ (row'.1 / row.1) ^ 10 < 10 ^ 9) ∨
    (|row'.2 - row.2| = 1 ∧ 1 ≤ 10 * (row'.1 / row.1) ^ 10 ∧ (row'.1 / row.1) ^ 10 ≤ 10)

variable [IsStrictOrderedRing K]

theorem stored_div (row row' : K × ℤ) :
    stored row' / stored row = row'.1 / row.1 * 10 ^ (row'.2 - row.2) := by
  have hten : (10 : K) ≠ 0 := by norm_num
  rw [stored, stored, zpow_sub₀ hten, mul_div_mul_comm]

theorem inScaleBand_of_same {ratio : K} (hpos : 0 < ratio) (hlo : 1 < 10 ^ 9 * ratio ^ 10)
    (hhi : ratio ^ 10 < 10 ^ 9) :
    inScaleBand ratio = false ∧ inScaleBand (1 / ratio) = false := by
  have hinv : (1 / ratio) ^ 10 < 10 ^ 9 := by
    rw [one_div, inv_pow, inv_lt_iff_one_lt_mul₀ (by positivity)]
    exact hlo
  rw [inScaleBand, inScaleBand, decide_eq_false (not_le.mpr hhi), decide_eq_false (not_le.mpr hinv)]
  exact ⟨rfl, rfl⟩

theorem inScaleBand_up {ratio : K} (hlo : 1 ≤ 10 * ratio ^ 10) (hhi : ratio ^ 10 ≤ 10) :
    inScaleBand (ratio * 10) = true := by
  rw [inScaleBand, mul_pow, Bool.and_eq_true, decide_eq_true_eq, decide_eq_true_eq]
  constructor
  · linarith
  · linarith

theorem inScaleBand_down {ratio : K} (hpos : 0 < ratio) (hlo : 1 ≤ 10 * ratio ^ 10)
    (hhi : ratio ^ 10 ≤ 10) :
    inScaleBand (ratio * 10⁻¹) = false ∧ inScaleBand (1 / (ratio * 10⁻¹)) = true := by
  have hx : 0 < ratio ^ 10 := by positivity
  have hsmall : (ratio * 10⁻¹) ^ 10 < 10 ^ 9 := by
    rw [mul_pow]
    linarith
  have hinv : (1 / (ratio * 10⁻¹)) ^ 10 = 10 ^ 10 / ratio ^ 10 := by
    field_simp
  refine ⟨by rw [inScaleBand, decide_eq_false (not_le.mpr hsmall)]; rfl, ?_⟩
  rw [inScaleBand, hinv, Bool.and_eq_true, decide_eq_true_eq, decide_eq_true_eq,
    le_div_iff₀ hx, div_le_iff₀ hx]
  constructor
  · linarith
  · linarith

theorem scaleStep_eq {k : ℤ} {row row' : K × ℤ} (hrow : 0 < row.1) (hrow' : 0 < row'.1)
    (h : Continues row row') : scaleStep k (stored row' / stored row) = k + row.2 - row'.2 := by
  have hratio : 0 < row'.1 / row.1 := div_pos hrow' hrow
  rw [stored_div, scaleStep]
  rcases h with ⟨hsame, hlo, hhi⟩ | ⟨hone, hlo, hhi⟩
  · obtain ⟨hup, hdown⟩ := inScaleBand_of_same hratio hlo hhi
    rw [hsame, sub_self, zpow_zero, mul_one, hup, hdown]
    simp
  · rcases (abs_eq (by norm_num)).mp hone with hone | hone
    · rw [hone, zpow_one, inScaleBand_up hlo hhi, if_pos rfl]
      omega
    · obtain ⟨hup, hdown⟩ := inScaleBand_down hratio hlo hhi
      rw [hone, zpow_neg_one, hup, hdown, if_neg Bool.false_ne_true, if_pos rfl]
      omega

theorem scaleWalk_eq {k : ℤ} {i : ℕ} {row : K × ℤ} {rows : List (K × ℤ)}
    (hpos : ∀ r ∈ row :: rows, 0 < r.1) (hchain : (row :: rows).IsChain Continues) :
    scaleWalk k i (stored row) (rows.map stored) =
      (rows.map (fun r ↦ k + row.2 - r.2), changesFrom i row.2 (rows.map Prod.snd)) := by
  induction rows generalizing k i row with
  | nil => rfl
  | cons row' rows ih =>
    obtain ⟨hstep, hrest⟩ := isChain_cons_cons.mp hchain
    have hrow' : 0 < row'.1 := hpos row' (by simp)
    have hsame : k + row.2 - row'.2 = k ↔ row'.2 = row.2 := by omega
    have hrel (r : K × ℤ) : k + row.2 - row'.2 + row'.2 - r.2 = k + row.2 - r.2 := by ring
    rw [map_cons, scaleWalk_cons, scaleStep_eq (hpos row mem_cons_self) hrow' hstep,
      ih (fun r hr ↦ hpos r (mem_cons_of_mem _ hr)) hrest]
    simp only [hsame, hrel, map_cons, changesFrom]

theorem scaleExponents_recovers {rows : List (K × ℤ)} (hpos : ∀ r ∈ rows, 0 < r.1)
    (hchain : rows.IsChain Continues)
    (hmajority : rows.length < 2 * (rows.map Prod.snd).count 0) :
    scaleExponents (rows.map stored) =
      .ok (rows.map (fun r ↦ - r.2), scaleChanges (rows.map Prod.snd)) := by
  cases rows with
  | nil => rfl
  | cons row rows =>
    have hfind : ((row :: rows).map stored).find? (fun c ↦ !decide (0 < c)) = none := by
      rw [find?_eq_none]
      intro c hc
      obtain ⟨r, hr, rfl⟩ := mem_map.mp hc
      have hten : (0 : K) < 10 ^ r.2 := zpow_pos (by norm_num) _
      simp [stored, mul_pos (hpos r hr) hten]
    have hwalk := scaleWalk_eq (k := 0) (i := 1) hpos hchain
    have hrel : (0 : ℤ) :: rows.map (fun r ↦ 0 + row.2 - r.2) =
        (row :: rows).map (fun r ↦ row.2 - r.2) := by simp
    have hcount : ((row :: rows).map (fun r ↦ row.2 - r.2)).count row.2 =
        ((row :: rows).map Prod.snd).count 0 := by
      rw [count_eq_countP, count_eq_countP, countP_map, countP_map]
      apply countP_congr
      intro r _
      simp only [Function.comp_apply, beq_iff_eq]
      omega
    have href : referenceScale ((row :: rows).map (fun r ↦ row.2 - r.2)) = row.2 := by
      apply referenceScale_of_majority
      rw [hcount, length_map]
      exact hmajority
    rw [map_cons] at hfind
    rw [map_cons, scaleExponents, hfind]
    have hbreaks : scaleChanges ((row :: rows).map Prod.snd) =
        changesFrom 1 row.2 (rows.map Prod.snd) := scaleChanges_cons _ _
    simp only [hwalk, hrel, href, hbreaks, map_map]
    congr 2
    simp

end Recovery

theorem rpow_pow_ten (x : ℝ) : ((10 : ℝ) ^ x) ^ 10 = 10 ^ (x * 10) := by
  rw [← Real.rpow_natCast, ← Real.rpow_mul (by norm_num)]
  norm_num

theorem rpow_le_iff {x ratio : ℝ} (h : 0 < ratio) :
    (10 : ℝ) ^ x ≤ ratio ↔ (10 : ℝ) ^ (x * 10) ≤ ratio ^ 10 := by
  rw [← rpow_pow_ten, pow_le_pow_iff_left₀ (by positivity) h.le (by norm_num)]

theorem le_rpow_iff {x ratio : ℝ} (h : 0 < ratio) :
    ratio ≤ (10 : ℝ) ^ x ↔ ratio ^ 10 ≤ (10 : ℝ) ^ (x * 10) := by
  rw [← rpow_pow_ten, pow_le_pow_iff_left₀ h.le (by positivity) (by norm_num)]

theorem rpow_neg_nine : (10 : ℝ) ^ (-9 : ℝ) = (10 ^ 9)⁻¹ := by
  rw [Real.rpow_neg (by norm_num)]
  norm_num

theorem rpow_neg_one : (10 : ℝ) ^ (-1 : ℝ) = 10⁻¹ := by
  rw [Real.rpow_neg (by norm_num), Real.rpow_one]

theorem Shifted.continues {row row' : ℝ × ℤ} (hrow : 0 < row.1) (hrow' : 0 < row'.1)
    (h : Shifted row row') : Continues row row' := by
  have hratio : 0 < row'.1 / row.1 := div_pos hrow' hrow
  have hnine : (-0.9 : ℝ) * 10 = -9 := by norm_num
  have hone' : (-0.1 : ℝ) * 10 = -1 := by norm_num
  rcases h with ⟨hsame, hlo, hhi⟩ | ⟨hone, hlo, hhi⟩
  · rw [← not_le, le_rpow_iff hratio, hnine, rpow_neg_nine, not_le,
      inv_lt_iff_one_lt_mul₀ (by norm_num)] at hlo
    rw [← not_le, rpow_le_iff hratio, not_le] at hhi
    refine .inl ⟨hsame, by linarith, ?_⟩
    norm_num at hhi ⊢
    exact hhi
  · rw [rpow_le_iff hratio, hone', rpow_neg_one, inv_le_iff_one_le_mul₀ (by norm_num)] at hlo
    rw [le_rpow_iff hratio] at hhi
    refine .inr ⟨hone, by linarith, ?_⟩
    norm_num at hhi ⊢
    exact hhi

/-- The correction recovers the true index: the exponents undo the shifts row by
row and the breaks are the rows at which the shift changed. -/
theorem decimal_shift_recovered {rows : List (ℝ × ℤ)} (hpos : ∀ r ∈ rows, 0 < r.1)
    (hshifted : rows.IsChain Shifted)
    (hmajority : rows.length < 2 * (rows.map Prod.snd).count 0) :
    ∃ exps, scaleExponents (rows.map stored) = .ok (exps, scaleChanges (rows.map Prod.snd)) ∧
      exps = rows.map (fun r ↦ - r.2) ∧
      List.zipWith (fun (close : ℝ) (exp : ℤ) ↦ close * 10 ^ exp) (rows.map stored) exps =
        rows.map Prod.fst := by
  have hchain : rows.IsChain Continues := by
    rw [isChain_iff_getElem] at hshifted ⊢
    intro i hi
    exact (hshifted i hi).continues (hpos _ (getElem_mem _)) (hpos _ (getElem_mem _))
  refine ⟨_, scaleExponents_recovers hpos hchain hmajority, rfl, ?_⟩
  rw [zipWith_map, zipWith_self]
  apply map_congr_left
  intro r _
  rw [stored, mul_assoc, ← zpow_add₀ (by norm_num : (10 : ℝ) ≠ 0), add_neg_cancel, zpow_zero,
    mul_one]

/-- Up a decade and back in the next session. -/
theorem spike_recovered :
    scaleExponents ([(100, 0), (100, 1), (100, 0)].map stored : List ℝ) =
      .ok ([0, -1, 0], [1, 2]) := by
  have hlo : (10 : ℝ) ^ (-0.1 : ℝ) ≤ 1 :=
    Real.rpow_le_one_of_one_le_of_nonpos (by norm_num) (by norm_num)
  have hhi : (1 : ℝ) ≤ (10 : ℝ) ^ (0.1 : ℝ) := Real.one_le_rpow (by norm_num) (by norm_num)
  have hshifted : List.IsChain Shifted [((100 : ℝ), (0 : ℤ)), (100, 1), (100, 0)] := by
    simp [Shifted, hlo, hhi]
  obtain ⟨exps, hexps, rfl, _⟩ := decimal_shift_recovered (by simp) hshifted (by decide)
  exact hexps

end TalaPala.Bourse
