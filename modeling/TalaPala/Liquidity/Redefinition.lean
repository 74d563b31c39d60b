import TalaPala.Liquidity.Aggregates

namespace TalaPala.Liquidity.Aggregates

open Library List

section Meaning

variable (s : MoneySeries)

def Growth (cur base : ℤ) (x : Option ℚ) : Prop :=
  ∀ v, x = some v ↔ ∃ c ∈ s.points, ∃ b ∈ s.points, c.month = cur ∧ b.month = base ∧
    0 < b.value ∧ (s.code = codeBaseMoney → c.method = b.method ∧ b.method ≠ "") ∧
    v = roundTo (100 * (c.value / b.value - 1)) 6

def yearMonths (y : ℤ) : List ℤ := Int.range (newMonth y 1) (newMonth y 12 + 1)

def Whole (y : ℤ) : Prop := ∀ m ∈ yearMonths y, ∃ p ∈ s.points, p.month = m

def OneMethod (ms : List ℤ) : Prop :=
  ∃ method ≠ "", ∀ p ∈ s.points, p.month ∈ ms → p.method = method

def valueAt (m : ℤ) : ℚ := ((s.byMonth m).map MoneyPoint.value).getD 0

def mean (y : ℤ) : ℚ := ((yearMonths y).map (valueAt s)).sum / 12

def Average (y : ℤ) (x : Option ℚ) : Prop :=
  ∀ v, x = some v ↔ Whole s y ∧ (s.code = codeBaseMoney → OneMethod s (yearMonths y)) ∧
    v = roundTo (mean s y) 6

def WholePair (y : ℤ) : Prop :=
  Whole s y ∧ Whole s (y - 1) ∧
    (s.code = codeBaseMoney → OneMethod s (yearMonths y ++ yearMonths (y - 1)))

def AverageGrowth (y : ℤ) (x : Option ℚ) : Prop :=
  ∀ v, x = some v ↔ WholePair s y ∧ 0 < mean s (y - 1) ∧
    v = roundTo (100 * (mean s y / mean s (y - 1) - 1)) 6

end Meaning

section Points

variable {s : MoneySeries}

theorem byMonth_eq_some_iff {m : ℤ} {p : MoneyPoint} :
    s.byMonth m = some p ↔ p ∈ s.points ∧ p.month = m := by
  constructor
  · intro h
    have hm := find?_some h
    exact ⟨mem_reverse.mp (mem_of_find?_eq_some h), of_decide_eq_true hm⟩
  · rintro ⟨hmem, hm⟩
    cases h : s.byMonth m with
    | none =>
      have hnot := find?_eq_none.mp h p (mem_reverse.mpr hmem)
      exact absurd (decide_eq_true hm) hnot
    | some q =>
      have hq := find?_some h
      have hqmem := mem_reverse.mp (mem_of_find?_eq_some h)
      rw [s.ascending.eq_of_start hqmem hmem ((of_decide_eq_true hq).trans hm.symm)]

theorem newGrowthRule_all : (newGrowthRule s).all = s.byMonth := by
  rw [newGrowthRule]
  dsimp only
  split
  · split <;> rfl
  · rfl

theorem newGrowthRule_methodSensitive :
    (newGrowthRule s).methodSensitive = decide (s.code = codeBaseMoney) := by
  rw [newGrowthRule]
  dsimp only
  split
  · split <;> rfl
  · rfl

theorem pct_eq_ok_iff {g : GrowthRule} {cur : MoneyPoint} {base : ℤ} {what : String} {v : ℚ} :
    g.pct cur base what = .ok v ↔ ∃ b, g.all base = some b ∧ 0 < b.value ∧
      (g.methodSensitive = true → cur.method = b.method ∧ b.method ≠ "") ∧
      v = 100 * (cur.value / b.value - 1) := by
  rw [GrowthRule.pct]
  cases g.all base with
  | none => simp
  | some b =>
    simp only [Option.some.injEq, exists_eq_left']
    split
    · rename_i hvalue
      simp [not_lt.mpr hvalue]
    · rename_i hvalue
      rw [not_le] at hvalue
      split
      · rename_i hunknown
        obtain ⟨hsensitive, hunknown⟩ := hunknown
        refine iff_of_false (fun h ↦ by cases h) (fun h ↦ ?_)
        obtain ⟨hsame, hknown⟩ := h.2.1 hsensitive
        rcases hunknown with hcur | hb
        · exact hknown (hsame ▸ hcur)
        · exact hknown hb
      · rename_i hknown
        split
        · rename_i hacross
          exact iff_of_false (fun h ↦ by cases h) (fun h ↦ hacross.2 (h.2.1 hacross.1).1)
        · rename_i hacross
          rw [Except.ok.injEq, eq_comm]
          refine ⟨fun h ↦ ⟨hvalue, fun hsensitive ↦ ⟨?_, ?_⟩, h⟩, fun h ↦ h.2.2⟩
          · by_contra hne
            exact hacross ⟨hsensitive, hne⟩
          · exact fun hb ↦ hknown ⟨hsensitive, .inr hb⟩

theorem growth_pct {cur : MoneyPoint} (hcur : cur ∈ s.points) (base : ℤ) (what : String) :
    Growth s cur.month base (round6 ((newGrowthRule s).pct cur base what)) := by
  intro v
  rw [round6, Option.map_eq_some_iff]
  constructor
  · rintro ⟨x, hx, rfl⟩
    have hok : (newGrowthRule s).pct cur base what = .ok x := by
      cases h : (newGrowthRule s).pct cur base what with
      | error why => rw [h] at hx; cases hx
      | ok w => rw [h] at hx; cases hx; rfl
    obtain ⟨b, hb, hvalue, hmethod, rfl⟩ := pct_eq_ok_iff.mp hok
    rw [newGrowthRule_all, byMonth_eq_some_iff] at hb
    rw [newGrowthRule_methodSensitive, decide_eq_true_eq] at hmethod
    exact ⟨cur, hcur, b, hb.1, rfl, hb.2, hvalue, hmethod, rfl⟩
  · rintro ⟨c, hc, b, hb, hcm, hbm, hvalue, hmethod, rfl⟩
    obtain rfl := s.ascending.eq_of_start hc hcur hcm
    have hbase : (newGrowthRule s).all base = some b := by
      rw [newGrowthRule_all, byMonth_eq_some_iff]
      exact ⟨hb, hbm⟩
    have hsensitive : (newGrowthRule s).methodSensitive = true →
        c.method = b.method ∧ b.method ≠ "" := by
      rw [newGrowthRule_methodSensitive, decide_eq_true_eq]
      exact hmethod
    have hok : (newGrowthRule s).pct c base what = .ok (100 * (c.value / b.value - 1)) :=
      pct_eq_ok_iff.mpr ⟨b, hbase, hvalue, hsensitive, rfl⟩
    exact ⟨_, by rw [hok]; rfl, rfl⟩

theorem buildPoints_growth (s : MoneySeries) :
    List.Forall₂ (fun p ap ↦ Growth s p.month (p.month - 1) ap.momPct ∧
      Growth s p.month (p.month - 12) ap.yoyPct ∧
      Growth s p.month (newMonth (monthYear p.month - 1) 12) ap.ytdPct)
      s.points (buildPoints s) := by
  rw [buildPoints, List.forall₂_map_right_iff, List.forall₂_same]
  exact fun p hp ↦ ⟨growth_pct hp _ _, growth_pct hp _ _, growth_pct hp _ _⟩

theorem inferred_on_one_side (hcode : s.code = codeBaseMoney)
    (hmethod : ∀ p ∈ s.points, p.method = (effectiveMethod p.month "").1) {cur base : ℤ}
    {x : Option ℚ} (h : Growth s cur base x) (hx : x ≠ none) :
    (cur < baseMoneyBreak ∧ base < baseMoneyBreak) ∨
      (allRevisedFrom ≤ cur ∧ allRevisedFrom ≤ base) := by
  obtain ⟨v, hv⟩ := Option.ne_none_iff_exists'.mp hx
  obtain ⟨c, hc, b, hb, rfl, rfl, -, hone, -⟩ := (h v).mp hv
  obtain ⟨hsame, hknown⟩ := hone hcode
  rw [hmethod b hb] at hknown
  rw [hmethod c hc, hmethod b hb] at hsame
  simp only [effectiveMethod, ne_eq, not_true_eq_false, if_false] at hsame hknown
  by_cases hcb : c.month < baseMoneyBreak <;> by_cases hbb : b.month < baseMoneyBreak
  · exact .inl ⟨hcb, hbb⟩
  · by_cases hbr : allRevisedFrom ≤ b.month <;> simp [hcb, hbb, hbr] at hsame hknown
    exact absurd hsame (by decide)
  · by_cases hcr : allRevisedFrom ≤ c.month <;> simp [hcb, hbb, hcr] at hsame
    · exact absurd hsame (by decide)
    · exact absurd hsame (by decide)
  · by_cases hcr : allRevisedFrom ≤ c.month <;> by_cases hbr : allRevisedFrom ≤ b.month <;>
      simp [hcb, hbb, hcr, hbr] at hsame hknown
    · exact .inr ⟨hcr, hbr⟩
    · exact absurd hsame (by decide)

end Points

section Years

variable {s : MoneySeries} {y : ℤ}

def yearPoints (s : MoneySeries) (y : ℤ) : List MoneyPoint :=
  s.points.filter (fun p ↦ monthYear p.month = y)

theorem foldl_add (l : List MoneyPoint) (st : YearStats) :
    l.foldl YearStats.add st = ⟨st.months + l.length, st.sum + (l.map MoneyPoint.value).sum,
      st.methods ∪ (l.map MoneyPoint.method).toFinset⟩ := by
  induction l generalizing st with
  | nil => simp
  | cons p l ih =>
    rw [foldl_cons, ih, YearStats.add]
    simp only [length_cons, map_cons, sum_cons, toFinset_cons]
    congr 1
    · omega
    · rw [add_assoc]
    · rw [Finset.insert_union, Finset.union_insert]

theorem yearStats_eq (s : MoneySeries) (y : ℤ) :
    yearStats s y = ⟨(yearPoints s y).length, ((yearPoints s y).map MoneyPoint.value).sum,
      ((yearPoints s y).map MoneyPoint.method).toFinset⟩ := by
  rw [yearStats, foldl_add, zero_add, zero_add, Finset.empty_union]
  rfl

theorem mem_yearMonths {m : ℤ} : m ∈ yearMonths y ↔ newMonth y 1 ≤ m ∧ m ≤ newMonth y 12 := by
  rw [yearMonths, Int.mem_range_iff, Int.lt_add_one_iff]

theorem length_yearMonths : (yearMonths y).length = 12 := by
  have hspan : newMonth y 12 + 1 - newMonth y 1 = 12 := by
    rw [newMonth, newMonth]
    omega
  rw [yearMonths, Int.range, length_map, length_range, hspan]
  rfl

theorem mem_yearPoints {p : MoneyPoint} :
    p ∈ yearPoints s y ↔ p ∈ s.points ∧ p.month ∈ yearMonths y := by
  rw [yearPoints, mem_filter, decide_eq_true_eq]
  refine and_congr_right (fun hp ↦ ?_)
  have hlabel := s.labelled p hp
  rw [mem_yearMonths, monthYear, newMonth, newMonth, Int.tdiv_eq_ediv_of_nonneg (by omega)]
  omega

theorem months_subperm (s : MoneySeries) (y : ℤ) :
    ((yearPoints s y).map MoneyPoint.month).Subperm (yearMonths y) := by
  have hnodup : ((yearPoints s y).map MoneyPoint.month).Nodup :=
    pairwise_map.mpr ((s.ascending.filter _).imp (fun h ↦ h.ne))
  refine subperm_of_subset hnodup (fun m hm ↦ ?_)
  obtain ⟨p, hp, rfl⟩ := mem_map.mp hm
  exact (mem_yearPoints.mp hp).2

theorem complete_iff_perm : (yearStats s y).complete = true ↔
    ((yearPoints s y).map MoneyPoint.month).Perm (yearMonths y) := by
  rw [yearStats_eq, YearStats.complete, decide_eq_true_eq]
  dsimp only
  constructor
  · intro hlen
    exact (months_subperm s y).perm_of_length_le (by rw [length_yearMonths, length_map, hlen])
  · intro hperm
    have hlen := hperm.length_eq
    rwa [length_map, length_yearMonths] at hlen

theorem complete_iff_whole : (yearStats s y).complete = true ↔ Whole s y := by
  rw [complete_iff_perm]
  constructor
  · intro hperm m hm
    obtain ⟨p, hp, rfl⟩ := mem_map.mp (hperm.mem_iff.mpr hm)
    exact ⟨p, (mem_yearPoints.mp hp).1, rfl⟩
  · intro hwhole
    have hnodup : (yearMonths y).Nodup := (range_ascending _ _).imp (fun h ↦ ne_of_lt h)
    refine (months_subperm s y).perm_of_length_le (subperm_of_subset hnodup ?_).length_le
    intro m hm
    obtain ⟨p, hp, rfl⟩ := hwhole m hm
    exact mem_map.mpr ⟨p, mem_yearPoints.mpr ⟨hp, hm⟩, rfl⟩

theorem valueAt_month {p : MoneyPoint} (hp : p ∈ s.points) : valueAt s p.month = p.value := by
  rw [valueAt, byMonth_eq_some_iff.mpr ⟨hp, rfl⟩]
  rfl

theorem avg_eq_mean (h : Whole s y) : (yearStats s y).avg = mean s y := by
  have hperm := complete_iff_perm.mp (complete_iff_whole.mpr h)
  have hvalues : (yearPoints s y).map MoneyPoint.value =
      ((yearPoints s y).map MoneyPoint.month).map (valueAt s) := by
    rw [map_map]
    exact map_congr_left (fun p hp ↦ (valueAt_month (mem_yearPoints.mp hp).1).symm)
  rw [YearStats.avg, yearStats_eq, mean, hvalues, (hperm.map _).sum_eq]

theorem yearPoints_ne_nil (h : Whole s y) : yearPoints s y ≠ [] := by
  intro hnil
  have hlen := (complete_iff_perm.mp (complete_iff_whole.mpr h)).length_eq
  rw [hnil, length_yearMonths] at hlen
  cases hlen

theorem oneKnownMethod_iff {a b : Finset String} :
    oneKnownMethod a b = true ↔ ∃ method ≠ "", a ∪ b = {method} := by
  rw [oneKnownMethod, Bool.and_eq_true, decide_eq_true_eq, decide_eq_true_eq, Finset.card_eq_one]
  constructor
  · rintro ⟨⟨method, h⟩, hknown⟩
    rw [h, Finset.mem_singleton] at hknown
    exact ⟨method, Ne.symm hknown, h⟩
  · rintro ⟨method, hknown, h⟩
    rw [h, Finset.mem_singleton]
    exact ⟨⟨method, rfl⟩, hknown.symm⟩

theorem methods_eq_singleton_iff {l : List MoneyPoint} (hl : l ≠ []) {method : String} :
    (l.map MoneyPoint.method).toFinset = {method} ↔ ∀ p ∈ l, p.method = method := by
  rw [Finset.eq_singleton_iff_nonempty_unique_mem, toFinset_nonempty_iff,
    and_iff_right (by simpa using hl)]
  simp only [mem_toFinset, forall_mem_map]

theorem oneMethod_iff (h : Whole s y) :
    oneKnownMethod (yearStats s y).methods ∅ = true ↔ OneMethod s (yearMonths y) := by
  rw [oneKnownMethod_iff, yearStats_eq, OneMethod]
  simp only [Finset.union_empty, methods_eq_singleton_iff (yearPoints_ne_nil h), mem_yearPoints,
    and_imp]

theorem oneMethod_pair_iff (h : Whole s y) :
    oneKnownMethod (yearStats s y).methods (yearStats s (y - 1)).methods = true ↔
      OneMethod s (yearMonths y ++ yearMonths (y - 1)) := by
  have hne : yearPoints s y ++ yearPoints s (y - 1) ≠ [] :=
    append_ne_nil_of_left_ne_nil (yearPoints_ne_nil h) _
  rw [oneKnownMethod_iff, yearStats_eq, yearStats_eq, OneMethod]
  simp only [← toFinset_append, ← map_append, methods_eq_singleton_iff hne,
    mem_append, mem_yearPoints, ← and_or_left, and_imp]

theorem OneMethod.left {ms ms' : List ℤ} (h : OneMethod s (ms ++ ms')) : OneMethod s ms := by
  obtain ⟨method, hknown, h⟩ := h
  exact ⟨method, hknown, fun p hp hm ↦ h p hp (mem_append_left _ hm)⟩

end Years

section Cells

variable {s : MoneySeries} {y : ℤ}

theorem cell_endGrowth (s : MoneySeries) (y : ℤ) :
    Growth s (newMonth y 12) (newMonth (y - 1) 12) (annualCell s y).endGrowthPct := by
  have hcell : (annualCell s y).endGrowthPct = ((s.byMonth (newMonth y 12)).map (fun e ↦
      (newGrowthRule s).pct e (newMonth (y - 1) 12) "Esfand-over-Esfand")).bind round6 := by
    rw [← newGrowthRule_all]
    rfl
  rw [hcell]
  cases hesfand : s.byMonth (newMonth y 12) with
  | none =>
    refine fun v ↦ iff_of_false (fun h ↦ by cases h) ?_
    rintro ⟨c, hc, b, -, hcm, -⟩
    rw [byMonth_eq_some_iff.mpr ⟨hc, hcm⟩] at hesfand
    cases hesfand
  | some e =>
    obtain ⟨he, hem⟩ := byMonth_eq_some_iff.mp hesfand
    have h := growth_pct he (newMonth (y - 1) 12) "Esfand-over-Esfand"
    rwa [hem] at h

theorem annualAverage_eq_ok_iff {x : ℚ × Except String (Option ℚ)} :
    annualAverage (decide (s.code = codeBaseMoney)) y (yearStats s y) (yearStats s (y - 1)) = .ok x ↔
      (Whole s y ∧ (s.code = codeBaseMoney → OneMethod s (yearMonths y))) ∧
      x = (roundTo (mean s y) 6,
        averageGrowth (decide (s.code = codeBaseMoney)) y (yearStats s y) (yearStats s (y - 1))) := by
  rw [annualAverage]
  by_cases hwhole : Whole s y
  · rw [complete_iff_whole.mpr hwhole, Bool.not_true, if_neg Bool.false_ne_true, avg_eq_mean hwhole]
    by_cases hone : s.code = codeBaseMoney → OneMethod s (yearMonths y)
    · have hknown : (decide (s.code = codeBaseMoney) &&
          !oneKnownMethod (yearStats s y).methods ∅) = false := by
        by_cases hcode : s.code = codeBaseMoney
        · rw [(oneMethod_iff hwhole).mpr (hone hcode), Bool.not_true, Bool.and_false]
        · rw [decide_eq_false hcode, Bool.false_and]
      rw [hknown, if_neg Bool.false_ne_true, Except.ok.injEq, eq_comm]
      exact (and_iff_right ⟨hwhole, hone⟩).symm
    · rw [Classical.not_imp] at hone
      have hunknown : oneKnownMethod (yearStats s y).methods ∅ = false := by
        rw [← Bool.not_eq_true, oneMethod_iff hwhole]
        exact hone.2
      rw [decide_eq_true hone.1, hunknown]
      exact iff_of_false (fun h ↦ by cases h) (fun h ↦ hone.2 (h.1.2 hone.1))
  · have hshort : (yearStats s y).complete = false := by
      rw [← Bool.not_eq_true, complete_iff_whole]
      exact hwhole
    rw [hshort]
    exact iff_of_false (fun h ↦ by cases h) (fun h ↦ hwhole h.1.1)

theorem averageGrowth_eq_ok_iff (hwhole : Whole s y) {x : Option ℚ} :
    averageGrowth (decide (s.code = codeBaseMoney)) y (yearStats s y) (yearStats s (y - 1)) = .ok x ↔
      (Whole s (y - 1) ∧
        (s.code = codeBaseMoney → OneMethod s (yearMonths y ++ yearMonths (y - 1)))) ∧
      x = if mean s (y - 1) = 0 then none
        else some (roundTo (100 * (mean s y / mean s (y - 1) - 1)) 6) := by
  rw [averageGrowth]
  by_cases hprev : Whole s (y - 1)
  · rw [complete_iff_whole.mpr hprev, Bool.not_true, if_neg Bool.false_ne_true,
      avg_eq_mean hwhole, avg_eq_mean hprev]
    by_cases hone : s.code = codeBaseMoney → OneMethod s (yearMonths y ++ yearMonths (y - 1))
    · have hknown : (decide (s.code = codeBaseMoney) &&
          !oneKnownMethod (yearStats s y).methods (yearStats s (y - 1)).methods) = false := by
        by_cases hcode : s.code = codeBaseMoney
        · rw [(oneMethod_pair_iff hwhole).mpr (hone hcode), Bool.not_true, Bool.and_false]
        · rw [decide_eq_false hcode, Bool.false_and]
      rw [hknown, if_neg Bool.false_ne_true, and_iff_right ⟨hprev, hone⟩]
      split <;> rw [Except.ok.injEq, eq_comm]
    · rw [Classical.not_imp] at hone
      have hunknown :
          oneKnownMethod (yearStats s y).methods (yearStats s (y - 1)).methods = false := by
        rw [← Bool.not_eq_true, oneMethod_pair_iff hwhole]
        exact hone.2
      rw [decide_eq_true hone.1, hunknown]
      exact iff_of_false (fun h ↦ by cases h) (fun h ↦ hone.2 (h.1.2 hone.1))
  · have hshort : (yearStats s (y - 1)).complete = false := by
      rw [← Bool.not_eq_true, complete_iff_whole]
      exact hprev
    rw [hshort]
    exact iff_of_false (fun h ↦ by cases h) (fun h ↦ hprev h.1.1)

theorem toOption_eq_some_iff {ε α : Type*} {x : Except ε α} {a : α} :
    x.toOption = some a ↔ x = .ok a := by
  cases x with
  | error e => exact iff_of_false (fun h ↦ by cases h) (fun h ↦ by cases h)
  | ok b => rw [Except.ok.injEq]; exact Option.some_inj

theorem cell_avgValue (s : MoneySeries) (y : ℤ) : Average s y (annualCell s y).avgValue := by
  intro v
  rw [annualCell, newGrowthRule_methodSensitive]
  simp only [Option.map_eq_some_iff, toOption_eq_some_iff, annualAverage_eq_ok_iff]
  constructor
  · rintro ⟨x, ⟨⟨hwhole, hone⟩, rfl⟩, rfl⟩
    exact ⟨hwhole, hone, rfl⟩
  · rintro ⟨hwhole, hone, rfl⟩
    exact ⟨_, ⟨⟨hwhole, hone⟩, rfl⟩, rfl⟩

theorem cell_avgGrowth_iff {v : ℚ} :
    (annualCell s y).avgGrowthPct = some v ↔ WholePair s y ∧ mean s (y - 1) ≠ 0 ∧
      v = roundTo (100 * (mean s y / mean s (y - 1) - 1)) 6 := by
  rw [annualCell, newGrowthRule_methodSensitive]
  simp only [Option.join_eq_some_iff, Option.bind_eq_some_iff, toOption_eq_some_iff,
    annualAverage_eq_ok_iff]
  constructor
  · rintro ⟨x, ⟨⟨hwhole, -⟩, rfl⟩, hgrowth⟩
    obtain ⟨⟨hprev, hone⟩, hx⟩ := (averageGrowth_eq_ok_iff hwhole).mp hgrowth
    split at hx
    · cases hx
    · rename_i hzero
      cases hx
      exact ⟨⟨hwhole, hprev, hone⟩, hzero, rfl⟩
  · rintro ⟨⟨hwhole, hprev, hone⟩, hzero, rfl⟩
    refine ⟨_, ⟨⟨hwhole, fun hcode ↦ (hone hcode).left⟩, rfl⟩, ?_⟩
    refine (averageGrowth_eq_ok_iff hwhole).mpr ⟨⟨hprev, hone⟩, ?_⟩
    rw [if_neg hzero]

end Cells

section Rows

variable {series : List MoneySeries} {s : MoneySeries} {code : String} {y : ℤ}

def figureAt (column : AnnualRow → Option (List (String × Option ℚ))) (rows : List AnnualRow)
    (code : String) (y : ℤ) : Option ℚ :=
  (((rows.find? (fun r ↦ r.year = y)).bind column).bind (fun c ↦ c.lookup code)).join

theorem find?_buildAnnual (series : List MoneySeries) (y : ℤ) :
    (buildAnnual series).find? (fun r ↦ r.year = y) = some (annualRow series y) ∨
      ((buildAnnual series).find? (fun r ↦ r.year = y) = none ∧
        ∀ t ∈ series, ∀ p ∈ t.points, monthYear p.month ≠ y) := by
  have hyear {t : MoneySeries} {p : MoneyPoint} (ht : t ∈ series) (hp : p ∈ t.points) :
      monthYear p.month ∈ (series.flatMap MoneySeries.points).map (fun p ↦ monthYear p.month) :=
    mem_map.mpr ⟨p, mem_flatMap.mpr ⟨t, ht, hp⟩, rfl⟩
  cases hfind : (buildAnnual series).find? (fun r ↦ r.year = y) with
  | some row =>
    have hrow := find?_some hfind
    have hmem := mem_of_find?_eq_some hfind
    rw [buildAnnual] at hmem
    split at hmem
    · obtain ⟨i, -, rfl⟩ := mem_map.mp hmem
      have hi : i = y := of_decide_eq_true hrow
      exact .inl (by rw [hi])
    · cases hmem
  | none =>
    refine .inr ⟨rfl, fun t ht p hp hy ↦ ?_⟩
    have hin := hyear ht hp
    rw [buildAnnual] at hfind
    split at hfind
    · rename_i minY maxY hmin hmax
      have hlo := (min?_eq_some_iff.mp hmin).2 _ hin
      have hhi := (max?_eq_some_iff.mp hmax).2 _ hin
      have hrow : annualRow series y ∈ (Int.range minY (maxY + 1)).map (annualRow series) :=
        mem_map.mpr ⟨y, Int.mem_range_iff.mpr (by omega), rfl⟩
      have hnot := find?_eq_none.mp hfind _ hrow
      exact hnot (decide_eq_true rfl)
    · rename_i hnone
      obtain ⟨minY, hmin⟩ := Option.isSome_iff_exists.mp
        (isSome_min?_of_mem hin)
      obtain ⟨maxY, hmax⟩ := Option.isSome_iff_exists.mp
        (isSome_max?_of_mem hin)
      exact hnone _ _ hmin hmax

theorem lookup_annualCells (hs : series.reverse.find? (fun t ↦ t.code = code) = some s)
    (y : ℤ) : (annualCells series y).lookup code = some (annualCell s y) := by
  have hcode : s.code = code := by
    have h := find?_some hs
    exact of_decide_eq_true h
  have hmem : s ∈ series := mem_reverse.mp (mem_of_find?_eq_some hs)
  have hall {l : List MoneySeries} (hl : ∃ t ∈ l, t.code = code) :
      (l.map (fun t ↦ (t.code, annualCell (namedSeries series t) y))).lookup code =
        some (annualCell s y) := by
    induction l with
    | nil =>
      obtain ⟨t, ht, -⟩ := hl
      cases ht
    | cons t l ih =>
      rw [map_cons, lookup_cons]
      by_cases ht : t.code = code
      · rw [namedSeries, ht, hs, beq_self_eq_true]
        rfl
      · rw [beq_false_of_ne (Ne.symm ht)]
        obtain ⟨t', ht', hcode'⟩ := hl
        rcases mem_cons.mp ht' with rfl | ht'
        · exact absurd hcode' ht
        · exact ih ⟨t', ht', hcode'⟩
  exact hall ⟨s, hmem, hcode⟩

theorem lookup_map {α : Type*} (f : AnnualCell → α) (cells : List (String × AnnualCell)) :
    (cells.map (fun c ↦ (c.1, f c.2))).lookup code = (cells.lookup code).map f := by
  induction cells with
  | nil => rfl
  | cons c cells ih =>
    obtain ⟨k, cell⟩ := c
    rw [map_cons, lookup_cons, lookup_cons, ih]
    cases code == k <;> rfl

theorem mem_of_lookup {cell : AnnualCell} {cells : List (String × AnnualCell)}
    (h : cells.lookup code = some cell) : (code, cell) ∈ cells := by
  induction cells with
  | nil => cases h
  | cons c cells ih =>
    obtain ⟨k, cell'⟩ := c
    rw [lookup_cons] at h
    by_cases hk : code = k
    · subst hk
      rw [beq_self_eq_true] at h
      cases h
      exact mem_cons_self
    · rw [beq_false_of_ne hk] at h
      exact mem_cons_of_mem _ (ih h)

theorem no_figure (h : ∀ p ∈ s.points, monthYear p.month ≠ y) :
    (annualCell s y).endGrowthPct = none ∧ (annualCell s y).avgValue = none ∧
      (annualCell s y).avgGrowthPct = none := by
  have hno {p : MoneyPoint} (hp : p ∈ s.points) (hm : p.month ∈ yearMonths y) : False := by
    have hmem := mem_yearPoints.mpr ⟨hp, hm⟩
    exact h p hp (of_decide_eq_true (mem_filter.mp hmem).2)
  have hesfand : newMonth y 12 ∈ yearMonths y := by
    rw [mem_yearMonths, newMonth, newMonth]
    omega
  have hpart : ¬Whole s y := by
    intro hwhole
    obtain ⟨p, hp, hm⟩ := hwhole _ hesfand
    exact hno hp (hm ▸ hesfand)
  refine ⟨Option.eq_none_iff_forall_ne_some.mpr (fun v hv ↦ ?_),
    Option.eq_none_iff_forall_ne_some.mpr (fun v hv ↦ ?_),
    Option.eq_none_iff_forall_ne_some.mpr (fun v hv ↦ ?_)⟩
  · obtain ⟨c, hc, -, -, hm, -⟩ := (cell_endGrowth s y v).mp hv
    exact hno hc (hm ▸ hesfand)
  · exact hpart ((cell_avgValue s y v).mp hv).1
  · exact hpart (cell_avgGrowth_iff.mp hv).1.1

theorem figureAt_eq (hs : series.reverse.find? (fun t ↦ t.code = code) = some s) (y : ℤ) :
    figureAt (fun r ↦ some r.endGrowthPct) (buildAnnual series) code y =
        (annualCell s y).endGrowthPct ∧
      figureAt AnnualRow.avgValue (buildAnnual series) code y = (annualCell s y).avgValue ∧
      figureAt AnnualRow.avgGrowthPct (buildAnnual series) code y =
        (annualCell s y).avgGrowthPct := by
  have hcell := lookup_annualCells hs y
  rcases find?_buildAnnual series y with hrow | ⟨hrow, hnone⟩
  · rw [figureAt, figureAt, figureAt, hrow]
    simp only [Option.bind_some, annualRow]
    refine ⟨?_, ?_, ?_⟩
    · rw [lookup_map, hcell]
      rfl
    · by_cases hany : (annualCells series y).any (fun c ↦ c.2.averaged) = true
      · rw [if_pos hany, Option.bind_some, lookup_map, hcell]
        rfl
      · rw [if_neg hany]
        have hflag : (annualCell s y).averaged = false := by
          rw [← Bool.not_eq_true]
          exact fun h ↦ hany (any_eq_true.mpr ⟨_, mem_of_lookup hcell, h⟩)
        have hvalue : (annualCell s y).avgValue = none := by
          rw [annualCell, Option.map_eq_none_iff]
          exact Option.isSome_eq_false_iff.mp hflag |> Option.isNone_iff_eq_none.mp
        rw [hvalue]
        rfl
    · by_cases hany : (annualCells series y).any (fun c ↦ c.2.grown) = true
      · rw [if_pos hany, Option.bind_some, lookup_map, hcell]
        rfl
      · rw [if_neg hany]
        have hflag : (annualCell s y).grown = false := by
          rw [← Bool.not_eq_true]
          exact fun h ↦ hany (any_eq_true.mpr ⟨_, mem_of_lookup hcell, h⟩)
        have hgrowth : (annualCell s y).avgGrowthPct = none := by
          rw [annualCell]
          have hbind := Option.isSome_eq_false_iff.mp hflag |> Option.isNone_iff_eq_none.mp
          exact congrArg Option.join hbind
        rw [hgrowth]
        rfl
  · have hmem : s ∈ series := mem_reverse.mp (mem_of_find?_eq_some hs)
    obtain ⟨hend, havg, hgrowth⟩ := no_figure (hnone s hmem)
    rw [figureAt, figureAt, figureAt, hrow, hend, havg, hgrowth]
    exact ⟨rfl, rfl, rfl⟩

/-- Every growth figure is that of the stored months it names, all of one known method; an
average growth only where the earlier average is not negative. -/
theorem growth_within_one_method (series : List MoneySeries) :
    (∀ s ∈ series, List.Forall₂ (fun p ap ↦ Growth s p.month (p.month - 1) ap.momPct ∧
      Growth s p.month (p.month - 12) ap.yoyPct ∧
      Growth s p.month (newMonth (monthYear p.month - 1) 12) ap.ytdPct)
      s.points (buildPoints s)) ∧
    (∀ s ∈ series, s.code = codeBaseMoney →
      (∀ p ∈ s.points, p.method = (effectiveMethod p.month "").1) →
      ∀ cur base x, Growth s cur base x → x ≠ none →
        (cur < baseMoneyBreak ∧ base < baseMoneyBreak) ∨
          (allRevisedFrom ≤ cur ∧ allRevisedFrom ≤ base)) ∧
    ∀ code s, series.reverse.find? (fun t ↦ t.code = code) = some s → ∀ y,
      Growth s (newMonth y 12) (newMonth (y - 1) 12)
        (figureAt (fun r ↦ some r.endGrowthPct) (buildAnnual series) code y) ∧
      Average s y (figureAt AnnualRow.avgValue (buildAnnual series) code y) ∧
      (figureAt AnnualRow.avgGrowthPct (buildAnnual series) code y ≠ none → WholePair s y) ∧
      (0 ≤ mean s (y - 1) →
        AverageGrowth s y (figureAt AnnualRow.avgGrowthPct (buildAnnual series) code y)) := by
  refine ⟨fun s _ ↦ buildPoints_growth s, fun s _ hcode hmethod cur base x hgrowth hx ↦
    inferred_on_one_side hcode hmethod hgrowth hx, fun code s hs y ↦ ?_⟩
  obtain ⟨hend, havg, hgrowth⟩ := figureAt_eq hs y
  rw [hend, havg, hgrowth]
  refine ⟨cell_endGrowth s y, cell_avgValue s y, fun hsome ↦ ?_, fun hpos v ↦ ?_⟩
  · obtain ⟨v, hv⟩ := Option.ne_none_iff_exists'.mp hsome
    exact (cell_avgGrowth_iff.mp hv).1
  · rw [cell_avgGrowth_iff]
    refine and_congr_right (fun _ ↦ and_congr_left (fun _ ↦ ?_))
    exact ⟨fun hne ↦ lt_of_le_of_ne hpos (Ne.symm hne), ne_of_gt⟩

def stock (m : ℤ) (value : ℚ) : MoneyPoint := ⟨m, value, 1, 0, none, none, "", "excel"⟩

theorem stock_ascending (value : ℤ → ℚ) (a b : ℤ) :
    AscendingBy MoneyPoint.month ((Int.range a b).map (fun m ↦ stock m (value m))) :=
  pairwise_map.mpr (range_ascending a b)

theorem twelve_le_first : (12 : ℤ) ≤ newMonth 1400 1 := by decide

theorem stock_labelled (value : ℤ → ℚ) (b : ℤ) :
    ∀ p ∈ (Int.range (newMonth 1400 1) b).map (fun m ↦ stock m (value m)), 12 ≤ p.month := by
  intro p hp
  obtain ⟨m, hm, rfl⟩ := mem_map.mp hp
  exact twelve_le_first.trans (Int.mem_range_iff.mp hm).1

def liquidity (value : ℤ → ℚ) (b : ℤ) : MoneySeries where
  code := codeLiquidity
  points := (Int.range (newMonth 1400 1) b).map (fun m ↦ stock m (value m))
  ascending := stock_ascending value _ b
  labelled := stock_labelled value b

/-- A rise from three to four, then a year of one after a year of minus one. -/
theorem rounded_and_unguarded :
    (buildPoints (liquidity (fun m ↦ if m < newMonth 1400 2 then 3 else 4) (newMonth 1400 3))).map
        AggregatePoint.momPct = [none, some (33333333 / 1000000)] ∧
      (33333333 / 1000000 : ℚ) ≠ 100 * (4 / 3 - 1) ∧
      mean (liquidity (fun m ↦ if m < newMonth 1401 1 then -1 else 1) (newMonth 1402 1)) 1400 = -1 ∧
      figureAt AnnualRow.avgGrowthPct
        (buildAnnual [liquidity (fun m ↦ if m < newMonth 1401 1 then -1 else 1) (newMonth 1402 1)])
        codeLiquidity 1401 = some (-200) := by
  refine ⟨by decide +kernel, by norm_num, by decide +kernel, by decide +kernel⟩

end Rows

end TalaPala.Liquidity.Aggregates
