import TalaPala.Prices.Corroboration
import Mathlib.Data.Finset.Max

namespace TalaPala.Prices

open List

section Agreement

variable {a b lo hi : ℚ}

theorem valuesAgree_iff : valuesAgree a b = true ↔ |a - b| * 100 ≤ 3 * max |a| |b| := by
  rw [valuesAgree]
  split_ifs with hzero
  · simp [hzero.1, hzero.2]
  · have hpos : 0 < max |a| |b| := by
      rw [lt_max_iff, abs_pos, abs_pos]
      by_contra hnot
      rw [not_or, not_not, not_not] at hnot
      exact hzero hnot
    rw [decide_eq_true_eq, confirmTolerancePct, div_mul_eq_mul_div, div_le_iff₀ hpos]

theorem valuesAgree_self : valuesAgree a a = true := by
  rw [valuesAgree_iff, sub_self, abs_zero, zero_mul, max_self]
  exact mul_nonneg (by norm_num) (abs_nonneg a)

theorem valuesAgree_between (h : valuesAgree lo hi = true) (hla : lo ≤ a) (hah : a ≤ hi)
    (hlb : lo ≤ b) (hbh : b ≤ hi) : valuesAgree a b = true := by
  rw [valuesAgree_iff] at h ⊢
  rw [abs_sub_comm, abs_of_nonneg (sub_nonneg.mpr (hla.trans hah))] at h
  rcases le_total 0 lo with hlo | hlo
  · have hhi := hlo.trans (hla.trans hah)
    rw [abs_of_nonneg hlo, abs_of_nonneg hhi, max_eq_right (hla.trans hah)] at h
    rw [abs_of_nonneg (hlo.trans hla), abs_of_nonneg (hlo.trans hlb)]
    rcases le_total a b with hab | hab
    · rw [max_eq_right hab, abs_sub_comm, abs_of_nonneg (sub_nonneg.mpr hab)]
      linarith
    · rw [max_eq_left hab, abs_of_nonneg (sub_nonneg.mpr hab)]
      linarith
  · rcases le_total hi 0 with hhi | hhi
    · rw [abs_of_nonpos hlo, abs_of_nonpos hhi, max_eq_left (by linarith)] at h
      rw [abs_of_nonpos (hah.trans hhi), abs_of_nonpos (hbh.trans hhi)]
      rcases le_total a b with hab | hab
      · rw [max_eq_left (by linarith), abs_sub_comm, abs_of_nonneg (sub_nonneg.mpr hab)]
        linarith
      · rw [max_eq_right (by linarith), abs_of_nonneg (sub_nonneg.mpr hab)]
        linarith
    · rw [abs_of_nonpos hlo, abs_of_nonneg hhi] at h
      have hmax : max (-lo) hi ≤ hi - lo := max_le (by linarith) (by linarith)
      have hsame : hi - lo = 0 := by linarith
      have ha : a = b := by linarith
      rw [ha, sub_self, abs_zero, zero_mul, max_self]
      exact mul_nonneg (by norm_num) (abs_nonneg b)

theorem exists_band {value : ℚ} {values : List ℚ}
    (h : (value :: values).Pairwise (fun a b ↦ valuesAgree a b = true)) :
    ∃ lo hi, valuesAgree lo hi = true ∧ ∀ v ∈ value :: values, lo ≤ v ∧ v ≤ hi := by
  have hagree : ∀ a ∈ value :: values, ∀ b ∈ value :: values, valuesAgree a b = true :=
    fun a ha b hb ↦ List.Pairwise.forall_of_forall_of_flip (fun _ _ ↦ valuesAgree_self) h
      (h.imp fun {a b} hab ↦ (valuesAgree_comm b a).trans hab) ha hb
  have hsome : (value :: values).toFinset.Nonempty := ⟨value, by simp⟩
  obtain ⟨lo, hlo, hleast⟩ := Finset.exists_min_image _ id hsome
  obtain ⟨hi, hhi, hmost⟩ := Finset.exists_max_image _ id hsome
  rw [mem_toFinset] at hlo hhi
  refine ⟨lo, hi, hagree lo hlo hi hhi, fun v hv ↦ ?_⟩
  exact ⟨hleast v (mem_toFinset.mpr hv), hmost v (mem_toFinset.mpr hv)⟩

end Agreement

section Walk

structure ProviderRows where
  rows : List (Instant × ℚ × Quality)
  newestFirst : rows.Pairwise (fun row older ↦ older.1 ≤ row.1)

def heldRows (history : List (Instant × ℚ × Quality)) : List (Instant × ℚ × Quality) :=
  history.takeWhile (fun row ↦ row.2.2 = .suspect)

def levelRows (value : ℚ) (history : List (Instant × ℚ × Quality)) :
    List (Instant × ℚ × Quality) :=
  history.takeWhile (fun row ↦ row.2.2 = .suspect ∧ valuesAgree value row.2.1 = true)

structure IsLevelRun (value : ℚ) (at' : Instant) (history : List (Instant × ℚ × Quality))
    (streak : SuspectStreak) (run : List (Instant × ℚ × Quality)) : Prop where
  length : run.length + 1 = streak.length
  held : ∀ row ∈ run, row ∈ heldRows history
  descending : (at' :: run.map Prod.fst).Pairwise (· > ·)
  agree : (value :: run.map (fun row ↦ row.2.1)).Pairwise (fun a b ↦ valuesAgree a b = true)
  span : streak.spanMinutes =
    ((at' - (at' :: run.map Prod.fst).getLast (cons_ne_nil _ _) : ℤ) : ℚ) / 1000000 / 60

def OneLevel (value : ℚ) (at' : Instant) (history : List (Instant × ℚ × Quality)) : Prop :=
  ∃ run, IsLevelRun value at' history (suspectStreak value at' history) run

def InOneBand (value : ℚ) (at' : Instant) (history : List (Instant × ℚ × Quality)) : Prop :=
  ∃ lo hi, valuesAgree lo hi = true ∧ lo ≤ value ∧ value ≤ hi ∧
    ∀ row ∈ levelRows value history, row.1 < at' →
      ∃ other ∈ heldRows history, other.1 = row.1 ∧ lo ≤ other.2.1 ∧ other.2.1 ≤ hi

variable {value : ℚ} {at' since : Instant} {history run : List (Instant × ℚ × Quality)}
  {row : Instant × ℚ × Quality}

theorem walkBack_level (value : ℚ)
    (hnewest : history.Pairwise (fun row older ↦ older.1 ≤ row.1)) (length : ℕ) (since : Instant) :
    ∃ run : List (Instant × ℚ × Quality),
      (∀ row ∈ run, row ∈ levelRows value history) ∧
      (since :: run.map Prod.fst).Pairwise (· > ·) ∧
      (∀ row ∈ levelRows value history, row.1 < since → row.1 ∈ run.map Prod.fst) ∧
      walkBack value length since history =
        (length + run.length, (since :: run.map Prod.fst).getLast (cons_ne_nil _ _)) := by
  induction history generalizing length since with
  | nil =>
    exact ⟨[], by simp, by simp, by simp [levelRows], rfl⟩
  | cons row history ih =>
    obtain ⟨hrow, hrest⟩ := pairwise_cons.mp hnewest
    obtain ⟨observedAt, pastValue, quality⟩ := row
    rw [walkBack]
    split
    next hstop =>
      have hlevel : levelRows value ((observedAt, pastValue, quality) :: history) = [] := by
        rw [levelRows, takeWhile_cons_of_neg]
        rw [decide_eq_true_eq, not_and_or]
        exact hstop
      refine ⟨[], by simp, by simp, ?_, rfl⟩
      rw [hlevel]
      exact fun _ hmem ↦ absurd hmem not_mem_nil
    next hgo =>
      rw [not_or, not_not, not_not] at hgo
      have hlevel : levelRows value ((observedAt, pastValue, quality) :: history) =
          (observedAt, pastValue, quality) :: levelRows value history :=
        takeWhile_cons_of_pos (decide_eq_true hgo)
      rw [hlevel]
      split
      next hsame =>
        obtain ⟨run, hrun, hdesc, hcovers, hwalk⟩ := ih hrest length since
        refine ⟨run, fun row hmem ↦ mem_cons_of_mem _ (hrun row hmem), hdesc, ?_, hwalk⟩
        exact forall_mem_cons.mpr ⟨fun hlt ↦ absurd hsame (not_le.mpr hlt), hcovers⟩
      next hbefore =>
        obtain ⟨run, hrun, hdesc, hcovers, hwalk⟩ := ih hrest (length + 1) observedAt
        refine ⟨(observedAt, pastValue, quality) :: run, ?_, ?_, ?_, ?_⟩
        · exact forall_mem_cons.mpr ⟨mem_cons_self,
            fun row hmem ↦ mem_cons_of_mem _ (hrun row hmem)⟩
        · rw [map_cons, pairwise_cons]
          refine ⟨fun t ht ↦ ?_, hdesc⟩
          have hgt := (pairwise_cons.mp hdesc).1
          rcases mem_cons.mp ht with rfl | ht
          · exact not_le.mp hbefore
          · exact (hgt t ht).trans (not_le.mp hbefore)
        · refine forall_mem_cons.mpr ⟨fun _ ↦ mem_cons_self, fun row hmem _ ↦ ?_⟩
          have hle := hrow row (takeWhile_subset _ hmem)
          rcases hle.lt_or_eq with hlt | heq
          · exact mem_cons_of_mem _ (hcovers row hmem hlt)
          · exact heq ▸ mem_cons_self
        · rw [hwalk, length_cons, map_cons, getLast_cons_cons]
          congr 1
          omega

theorem level_of_newer (hnewest : history.Pairwise (fun row older ↦ older.1 ≤ row.1))
    {other : Instant × ℚ × Quality} (hrow : row ∈ levelRows value history)
    (hother : other ∈ history) (hnewer : row.1 < other.1) :
    other ∈ levelRows value history := by
  rw [← takeWhile_append_dropWhile (l := history)
    (p := fun row ↦ decide (row.2.2 = .suspect ∧ valuesAgree value row.2.1 = true))]
    at hnewest hother
  rcases mem_append.mp hother with hlevel | hdropped
  · exact hlevel
  · have hle := (pairwise_append.mp hnewest).2.2 row hrow other hdropped
    exact absurd hnewer (not_lt.mpr hle)

theorem exists_same_instants {p : Instant × ℚ × Quality → Prop}
    (h : ∀ row ∈ run, ∃ other, p other ∧ other.1 = row.1) :
    ∃ others : List (Instant × ℚ × Quality),
      others.map Prod.fst = run.map Prod.fst ∧ ∀ other ∈ others, p other := by
  induction run with
  | nil => exact ⟨[], rfl, by simp⟩
  | cons row run ih =>
    rw [forall_mem_cons] at h
    obtain ⟨⟨other, hother, hat⟩, hrest⟩ := h
    obtain ⟨others, hinstants, hothers⟩ := ih hrest
    refine ⟨other :: others, ?_, forall_mem_cons.mpr ⟨hother, hothers⟩⟩
    rw [map_cons, map_cons, hat, hinstants]

theorem last_le (h : (at' :: run.map Prod.fst).Pairwise (· > ·)) :
    (at' :: run.map Prod.fst).getLast (cons_ne_nil _ _) ≤ at' := by
  rcases mem_cons.mp (getLast_mem (cons_ne_nil at' (run.map Prod.fst)))
    with heq | hmem
  · exact heq.le
  · exact ((pairwise_cons.mp h).1 _ hmem).le

theorem last_le_of_mem {t : Instant} (h : (at' :: run.map Prod.fst).Pairwise (· > ·))
    (ht : t ∈ run.map Prod.fst) :
    (at' :: run.map Prod.fst).getLast (cons_ne_nil _ _) ≤ t := by
  have hmem : t ∈ at' :: run.map Prod.fst := mem_cons_of_mem _ ht
  rw [← dropLast_append_getLast (cons_ne_nil at' (run.map Prod.fst))] at h hmem
  rcases mem_append.mp hmem with hbefore | hlast
  · exact ((pairwise_append.mp h).2.2 t hbefore _ (mem_singleton.mpr rfl)).le
  · exact (mem_singleton.mp hlast).ge

theorem minutes_nonneg (h : since ≤ at') :
    (0 : ℚ) ≤ ((at' - since : ℤ) : ℚ) / 1000000 / 60 := by
  have hle : (0 : ℚ) ≤ ((at' - since : ℤ) : ℚ) := Int.cast_nonneg (sub_nonneg.mpr h)
  exact div_nonneg (div_nonneg hle (by norm_num)) (by norm_num)

theorem oneLevel_of_band (hnewest : history.Pairwise (fun row older ↦ older.1 ≤ row.1))
    (h : InOneBand value at' history) : OneLevel value at' history := by
  obtain ⟨lo, hi, hagree, hlo, hhi, hband⟩ := h
  obtain ⟨run, hrun, hdesc, -, hwalk⟩ := walkBack_level value hnewest 1 at'
  have hbefore := (pairwise_cons.mp hdesc).1
  obtain ⟨others, hinstants, hothers⟩ := exists_same_instants fun row hrow ↦ by
    obtain ⟨other, hheld, hat, hin⟩ :=
      hband row (hrun row hrow) (hbefore row.1 (mem_map_of_mem hrow))
    exact ⟨other, And.intro hheld hin, hat⟩
  have hlength : others.length = run.length := by
    rw [← length_map (f := Prod.fst), hinstants, length_map]
  have hin : ∀ v ∈ value :: others.map (fun row ↦ row.2.1), lo ≤ v ∧ v ≤ hi := by
    rw [forall_mem_cons, forall_mem_map]
    exact ⟨⟨hlo, hhi⟩, fun other hother ↦ (hothers other hother).2⟩
  have hheld : ∀ other ∈ others, other ∈ heldRows history :=
    fun other hother ↦ (hothers other hother).1
  refine ⟨others, ?_, hheld, hinstants ▸ hdesc, ?_, ?_⟩
  · rw [suspectStreak, hwalk, hlength, Nat.add_comm]
  · refine pairwise_of_forall_mem_list fun a ha b hb ↦ ?_
    exact valuesAgree_between hagree (hin a ha).1 (hin a ha).2 (hin b hb).1 (hin b hb).2
  · simp only [suspectStreak, hwalk, hinstants]
    exact max_eq_left (minutes_nonneg (last_le hdesc))

theorem instants_of_run {counted : List (Instant × ℚ × Quality)}
    (hnewest : history.Pairwise (fun row older ↦ older.1 ≤ row.1))
    (hcounted : ∀ row ∈ counted, row ∈ levelRows value history)
    (hcovers : ∀ row ∈ levelRows value history, row.1 < at' → row.1 ∈ counted.map Prod.fst)
    (hdesc : (at' :: counted.map Prod.fst).Pairwise (· > ·))
    (hheld : ∀ row ∈ run, row ∈ heldRows history)
    (hrun : (at' :: run.map Prod.fst).Pairwise (· > ·))
    (hlength : run.length = counted.length)
    (hlast : (at' :: run.map Prod.fst).getLast (cons_ne_nil _ _) =
      (at' :: counted.map Prod.fst).getLast (cons_ne_nil _ _)) :
    counted.map Prod.fst ⊆ run.map Prod.fst := by
  have hsub : run.map Prod.fst ⊆ counted.map Prod.fst := by
    intro t ht
    obtain ⟨other, hother, rfl⟩ := mem_map.mp ht
    have hbefore := (pairwise_cons.mp hrun).1 other.1 ht
    have hsince := hlast ▸ last_le_of_mem hrun ht
    cases counted using List.reverseRecOn with
    | nil => exact absurd hbefore (not_lt.mpr hsince)
    | append_singleton counted oldest =>
      have holdest : (at' :: (counted ++ [oldest]).map Prod.fst).getLast
          (cons_ne_nil _ _) = oldest.1 := by
        simp [getLast_cons]
      rw [holdest] at hsince
      rcases hsince.lt_or_eq with hnewer | hsame
      · have hlevel := level_of_newer hnewest (hcounted oldest (by simp))
          (takeWhile_subset _ (hheld other hother)) hnewer
        exact hcovers other hlevel hbefore
      · simp [← hsame]
  have hnodup : (run.map Prod.fst).Nodup := (pairwise_cons.mp hrun).2.imp ne_of_gt
  have hperm : (run.map Prod.fst).Perm (counted.map Prod.fst) :=
    (subperm_of_subset hnodup hsub).perm_of_length_le (by simp [hlength])
  exact hperm.symm.subset

theorem band_of_oneLevel (hnewest : history.Pairwise (fun row older ↦ older.1 ≤ row.1))
    (h : OneLevel value at' history) : InOneBand value at' history := by
  obtain ⟨run, hlength, hheld, hrun, hagree, hspan⟩ := h
  obtain ⟨counted, hcounted, hdesc, hcovers, hwalk⟩ := walkBack_level value hnewest 1 at'
  simp only [suspectStreak, hwalk] at hlength hspan
  rw [max_eq_left (minutes_nonneg (last_le hdesc))] at hspan
  have hlast : (at' :: run.map Prod.fst).getLast (cons_ne_nil _ _) =
      (at' :: counted.map Prod.fst).getLast (cons_ne_nil _ _) := by
    rw [div_left_inj' (by norm_num), div_left_inj' (by norm_num), Int.cast_inj] at hspan
    exact sub_right_inj.mp hspan.symm
  obtain ⟨lo, hi, hband, hin⟩ := exists_band hagree
  rw [forall_mem_cons, forall_mem_map] at hin
  refine ⟨lo, hi, hband, hin.1.1, hin.1.2, fun row hrow hbefore ↦ ?_⟩
  have hinstants := instants_of_run hnewest hcounted hcovers hdesc hheld hrun (by omega) hlast
  obtain ⟨other, hother, hat⟩ := mem_map.mp (hinstants (hcovers row hrow hbefore))
  exact ⟨other, hheld other hother, hat, hin.2 other hother⟩

/-- The streak is one level exactly when what it walks over lies in one band. -/
theorem suspect_streak_one_level_iff (value : ℚ) (at' : Instant) (history : ProviderRows) :
    OneLevel value at' history.rows ↔ InOneBand value at' history.rows :=
  ⟨band_of_oneLevel history.newestFirst, oneLevel_of_band history.newestFirst⟩

def wobblingRows : ProviderRows where
  rows := [(-60000000, 195 / 2, .suspect), (-120000000, 205 / 2, .suspect)]
  newestFirst := by decide

/-- Three observations of one level, of which two differ by five percent. -/
theorem wobbling_rows_two_levels :
    (suspectStreak 100 0 wobblingRows.rows).length = 3 ∧
      ¬OneLevel 100 0 wobblingRows.rows := by
  refine ⟨by decide +kernel, fun h ↦ ?_⟩
  obtain ⟨lo, hi, hagree, -, -, hband⟩ := band_of_oneLevel wobblingRows.newestFirst h
  obtain ⟨low, hlow, hlowAt, hloLow, hlowHi⟩ := hband (-60000000, 195 / 2, .suspect)
    (by decide +kernel) (by decide)
  obtain ⟨high, hhigh, hhighAt, hloHigh, hhighHi⟩ := hband (-120000000, 205 / 2, .suspect)
    (by decide +kernel) (by decide)
  have hdiffer : ∀ low ∈ heldRows wobblingRows.rows, ∀ high ∈ heldRows wobblingRows.rows,
      low.1 = -60000000 → high.1 = -120000000 → valuesAgree low.2.1 high.2.1 = false := by
    decide +kernel
  have hsame := valuesAgree_between hagree hloLow hlowHi hloHigh hhighHi
  rw [hdiffer low hlow high hhigh hlowAt hhighAt] at hsame
  exact Bool.false_ne_true hsame

end Walk

end TalaPala.Prices
