import TalaPala.Relvalue.Conversion
import TalaPala.Library.Intervals
import TalaPala.Library.OrderStatistics
import Mathlib.Data.Int.SuccPred

namespace TalaPala.Relvalue

open Library List

structure PairedPoint where
  day : Date
  a : ℚ
  b : ℚ
  deriving DecidableEq

structure PairedSeries where
  points : List PairedPoint
  ascending : AscendingBy PairedPoint.day points
  positive : ∀ p ∈ points, 0 < p.a ∧ 0 < p.b

def PairedSeries.ends (full : PairedSeries) : Option (Date × Date) :=
  match full.points with
  | [] | [_] => none
  | first :: second :: rest =>
    some (first.day, ((second :: rest).getLast (cons_ne_nil _ _)).day)

def gapPct (aGrowth bGrowth : ℚ) : ℚ := ((1 + aGrowth) / (1 + bGrowth) - 1) * 100

def windowGap (base stop : PairedPoint) : Option ℚ :=
  if base.a ≤ 0 ∨ base.b ≤ 0 then none
  else some (gapPct (stop.a / base.a - 1) (stop.b / base.b - 1))

def minIndependentWindows : ℕ := 5

def windowLengthTolerancePct : ℤ := 10

def windowLengthTolerance (windowDays : ℤ) : ℤ :=
  let t := (windowDays * windowLengthTolerancePct).tdiv 100
  if 1 < t then t else 1

inductive PercentileNote
  | noWindow
  | withheld (windowDays historyDays : ℤ) (overlapping : ℕ) (tolerance : ℤ)
      (independent minimum rejected : ℕ)
  | described (overlapping : ℕ) (windowDays tolerance historyDays : ℤ)
      (rejected independent : ℕ)

structure PercentileBasis where
  windowDays : ℤ
  windowDaysTolerance : ℤ := 0
  overlappingWindows : ℕ := 0
  independentWindows : ℕ := 0
  minIndependentWindows : ℕ
  rejectedShortWindows : ℕ := 0
  historyDays : ℤ
  sufficient : Bool := false
  note : PercentileNote

structure Comparison (F : Type*) where
  start : Date
  stop : Date
  gap : F

structure WindowWalk (F : Type*) where
  windows : List (Comparison F)
  rejected : ℕ

section Distribution

variable {F : Type*} (float : ℚ → F)

/-- The windows that begin at the days from the `i`-th on, the last one having
ended at the `j`-th. -/
def walkWindows (full : PairedSeries) (windowDays : ℤ) (last : Date) :
    ℕ → ℕ → List PairedPoint → WindowWalk F
  | _, _, [] => ⟨[], 0⟩
  | i, j, base :: rest =>
    let horizon := base.day + windowDays
    if last < horizon then ⟨[], 0⟩
    else
      let reached := moveOn PairedPoint.day horizon full.points (max i j)
      let stop := full.points.getD reached base
      let walk := walkWindows full windowDays last (i + 1) reached rest
      if reached = i then walk
      else if stop.day - base.day < windowDays - windowLengthTolerance windowDays then
        { walk with rejected := walk.rejected + 1 }
      else
        match windowGap base stop with
        | none => walk
        | some gap => { walk with windows := ⟨base.day, stop.day, float gap⟩ :: walk.windows }

/- The numbers of the machine, each of which has a next one. -/
variable [LinearOrder F] [SuccOrder F]

def searchFloats (sorted : List F) (x : F) : ℕ := sorted.findIdx (fun g ↦ x ≤ g)

def gapDistribution (full : PairedSeries) (windowDays : ℤ) (current : F) :
    Option ℚ × PercentileBasis :=
  let historyDays := full.ends.elim 0 (fun (first, last) ↦ last - first)
  if windowDays < 1 then
    (none,
      { windowDays := windowDays
        minIndependentWindows := minIndependentWindows
        historyDays := historyDays
        note := .noWindow })
  else
    let tol := windowLengthTolerance windowDays
    let walk := full.ends.elim ⟨[], 0⟩ (fun (_, last) ↦
      walkWindows float full windowDays last 0 0 full.points)
    let independent := (keepApart Comparison.start Comparison.stop none walk.windows).length
    let gaps := walk.windows.map Comparison.gap
    let sufficient := decide (minIndependentWindows ≤ independent ∧ 0 < gaps.length)
    let basis : PercentileBasis :=
      { windowDays := windowDays
        windowDaysTolerance := tol
        overlappingWindows := walk.windows.length
        independentWindows := independent
        minIndependentWindows := minIndependentWindows
        rejectedShortWindows := walk.rejected
        historyDays := historyDays
        sufficient := sufficient
        note := .withheld windowDays historyDays walk.windows.length tol independent
          minIndependentWindows walk.rejected }
    if !sufficient then (none, basis)
    else
      let sorted := ordered gaps
      let atOrBelow := searchFloats sorted (Order.succ current)
      (some (atOrBelow / sorted.length * 100),
        { basis with
          note := .described walk.windows.length windowDays tol historyDays walk.rejected
            independent })

end Distribution

section Windows

variable (full : PairedSeries) (windowDays : ℤ)

structure IsWindow (base stop : PairedPoint) : Prop where
  base_mem : base ∈ full.points
  stop_mem : stop ∈ full.points
  later : base.day < stop.day
  inside : ∃ last ∈ full.points, base.day + windowDays ≤ last.day
  reached : stop.day ≤ base.day + windowDays
  latest : ∀ p ∈ full.points, p.day ≤ base.day + windowDays → p.day ≤ stop.day

def IsLong (w : PairedPoint × PairedPoint) : Prop :=
  windowDays - windowLengthTolerance windowDays ≤ w.2.day - w.1.day

instance : DecidablePred (IsLong windowDays) := fun _ ↦ inferInstanceAs (Decidable (_ ≤ _))

def countedWindows : Set (PairedPoint × PairedPoint) :=
  {w | IsWindow full windowDays w.1 w.2 ∧ IsLong windowDays w}

def rejectedWindows : Set (PairedPoint × PairedPoint) :=
  {w | IsWindow full windowDays w.1 w.2 ∧ ¬ IsLong windowDays w}

def windowAt (base : PairedPoint) : Option (PairedPoint × PairedPoint) :=
  if ∀ p ∈ full.points, p.day < base.day + windowDays then none
  else ((asOf PairedPoint.day full.points (base.day + windowDays)).filter
    (fun stop ↦ base.day < stop.day)).map (Prod.mk base)

def windowsOf : List (PairedPoint × PairedPoint) :=
  full.points.filterMap (windowAt full windowDays)

variable {full windowDays}

theorem windowAt_eq_some {base : PairedPoint} (hbase : base ∈ full.points)
    {w : PairedPoint × PairedPoint} :
    windowAt full windowDays base = some w ↔ w.1 = base ∧ IsWindow full windowDays w.1 w.2 := by
  obtain ⟨first, stop⟩ := w
  dsimp only
  constructor
  · intro h
    rw [windowAt] at h
    split at h
    · cases h
    · rename_i hinside
      obtain ⟨q, hq, heq⟩ := Option.map_eq_some_iff.mp h
      obtain ⟨rfl, rfl⟩ := Prod.mk.inj heq
      obtain ⟨hasof, hlater⟩ := Option.filter_eq_some_iff.mp hq
      obtain ⟨hmem, hreached, hlatest⟩ := (asOf_eq_some full.ascending).mp hasof
      push Not at hinside
      exact ⟨rfl, hbase, hmem, of_decide_eq_true hlater, hinside, hreached, hlatest⟩
  · rintro ⟨rfl, h⟩
    have hasof : asOf PairedPoint.day full.points (first.day + windowDays) = some stop :=
      (asOf_eq_some full.ascending).mpr ⟨h.stop_mem, h.reached, h.latest⟩
    have hinside : ¬ ∀ p ∈ full.points, p.day < first.day + windowDays := by
      push Not
      exact h.inside
    rw [windowAt, if_neg hinside, hasof, Option.filter_some, if_pos (decide_eq_true h.later),
      Option.map_some]

theorem mem_windowsOf {w : PairedPoint × PairedPoint} :
    w ∈ windowsOf full windowDays ↔ IsWindow full windowDays w.1 w.2 := by
  rw [windowsOf, mem_filterMap]
  constructor
  · rintro ⟨base, hbase, hw⟩
    exact ((windowAt_eq_some hbase).mp hw).2
  · exact fun h ↦ ⟨w.1, h.base_mem, (windowAt_eq_some h.base_mem).mpr ⟨rfl, h⟩⟩

theorem windowsOf_inOrder : (windowsOf full windowDays).Pairwise
    (fun v w ↦ v.1.day < w.1.day ∧ v.2.day ≤ w.2.day) := by
  rw [windowsOf, pairwise_filterMap]
  refine full.ascending.imp_of_mem (fun {a b} ha hb hab v hv w hw ↦ ?_)
  obtain ⟨rfl, hvw⟩ := (windowAt_eq_some ha).mp hv
  obtain ⟨rfl, hww⟩ := (windowAt_eq_some hb).mp hw
  have hreach : v.2.day ≤ w.1.day + windowDays := by
    have hle := hvw.reached
    linarith
  exact ⟨hab, hww.latest v.2 hvw.stop_mem hreach⟩

theorem windowsOf_nodup : (windowsOf full windowDays).Nodup :=
  windowsOf_inOrder.imp (fun h ↦ fun heq ↦ by subst heq; exact lt_irrefl _ h.1)

end Windows

section Distribution

variable {F : Type*} (float : ℚ → F)

def comparisonOf (w : PairedPoint × PairedPoint) : Comparison F where
  start := w.1.day
  stop := w.2.day
  gap := float (gapPct (w.2.a / w.1.a - 1) (w.2.b / w.1.b - 1))

variable {full : PairedSeries} {windowDays : ℤ}

theorem windowGap_of_mem {base : PairedPoint} (hbase : base ∈ full.points) (stop : PairedPoint) :
    windowGap base stop = some (gapPct (stop.a / base.a - 1) (stop.b / base.b - 1)) := by
  obtain ⟨ha, hb⟩ := full.positive base hbase
  rw [windowGap, if_neg (not_or.mpr ⟨not_le.mpr ha, not_le.mpr hb⟩)]

theorem moveOn_reaches {i j : ℕ} {base : PairedPoint} (hdays : 0 ≤ windowDays)
    (hbase : full.points[i]? = some base)
    (hj : ∃ q, full.points[j]? = some q ∧ q.day ≤ base.day + windowDays) :
    ∃ stop, asOf PairedPoint.day full.points (base.day + windowDays) = some stop ∧
      full.points[moveOn PairedPoint.day (base.day + windowDays) full.points (max i j)]? =
        some stop ∧
      (moveOn PairedPoint.day (base.day + windowDays) full.points (max i j) = i ↔
        ¬ base.day < stop.day) := by
  set reached := moveOn PairedPoint.day (base.day + windowDays) full.points (max i j)
    with hreached
  obtain ⟨q, hq, hqle⟩ :
      ∃ q, full.points[max i j]? = some q ∧ q.day ≤ base.day + windowDays := by
    rcases max_choice i j with h | h
    · exact ⟨base, by rw [h, hbase], by linarith⟩
    · rw [h]
      exact hj
  have hasof : full.points[reached]? = _ := getElem?_moveOn full.ascending hq hqle
  obtain ⟨stop, hstop⟩ :
      ∃ stop, asOf PairedPoint.day full.points (base.day + windowDays) = some stop := by
    have hmem : q ∈ upTo PairedPoint.day full.points (base.day + windowDays) :=
      mem_upTo.mpr ⟨mem_of_getElem? hq, hqle⟩
    exact ⟨_, getLast?_eq_some_getLast (ne_nil_of_mem hmem)⟩
  rw [hstop] at hasof
  refine ⟨stop, hstop, hasof, fun h ↦ ?_, fun h ↦ ?_⟩
  · rw [h, hbase] at hasof
    obtain rfl := Option.some.inj hasof
    exact lt_irrefl _
  · by_contra hne
    have hlt : i < reached :=
      lt_of_le_of_ne ((le_max_left i j).trans (le_moveOn _ _ _)) (Ne.symm hne)
    obtain ⟨hi, rfl⟩ := List.getElem?_eq_some_iff.mp hbase
    obtain ⟨hr, rfl⟩ := List.getElem?_eq_some_iff.mp hasof
    exact h (pairwise_iff_getElem.mp full.ascending i reached hi hr hlt)

theorem windowAt_of_asOf {base stop : PairedPoint}
    (hinside : ∃ p ∈ full.points, base.day + windowDays ≤ p.day)
    (hstop : asOf PairedPoint.day full.points (base.day + windowDays) = some stop) :
    windowAt full windowDays base = if base.day < stop.day then some (base, stop) else none := by
  have hnot : ¬ ∀ p ∈ full.points, p.day < base.day + windowDays := by
    push Not
    exact hinside
  rw [windowAt, if_neg hnot, hstop, Option.filter_some]
  split <;> simp_all

theorem walkWindows_eq {last : Date} (hdays : 0 ≤ windowDays)
    (hlast : ∀ d, last < d ↔ ∀ p ∈ full.points, p.day < d)
    {i j : ℕ} {rest : List PairedPoint} (hrest : rest = full.points.drop i)
    (hj : ∀ base ∈ rest, ∃ q, full.points[j]? = some q ∧ q.day ≤ base.day + windowDays) :
    walkWindows float full windowDays last i j rest =
      { windows := ((rest.filterMap (windowAt full windowDays)).filter
          (fun w ↦ IsLong windowDays w)).map (comparisonOf float)
        rejected := (rest.filterMap (windowAt full windowDays)).countP
          (fun w ↦ ¬ IsLong windowDays w) } := by
  induction rest generalizing i j with
  | nil => rfl
  | cons base rest ih =>
    have hbase : full.points[i]? = some base := by
      rw [← head?_drop, ← hrest, head?_cons]
    have htail : rest = full.points.drop (i + 1) := by
      rw [← tail_drop, ← hrest, tail_cons]
    have hasc : AscendingBy PairedPoint.day (base :: rest) := hrest ▸ full.ascending.drop
    have hlater := (pairwise_cons.mp hasc).1
    rw [walkWindows]
    by_cases hbreak : last < base.day + windowDays
    · have hnone : (base :: rest).filterMap (windowAt full windowDays) = [] := by
        refine filterMap_eq_nil_iff.mpr (fun b hb ↦ if_pos (fun p hp ↦ ?_))
        have hp := (hlast _).mp hbreak p hp
        rcases mem_cons.mp hb with rfl | hb
        · exact hp
        · have hlt := hlater b hb
          linarith
      rw [if_pos hbreak, hnone]
      rfl
    · have hinside : ∃ p ∈ full.points, base.day + windowDays ≤ p.day := by
        by_contra hno
        push Not at hno
        exact hbreak ((hlast _).mpr hno)
      obtain ⟨stop, hstop, hreached, hsame⟩ :=
        moveOn_reaches hdays hbase (hj base mem_cons_self)
      have hstople := ((asOf_eq_some full.ascending).mp hstop).2.1
      have hrec := ih htail (fun b hb ↦ ⟨stop, hreached, by have := hlater b hb; linarith⟩)
      have hmem : base ∈ full.points := mem_of_getElem? hbase
      rw [if_neg hbreak]
      dsimp only
      rw [getD_eq_getElem?_getD, hreached, Option.getD_some, hrec, windowGap_of_mem hmem,
        filterMap_cons, windowAt_of_asOf hinside hstop]
      by_cases hday : base.day < stop.day
      · rw [if_neg (fun h ↦ hsame.mp h hday), if_pos hday]
        by_cases hlong : IsLong windowDays (base, stop)
        · rw [if_neg (not_lt.mpr hlong)]
          dsimp only
          rw [filter_cons_of_pos (by simpa using hlong),
            countP_cons_of_neg (by simpa using hlong), map_cons]
          rfl
        · rw [if_pos (not_le.mp hlong)]
          dsimp only
          rw [filter_cons_of_neg (by simpa using hlong),
            countP_cons_of_pos (by simpa using hlong)]
      · rw [if_pos (hsame.mpr hday), if_neg hday]

theorem ends_eq_none (h : full.ends = none) : windowsOf full windowDays = [] := by
  refine eq_nil_iff_forall_not_mem.mpr (fun w hw ↦ ?_)
  obtain ⟨hbase, hstop, hlater⟩ := mem_windowsOf.mp hw
  rw [PairedSeries.ends] at h
  split at h
  · rename_i hnil
    rw [hnil] at hbase
    exact not_mem_nil hbase
  · rename_i p hone
    rw [hone] at hbase hstop
    rw [mem_singleton.mp hbase, mem_singleton.mp hstop] at hlater
    exact lt_irrefl _ hlater
  · cases h

theorem ends_eq_some {first last : Date} (h : full.ends = some (first, last)) (d : Date) :
    last < d ↔ ∀ p ∈ full.points, p.day < d := by
  rw [PairedSeries.ends] at h
  split at h
  · cases h
  · cases h
  · rename_i a b rest hpoints
    obtain ⟨-, rfl⟩ := Prod.mk.inj (Option.some.inj h)
    set final := (b :: rest).getLast (cons_ne_nil _ _)
    have hlast : full.points.getLast? = some final := by
      rw [hpoints, getLast?_eq_some_getLast (cons_ne_nil _ _)]
      rfl
    constructor
    · intro hd p hp
      rcases full.ascending.lt_or_eq_last hlast hp with hlt | rfl
      · exact hlt.trans hd
      · exact hd
    · exact fun hall ↦ hall final (mem_of_getLast? hlast)

variable (full windowDays) in
def countedOf : List (PairedPoint × PairedPoint) :=
  (windowsOf full windowDays).filter (fun w ↦ IsLong windowDays w)

theorem walkWindows_ends (hdays : 0 ≤ windowDays) :
    full.ends.elim ⟨[], 0⟩ (fun (_, last) ↦
        walkWindows float full windowDays last 0 0 full.points) =
      { windows := (countedOf full windowDays).map (comparisonOf float)
        rejected := (windowsOf full windowDays).countP (fun w ↦ ¬ IsLong windowDays w) } := by
  rw [countedOf]
  match hends : full.ends with
  | none => rw [ends_eq_none hends]; rfl
  | some (first, last) =>
    refine walkWindows_eq float hdays (ends_eq_some hends) drop_zero.symm
      (fun base hbase ↦ ?_)
    obtain ⟨k, hk, rfl⟩ := getElem_of_mem hbase
    refine ⟨full.points[0], getElem?_eq_getElem _, ?_⟩
    rcases Nat.eq_zero_or_pos k with rfl | hpos
    · linarith
    · have hlt := pairwise_iff_getElem.mp full.ascending 0 k (by omega) hk hpos
      linarith

theorem mem_countedOf {w : PairedPoint × PairedPoint} :
    w ∈ countedOf full windowDays ↔ w ∈ countedWindows full windowDays := by
  rw [countedOf, mem_filter, mem_windowsOf, decide_eq_true_eq]
  exact Iff.rfl

theorem countedOf_nodup : (countedOf full windowDays).Nodup := windowsOf_nodup.filter _

theorem countedOf_inOrder : InOrder (fun w : PairedPoint × PairedPoint ↦ w.1.day)
    (fun w ↦ w.2.day) (countedOf full windowDays) where
  proper _ hw := (mem_countedOf.mp hw).1.later
  starts := (windowsOf_inOrder.filter _).imp (fun h ↦ h.1.le)
  stops := (windowsOf_inOrder.filter _).imp (fun h ↦ h.2)

theorem ncard_eq_length {α : Type*} {l : List α} (h : l.Nodup) {s : Set α}
    (hs : ∀ a, a ∈ l ↔ a ∈ s) : s.ncard = l.length := by
  classical
  have hset : s = ↑l.toFinset := by
    ext a
    rw [coe_toFinset, ← hs]
    exact Iff.rfl
  rw [hset, Set.ncard_coe_finset, toFinset_card_of_nodup h]

variable [LinearOrder F] [SuccOrder F]

variable (full) in
theorem gapDistribution_figures (hdays : 1 ≤ windowDays) (current : F) :
    (gapDistribution float full windowDays current).2.overlappingWindows =
        (countedOf full windowDays).length ∧
      (gapDistribution float full windowDays current).2.rejectedShortWindows =
        (windowsOf full windowDays).countP (fun w ↦ ¬ IsLong windowDays w) ∧
      (gapDistribution float full windowDays current).2.independentWindows =
        (keepApart (fun w ↦ w.1.day) (fun w ↦ w.2.day) none
          (countedOf full windowDays)).length ∧
      ∀ pct, (gapDistribution float full windowDays current).1 = some pct →
        pct = ((countedOf full windowDays).countP (fun w ↦
            (comparisonOf float w).gap < Order.succ current) : ℕ) /
          (countedOf full windowDays).length * 100 := by
  have hkept : (keepApart Comparison.start Comparison.stop none
      ((countedOf full windowDays).map (comparisonOf float))).length =
        (keepApart (fun w ↦ w.1.day) (fun w ↦ w.2.day) none
          (countedOf full windowDays)).length := by
    rw [keepApart_map, length_map]
    rfl
  have hsearch : searchFloats (ordered (((countedOf full windowDays).map
        (comparisonOf float)).map Comparison.gap)) (Order.succ current) =
      (countedOf full windowDays).countP (fun w ↦
        (comparisonOf float w).gap < Order.succ current) := by
    rw [searchFloats, findIdx_ordered, map_map, countP_map]
    rfl
  have hlen : (ordered (((countedOf full windowDays).map (comparisonOf float)).map
      Comparison.gap)).length = (countedOf full windowDays).length := by
    rw [ordered, length_insertionSort, length_map, length_map]
  rw [gapDistribution, if_neg (not_lt.mpr hdays), walkWindows_ends float (by omega)]
  dsimp only
  rw [hkept, length_map, hsearch, hlen]
  split
  · exact ⟨length_map _, rfl, rfl, by rintro pct ⟨⟩⟩
  · exact ⟨length_map _, rfl, rfl, fun pct h ↦ (Option.some.inj h).symm⟩

/-- The walk counts the windows of the length asked for and rejects the others; the
independent ones are the most without overlap; the percentile is the share of gaps not
above the current one. -/
theorem gapDistribution_counts [NoMaxOrder F] (full : PairedSeries) {windowDays : ℤ}
    (hdays : 1 ≤ windowDays) (current : F) :
    (gapDistribution float full windowDays current).2.overlappingWindows =
        (countedWindows full windowDays).ncard ∧
      (gapDistribution float full windowDays current).2.rejectedShortWindows =
        (rejectedWindows full windowDays).ncard ∧
      IsGreatest {n | ∃ s : Finset (PairedPoint × PairedPoint),
          (s : Set (PairedPoint × PairedPoint)) ⊆ countedWindows full windowDays ∧
          (s : Set (PairedPoint × PairedPoint)).Pairwise
            (Apart (fun w ↦ w.1.day) (fun w ↦ w.2.day)) ∧ s.card = n}
        (gapDistribution float full windowDays current).2.independentWindows ∧
      ∀ pct, (gapDistribution float full windowDays current).1 = some pct →
        pct = 100 * ({w ∈ countedWindows full windowDays | ∃ gap,
            windowGap w.1 w.2 = some gap ∧ float gap ≤ current}.ncard /
          (countedWindows full windowDays).ncard : ℚ) := by
  obtain ⟨hover, hrejected, hindependent, hpct⟩ :=
    gapDistribution_figures float full hdays current
  have hcounted : (countedWindows full windowDays).ncard =
      (countedOf full windowDays).length :=
    ncard_eq_length countedOf_nodup (fun w ↦ mem_countedOf)
  refine ⟨by rw [hover, hcounted], ?_, ?_, fun pct h ↦ ?_⟩
  · have hlist : (rejectedWindows full windowDays).ncard =
        ((windowsOf full windowDays).filter (fun w ↦ ¬ IsLong windowDays w)).length := by
      refine ncard_eq_length (windowsOf_nodup.filter _) (fun w ↦ ?_)
      rw [mem_filter, mem_windowsOf, decide_eq_true_eq]
      exact Iff.rfl
    rw [hrejected, hlist, countP_eq_length_filter]
  · rw [hindependent]
    have hsub (s : Finset (PairedPoint × PairedPoint)) :
        s ⊆ (countedOf full windowDays).toFinset ↔
          (s : Set (PairedPoint × PairedPoint)) ⊆ countedWindows full windowDays :=
      forall₂_congr (fun w _ ↦ mem_toFinset.trans mem_countedOf)
    have hmost : IsGreatest _ (keepApart (fun w ↦ w.1.day) (fun w ↦ w.2.day) none
        (countedOf full windowDays)).length :=
      isGreatest_keepApart countedOf_inOrder countedOf_nodup
    simpa only [hsub] using hmost
  · have hlist : {w ∈ countedWindows full windowDays | ∃ gap,
        windowGap w.1 w.2 = some gap ∧ float gap ≤ current}.ncard =
          ((countedOf full windowDays).filter (fun w ↦
            (comparisonOf float w).gap < Order.succ current)).length := by
      refine ncard_eq_length (countedOf_nodup.filter _) (fun w ↦ ?_)
      rw [mem_filter, mem_countedOf, decide_eq_true_eq, Order.lt_succ_iff]
      refine and_congr_right (fun hw ↦ ?_)
      rw [windowGap_of_mem hw.1.base_mem]
      simp [comparisonOf]
    rw [hpct pct h, hlist, hcounted, countP_eq_length_filter]
    ring

def weekPoints : List PairedPoint :=
  [⟨0, 1, 1⟩, ⟨1, 2, 1⟩, ⟨2, 1, 1⟩, ⟨3, 1, 2⟩, ⟨4, 1, 1⟩, ⟨5, 2, 2⟩, ⟨6, 3, 2⟩]

theorem weekPoints_ascending : AscendingBy PairedPoint.day weekPoints := by
  unfold AscendingBy
  decide

theorem weekPoints_positive : ∀ p ∈ weekPoints, 0 < p.a ∧ 0 < p.b := by decide

def week : PairedSeries where
  points := weekPoints
  ascending := weekPoints_ascending
  positive := weekPoints_positive

def hundredths (x : ℚ) : ℤ := ⌊x * 100⌋

theorem gapDistribution_counts_week :
    (gapDistribution hundredths week 1 0).1 = some 50 ∧
      {w ∈ countedWindows week 1 | ∃ gap,
        windowGap w.1 w.2 = some gap ∧ hundredths gap ≤ 0}.ncard = 3 := by
  obtain ⟨hcount, -, -, hpct⟩ := gapDistribution_counts hundredths week (by decide : (1 : ℤ) ≤ 1) 0
  have hsix : (gapDistribution hundredths week 1 0).2.overlappingWindows = 6 := by decide +kernel
  have hhalf : (gapDistribution hundredths week 1 0).1 = some 50 := by decide +kernel
  refine ⟨hhalf, ?_⟩
  have hshare := hpct 50 hhalf
  rw [← hcount, hsix] at hshare
  have hthree : (({w ∈ countedWindows week 1 | ∃ gap,
      windowGap w.1 w.2 = some gap ∧ hundredths gap ≤ 0}.ncard : ℕ) : ℚ) = 3 := by
    push_cast at hshare
    linarith
  exact_mod_cast hthree

end Distribution

end TalaPala.Relvalue
