import TalaPala.Relvalue.Statistics
import Mathlib.Tactic.FieldSimp
import Mathlib.Tactic.Linarith

namespace TalaPala.Relvalue

open Library List

def CpiMonth.Inside (m : CpiMonth) (day : Date) : Prop := m.start ≤ day ∧ day ≤ m.stop

def CpiYear.Inside (y : CpiYear) (day : Date) : Prop :=
  yearStart y.year ≤ day ∧ day < (Civil.mk y.year 2 1).ordinal

/-- The growth that a result reports. One that reports none changes nothing. -/
def RealReturnResult.factor (r : RealReturnResult) : ℚ := r.pct.elim 1 (fun pct ↦ 1 + pct / 100)

def DailySeries.reclose (s : DailySeries) (close : DailyPoint → ℚ) : DailySeries where
  points := s.points.map (fun p ↦ ⟨p.day, close p⟩)
  ascending := pairwise_map.mpr s.ascending

section Anchors

variable {ι : Type*} (inside : ι → Date → Prop) (value : ι → ℚ)

structure FirstIn (s : DailySeries) (y : ι) (p : DailyPoint) : Prop where
  mem : p ∈ s.points
  within : inside y p.day
  first : ∀ q ∈ s.points, inside y q.day → p.day ≤ q.day

/-- The first observation in a period stands for it in a window that holds it. -/
structure IsAnchor (s : DailySeries) (start stop : Date) (y : ι) (p : DailyPoint) : Prop where
  first : FirstIn inside s y p
  start_le : start ≤ p.day
  le_stop : p.day ≤ stop

structure Measured (s : DailySeries) (periods : List ι) : Prop where
  close_pos : ∀ p ∈ s.points, 0 < p.close
  value_pos : ∀ y ∈ periods, 0 < value y
  apart : periods.Pairwise (fun y z ↦ ∀ d e, inside y d → inside z e → d < e)

structure AnchorsOf (s : DailySeries) (periods : List ι) (start stop : Date)
    (anchors : List (ι × DailyPoint)) : Prop where
  order : (anchors.map Prod.fst).Sublist periods
  mem : ∀ y p, (y, p) ∈ anchors ↔ y ∈ periods ∧ IsAnchor inside s start stop y p

structure DeflatesByAnchors
    (ret : DailySeries → List ι → Date → Date → RealReturnResult) : Prop where
  /-- It is that of the last anchor over the first, and there is none without two. -/
  measured : ∀ s periods start stop, Measured inside value s periods →
    ∃ anchors, AnchorsOf inside s periods start stop anchors ∧
      ((ret s periods start stop).pct = none ↔ anchors.length < 2) ∧
      ∀ pct, (ret s periods start stop).pct = some pct →
        ∃ a b, anchors.head? = some a ∧ anchors.getLast? = some b ∧
          1 + pct / 100 = (b.2.close / a.2.close) / (value b.1 / value a.1) ∧
          (ret s periods start stop).start = some a.2.day ∧
          (ret s periods start stop).stop = some b.2.day
  /-- A window that is cut at an anchor is measured in two parts. -/
  chain : ∀ s periods start stop, Measured inside value s periods →
    ∀ y ∈ periods, ∀ p, IsAnchor inside s start stop y p →
      (ret s periods start p.day).factor * (ret s periods p.day stop).factor =
        (ret s periods start stop).factor
  /-- It depends on nothing but the anchors. -/
  determined : ∀ s s' periods periods' start start' stop stop',
    Measured inside value s periods → Measured inside value s' periods' →
    (∀ y p, y ∈ periods ∧ IsAnchor inside s start stop y p ↔
      y ∈ periods' ∧ IsAnchor inside s' start' stop' y p) →
    (ret s periods start stop).pct = (ret s' periods' start' stop').pct
  /-- Other closes off the anchors, and other values of periods without one, leave it. -/
  unmoved : ∀ s periods start stop close revise, Measured inside value s periods →
    Measured inside value (s.reclose close) (periods.map revise) →
    (∀ y, inside (revise y) = inside y) →
    (∀ y ∈ periods, ∀ p, IsAnchor inside s start stop y p → revise y = y ∧ close p = p.close) →
    (ret (s.reclose close) (periods.map revise) start stop).pct = (ret s periods start stop).pct

end Anchors

section Generic

variable {ι : Type*} {inside : ι → Date → Prop} {value : ι → ℚ} {s : DailySeries}
  {periods : List ι} {start stop : Date} {anchors : List (ι × DailyPoint)}

def realGrowth (value : ι → ℚ) (a b : ι × DailyPoint) : ℚ :=
  (b.2.close / a.2.close) / (value b.1 / value a.1)

def realOver (value : ι → ℚ) : List (ι × DailyPoint) → Option (ℚ × Date × Date)
  | a :: second :: rest =>
    let b := (second :: rest).getLast (cons_ne_nil _ _)
    some (deflatedPct a.2 b.2 (value b.1 / value a.1), a.2.day, b.2.day)
  | _ => none

theorem realOver_eq_none : realOver value anchors = none ↔ anchors.length < 2 := by
  match anchors with
  | [] => exact ⟨fun _ ↦ Nat.zero_lt_two, fun _ ↦ rfl⟩
  | [a] => exact ⟨fun _ ↦ Nat.one_lt_two, fun _ ↦ rfl⟩
  | a :: second :: rest =>
    refine ⟨fun h ↦ (nomatch h), fun h ↦ ?_⟩
    rw [length_cons, length_cons] at h
    omega

theorem realOver_map {α : Type*} (f : α → ι × DailyPoint) (a second : α) (rest : List α) :
    realOver value ((a :: second :: rest).map f) =
      let b := f ((second :: rest).getLast (cons_ne_nil _ _))
      some (deflatedPct (f a).2 b.2 (value b.1 / value (f a).1), (f a).2.day, b.2.day) := by
  rw [map_cons, map_cons, realOver]
  dsimp only
  simp only [← map_cons, getLast_map]

def Positive (value : ι → ℚ) (anchors : List (ι × DailyPoint)) : Prop :=
  ∀ a ∈ anchors, 0 < a.2.close ∧ 0 < value a.1

theorem one_add_deflatedPct {a b : ι × DailyPoint} :
    1 + deflatedPct a.2 b.2 (value b.1 / value a.1) / 100 = realGrowth value a b := by
  rw [deflatedPct, realGrowth]
  ring

theorem realOver_eq_some {r : ℚ × Date × Date} (h : realOver value anchors = some r) :
    ∃ a b, anchors.head? = some a ∧ anchors.getLast? = some b ∧
      1 + r.1 / 100 = realGrowth value a b ∧ r.2 = (a.2.day, b.2.day) := by
  match anchors with
  | a :: second :: rest =>
    obtain rfl := Option.some.inj h
    refine ⟨a, _, rfl, ?_, one_add_deflatedPct, rfl⟩
    rw [getLast?_eq_some_getLast (cons_ne_nil _ _)]
    rfl

theorem factor_realOver (hpos : Positive value anchors) {a b : ι × DailyPoint}
    (ha : anchors.head? = some a) (hb : anchors.getLast? = some b) :
    (realOver value anchors).elim 1 (fun r ↦ 1 + r.1 / 100) = realGrowth value a b := by
  match anchors with
  | [c] =>
    obtain rfl : c = a := Option.some.inj ha
    obtain rfl : c = b := Option.some.inj hb
    obtain ⟨hclose, hvalue⟩ := hpos c (mem_singleton_self c)
    rw [realGrowth, div_self hclose.ne', div_self hvalue.ne', div_one]
    rfl
  | c :: second :: rest =>
    obtain rfl : c = a := Option.some.inj ha
    have hlast : (second :: rest).getLast (cons_ne_nil _ _) = b := by
      rw [getLast?_eq_some_getLast (cons_ne_nil _ _)] at hb
      exact Option.some.inj hb
    rw [realOver, hlast, Option.elim_some]
    exact one_add_deflatedPct

theorem realGrowth_mul {a b c : ι × DailyPoint} (hb : 0 < b.2.close ∧ 0 < value b.1) :
    realGrowth value a b * realGrowth value b c = realGrowth value a c := by
  obtain ⟨hclose, hvalue⟩ := hb
  rw [realGrowth, realGrowth, realGrowth]
  field_simp

theorem AnchorsOf.ascending (h : AnchorsOf inside s periods start stop anchors)
    (hm : Measured inside value s periods) :
    AscendingBy (fun a : ι × DailyPoint ↦ a.2.day) anchors := by
  have hpair := pairwise_map.mp (hm.apart.sublist h.order)
  refine hpair.imp_of_mem (fun {a b} ha hb hab ↦ ?_)
  exact hab _ _ ((h.mem a.1 a.2).mp ha).2.first.within ((h.mem b.1 b.2).mp hb).2.first.within

theorem AnchorsOf.positive (h : AnchorsOf inside s periods start stop anchors)
    (hm : Measured inside value s periods) : Positive value anchors := by
  intro a ha
  obtain ⟨hy, hp⟩ := (h.mem a.1 a.2).mp ha
  exact ⟨hm.close_pos _ hp.first.mem, hm.value_pos _ hy⟩

theorem AnchorsOf.ext {s' : DailySeries} {periods' : List ι} {start' stop' : Date}
    {anchors' : List (ι × DailyPoint)} (h : AnchorsOf inside s periods start stop anchors)
    (h' : AnchorsOf inside s' periods' start' stop' anchors')
    (hm : Measured inside value s periods) (hm' : Measured inside value s' periods')
    (hsame : ∀ y p, y ∈ periods ∧ IsAnchor inside s start stop y p ↔
      y ∈ periods' ∧ IsAnchor inside s' start' stop' y p) : anchors = anchors' := by
  refine (h.ascending hm).ext (h'.ascending hm') (fun a ↦ ?_)
  rw [h.mem a.1 a.2, h'.mem a.1 a.2]
  exact hsame a.1 a.2

theorem AnchorsOf.cut {front back before after : List (ι × DailyPoint)} {b : ι × DailyPoint}
    (h : AnchorsOf inside s periods start stop (front ++ b :: back))
    (hbefore : AnchorsOf inside s periods start b.2.day before)
    (hafter : AnchorsOf inside s periods b.2.day stop after)
    (hm : Measured inside value s periods) : before = front ++ [b] ∧ after = b :: back := by
  have hasc := h.ascending hm
  have hb := ((h.mem b.1 b.2).mp (mem_append_right _ mem_cons_self)).2
  obtain ⟨-, hback, hcross⟩ := pairwise_append.mp hasc
  have hlater := (pairwise_cons.mp hback).1
  have hearlier (a : ι × DailyPoint) (ha : a ∈ front) : a.2.day < b.2.day :=
    hcross a ha b mem_cons_self
  have hmem (a : ι × DailyPoint) : a ∈ front ++ b :: back ↔
      a.1 ∈ periods ∧ IsAnchor inside s start stop a.1 a.2 := h.mem a.1 a.2
  constructor
  · have hsub : (front ++ [b]).Sublist (front ++ b :: back) := by simp
    refine (hbefore.ascending hm).ext (hasc.sublist hsub) (fun a ↦ ?_)
    rw [hbefore.mem a.1 a.2]
    constructor
    · rintro ⟨hy, ha⟩
      have hin := (hmem a).mpr ⟨hy, ha.first, ha.start_le, ha.le_stop.trans hb.le_stop⟩
      rcases mem_append.mp hin with hin | hin
      · exact mem_append_left _ hin
      · rcases mem_cons.mp hin with rfl | hin
        · exact mem_append_right _ (mem_singleton_self _)
        · exact absurd ha.le_stop (not_le.mpr (hlater a hin))
    · intro ha
      obtain ⟨hy, hanchor⟩ := (hmem a).mp (hsub.subset ha)
      refine ⟨hy, hanchor.first, hanchor.start_le, ?_⟩
      rcases mem_append.mp ha with ha | ha
      · exact (hearlier a ha).le
      · rw [mem_singleton.mp ha]
  · have hsub : (b :: back).Sublist (front ++ b :: back) := sublist_append_right _ _
    refine (hafter.ascending hm).ext (hasc.sublist hsub) (fun a ↦ ?_)
    rw [hafter.mem a.1 a.2]
    constructor
    · rintro ⟨hy, ha⟩
      have hin := (hmem a).mpr ⟨hy, ha.first, hb.start_le.trans ha.start_le, ha.le_stop⟩
      rcases mem_append.mp hin with hin | hin
      · exact absurd ha.start_le (not_le.mpr (hearlier a hin))
      · exact hin
    · intro ha
      obtain ⟨hy, hanchor⟩ := (hmem a).mp (hsub.subset ha)
      refine ⟨hy, hanchor.first, ?_, hanchor.le_stop⟩
      rcases mem_cons.mp ha with rfl | ha
      · exact le_rfl
      · exact (hlater a ha).le

def anchorsBy (first : ι → Option DailyPoint) (start stop : Date) (periods : List ι) :
    List (ι × DailyPoint) :=
  periods.filterMap (fun y ↦
    ((first y).filter (fun p ↦ start ≤ p.day ∧ p.day ≤ stop)).map (Prod.mk y))

theorem anchorsBy_anchorsOf {first : ι → Option DailyPoint}
    (hfirst : ∀ y p, first y = some p ↔ FirstIn inside s y p) :
    AnchorsOf inside s periods start stop (anchorsBy first start stop periods) where
  order := by
    induction periods with
    | nil => exact List.Sublist.refl _
    | cons y rest ih =>
      rw [anchorsBy, filterMap_cons]
      cases (first y).filter (fun p ↦ start ≤ p.day ∧ p.day ≤ stop) with
      | none => exact ih.cons y
      | some p => exact ih.cons_cons y
  mem y p := by
    rw [anchorsBy, mem_filterMap]
    constructor
    · rintro ⟨z, hz, heq⟩
      obtain ⟨q, hq, hpair⟩ := Option.map_eq_some_iff.mp heq
      obtain ⟨rfl, rfl⟩ := Prod.mk.inj hpair
      obtain ⟨hfound, hin⟩ := Option.filter_eq_some_iff.mp hq
      obtain ⟨hstart, hstop⟩ := of_decide_eq_true hin
      exact ⟨hz, (hfirst z q).mp hfound, hstart, hstop⟩
    · rintro ⟨hy, hp⟩
      refine ⟨y, hy, ?_⟩
      rw [(hfirst y p).mpr hp.first, Option.filter_some,
        if_pos (decide_eq_true ⟨hp.start_le, hp.le_stop⟩), Option.map_some]

structure ReadsAnchors (inside : ι → Date → Prop) (value : ι → ℚ)
    (first : DailySeries → ι → Option DailyPoint)
    (ret : DailySeries → List ι → Date → Date → RealReturnResult) : Prop where
  first_iff : ∀ s y p, first s y = some p ↔ FirstIn inside s y p
  read : ∀ s periods start stop, Measured inside value s periods →
    let found := realOver value (anchorsBy (first s) start stop periods)
    (ret s periods start stop).pct = found.map Prod.fst ∧
      (ret s periods start stop).start = found.map (fun r ↦ r.2.1) ∧
      (ret s periods start stop).stop = found.map (fun r ↦ r.2.2)

variable {first : DailySeries → ι → Option DailyPoint}
  {ret : DailySeries → List ι → Date → Date → RealReturnResult}

theorem ReadsAnchors.anchorsOf (h : ReadsAnchors inside value first ret) :
    AnchorsOf inside s periods start stop (anchorsBy (first s) start stop periods) :=
  anchorsBy_anchorsOf (h.first_iff s)

theorem ReadsAnchors.factor_eq (h : ReadsAnchors inside value first ret)
    (hm : Measured inside value s periods) {a b : ι × DailyPoint}
    (ha : (anchorsBy (first s) start stop periods).head? = some a)
    (hb : (anchorsBy (first s) start stop periods).getLast? = some b) :
    (ret s periods start stop).factor = realGrowth value a b := by
  rw [← factor_realOver (h.anchorsOf.positive hm) ha hb, RealReturnResult.factor,
    (h.read s periods start stop hm).1]
  cases realOver value (anchorsBy (first s) start stop periods) <;> rfl

theorem ReadsAnchors.chain (h : ReadsAnchors inside value first ret)
    (hm : Measured inside value s periods) {y : ι} (hy : y ∈ periods) {p : DailyPoint}
    (hp : IsAnchor inside s start stop y p) :
    (ret s periods start p.day).factor * (ret s periods p.day stop).factor =
      (ret s periods start stop).factor := by
  have hwhole : AnchorsOf inside s periods start stop _ := h.anchorsOf
  have hleft : AnchorsOf inside s periods start p.day _ := h.anchorsOf
  have hright : AnchorsOf inside s periods p.day stop _ := h.anchorsOf
  obtain ⟨front, back, hsplit⟩ := append_of_mem ((hwhole.mem y p).mpr ⟨hy, hp⟩)
  have hcut := hwhole
  rw [hsplit] at hcut
  obtain ⟨hbefore, hafter⟩ := hcut.cut hleft hright hm
  obtain ⟨a, ha⟩ : ∃ a, (front ++ [(y, p)]).head? = some a :=
    Option.isSome_iff_exists.mp (by simp)
  obtain ⟨c, hc⟩ : ∃ c, ((y, p) :: back).getLast? = some c :=
    Option.isSome_iff_exists.mp (by simp)
  have hhead : (front ++ (y, p) :: back).head? = some a := by
    rw [← ha]
    cases front <;> rfl
  have hlast : (front ++ (y, p) :: back).getLast? = some c := by
    rw [getLast?_append, hc, Option.some_or]
  rw [h.factor_eq hm (by rw [hbefore, ha]) (by rw [hbefore, getLast?_concat]),
    h.factor_eq hm (by rw [hafter, head?_cons]) (by rw [hafter, hc]),
    h.factor_eq hm (by rw [hsplit, hhead]) (by rw [hsplit, hlast])]
  exact realGrowth_mul ⟨hm.close_pos p hp.first.mem, hm.value_pos y hy⟩

theorem anchor_reclose {close : DailyPoint → ℚ} {revise : ι → ι}
    (hspan : ∀ y, inside (revise y) = inside y)
    (hkeep : ∀ y ∈ periods, ∀ p, IsAnchor inside s start stop y p →
      revise y = y ∧ close p = p.close) (y : ι) (p : DailyPoint) :
    y ∈ periods.map revise ∧ IsAnchor inside (s.reclose close) start stop y p ↔
      y ∈ periods ∧ IsAnchor inside s start stop y p := by
  constructor
  · rintro ⟨hy, ⟨hmem, hin, hfirst⟩, hstart, hstop⟩
    obtain ⟨z, hz, rfl⟩ := mem_map.mp hy
    obtain ⟨q, hq, rfl⟩ := mem_map.mp hmem
    rw [hspan] at hin hfirst
    have hanchor : IsAnchor inside s start stop z q :=
      ⟨⟨hq, hin, fun r hr hir ↦ hfirst ⟨r.day, close r⟩ (mem_map.mpr ⟨r, hr, rfl⟩) hir⟩,
        hstart, hstop⟩
    obtain ⟨hrevise, hclose⟩ := hkeep z hz q hanchor
    rw [hrevise, hclose]
    exact ⟨hz, hanchor⟩
  · rintro ⟨hy, hp⟩
    obtain ⟨hrevise, hclose⟩ := hkeep y hy p hp
    refine ⟨mem_map.mpr ⟨y, hy, hrevise⟩, ⟨?_, hp.first.within, ?_⟩, hp.start_le, hp.le_stop⟩
    · refine mem_map.mpr ⟨p, hp.first.mem, ?_⟩
      rw [hclose]
    · intro q hq hiq
      obtain ⟨r, hr, rfl⟩ := mem_map.mp hq
      exact hp.first.first r hr hiq

theorem ReadsAnchors.deflates (h : ReadsAnchors inside value first ret) :
    DeflatesByAnchors inside value ret := by
  have hdetermined : ∀ s s' periods periods' start start' stop stop',
      Measured inside value s periods → Measured inside value s' periods' →
      (∀ y p, y ∈ periods ∧ IsAnchor inside s start stop y p ↔
        y ∈ periods' ∧ IsAnchor inside s' start' stop' y p) →
      (ret s periods start stop).pct = (ret s' periods' start' stop').pct := by
    intro s s' periods periods' start start' stop stop' hm hm' hsame
    rw [(h.read s periods start stop hm).1, (h.read s' periods' start' stop' hm').1,
      h.anchorsOf.ext h.anchorsOf hm hm' hsame]
  refine ⟨fun s periods start stop hm ↦ ?_,
    fun s periods start stop hm y hy p hp ↦ h.chain hm hy hp, hdetermined,
    fun s periods start stop close revise hm hm' hspan hkeep ↦ ?_⟩
  · obtain ⟨hpct, hstart, hstop⟩ := h.read s periods start stop hm
    refine ⟨_, h.anchorsOf, ?_, fun pct hsome ↦ ?_⟩
    · rw [hpct, Option.map_eq_none_iff, realOver_eq_none]
    · rw [hpct] at hsome
      obtain ⟨r, hr, rfl⟩ := Option.map_eq_some_iff.mp hsome
      obtain ⟨a, b, ha, hb, hgrowth, hdays⟩ := realOver_eq_some hr
      refine ⟨a, b, ha, hb, hgrowth, ?_, ?_⟩
      · rw [hstart, hr, Option.map_some, hdays]
      · rw [hstop, hr, Option.map_some, hdays]
  · exact hdetermined _ _ _ _ _ _ _ _ hm' hm (anchor_reclose hspan hkeep)

end Generic

section Periods

variable {s : DailySeries}

theorem find?_filter_iff {lo : Date} {upTo : Date → Bool}
    (hdown : ∀ d e, d ≤ e → upTo e = true → upTo d = true) {p : DailyPoint} :
    (s.points.find? (fun q ↦ lo ≤ q.day)).filter (fun q ↦ upTo q.day) = some p ↔
      p ∈ s.points ∧ (lo ≤ p.day ∧ upTo p.day = true) ∧
        ∀ q ∈ s.points, lo ≤ q.day ∧ upTo q.day = true → p.day ≤ q.day := by
  rw [Option.filter_eq_some_iff]
  constructor
  · rintro ⟨hfind, hup⟩
    have hlo : lo ≤ p.day := by simpa using find?_some hfind
    have hleast := s.ascending.isLeast_find? hfind
    exact ⟨mem_of_find?_eq_some hfind, ⟨hlo, hup⟩,
      fun q hq hin ↦ hleast.2 ⟨q, hq, rfl, decide_eq_true hin.1⟩⟩
  · rintro ⟨hp, ⟨hlo, hup⟩, hfirst⟩
    cases hfind : s.points.find? (fun q ↦ lo ≤ q.day) with
    | none => exact absurd (decide_eq_true hlo) (find?_eq_none.mp hfind p hp)
    | some q =>
      have hq := mem_of_find?_eq_some hfind
      have hqlo : lo ≤ q.day := by simpa using find?_some hfind
      have hqp : q.day ≤ p.day :=
        (s.ascending.isLeast_find? hfind).2 ⟨p, hp, rfl, decide_eq_true hlo⟩
      have hpq := hfirst q hq ⟨hqlo, hdown _ _ hqp hup⟩
      rw [s.ascending.eq_of_start hq hp (le_antisymm hqp hpq)]
      exact ⟨rfl, hup⟩

theorem januaryAnchor_iff (y : CpiYear) (p : DailyPoint) :
    januaryAnchor s y.year = some p ↔ FirstIn CpiYear.Inside s y p := by
  rw [januaryAnchor, find?_filter_iff (fun d e hde he ↦
    decide_eq_true (hde.trans_lt (of_decide_eq_true he)))]
  simp only [decide_eq_true_eq]
  constructor
  · rintro ⟨hmem, hin, hfirst⟩
    exact ⟨hmem, hin, hfirst⟩
  · rintro ⟨hmem, hin, hfirst⟩
    exact ⟨hmem, hin, hfirst⟩

def monthPoint (s : DailySeries) (m : CpiMonth) : Option DailyPoint :=
  (periodAnchor s m).map Prod.fst

theorem monthPoint_iff (m : CpiMonth) (p : DailyPoint) :
    monthPoint s m = some p ↔ FirstIn CpiMonth.Inside s m p := by
  have hpoint : monthPoint s m =
      (s.points.find? (fun q ↦ m.start ≤ q.day)).filter (fun q ↦ q.day ≤ m.stop) := by
    rw [monthPoint, periodAnchor, Option.map_map]
    exact Option.map_id'
  rw [hpoint, find?_filter_iff (fun d e hde he ↦
    decide_eq_true (hde.trans (of_decide_eq_true he)))]
  simp only [decide_eq_true_eq]
  constructor
  · rintro ⟨hmem, hin, hfirst⟩
    exact ⟨hmem, hin, hfirst⟩
  · rintro ⟨hmem, hin, hfirst⟩
    exact ⟨hmem, hin, hfirst⟩

theorem bind_refused {ι : Type*} {y : ι} {found : Option DailyPoint} {start stop : Date}
    {refused : DailyPoint → Prop} [DecidablePred refused] (hkept : ∀ p ∈ found, ¬ refused p) :
    found.bind (fun p ↦ if p.day < start ∨ stop < p.day ∨ refused p then none else some (y, p)) =
      (found.filter (fun p ↦ start ≤ p.day ∧ p.day ≤ stop)).map (Prod.mk y) := by
  cases found with
  | none => rfl
  | some p =>
    rw [Option.bind_some, Option.filter_some]
    by_cases hin : start ≤ p.day ∧ p.day ≤ stop
    · have hnot : ¬ (p.day < start ∨ stop < p.day ∨ refused p) := by
        rintro (hlt | hlt | href)
        · exact hlt.not_ge hin.1
        · exact hlt.not_ge hin.2
        · exact hkept p rfl href
      rw [if_neg hnot, if_pos (decide_eq_true hin), Option.map_some]
    · have hout : p.day < start ∨ stop < p.day ∨ refused p := by
        rcases not_and_or.mp hin with hlt | hlt
        · exact .inl (not_le.mp hlt)
        · exact .inr (.inl (not_le.mp hlt))
      rw [if_pos hout, if_neg (by simpa using hin), Option.map_none]

theorem realReturn_reads : ReadsAnchors CpiYear.Inside CpiYear.value
    (fun s y ↦ januaryAnchor s y.year) realReturn where
  first_iff s y p := januaryAnchor_iff y p
  read s cpi start stop hm := by
    have hanchors : cpi.filterMap (fun y ↦ (januaryAnchor s y.year).bind (fun p ↦
        if p.day < start ∨ stop < p.day ∨ p.close ≤ 0 ∨ y.value ≤ 0 then none
        else some (y, p))) = anchorsBy (fun y ↦ januaryAnchor s y.year) start stop cpi := by
      refine filterMap_congr (fun y hy ↦ bind_refused (fun p hp ↦ ?_))
      have hmem := ((januaryAnchor_iff y p).mp hp).mem
      exact not_or.mpr ⟨not_le.mpr (hm.close_pos p hmem), not_le.mpr (hm.value_pos y hy)⟩
    rw [realReturn, hanchors]
    cases hlast : cpi.getLast? with
    | none =>
      rw [getLast?_eq_none_iff] at hlast
      subst hlast
      exact ⟨rfl, rfl, rfl⟩
    | some coverage =>
      generalize anchorsBy (fun y ↦ januaryAnchor s y.year) start stop cpi = anchors
      match anchors with
      | [] | [_] | _ :: _ :: _ => exact ⟨rfl, rfl, rfl⟩

/-- The months whose anchor lies in the window, with the anchor and how far off it is. -/
def monthAnchors (s : DailySeries) (cpi : List CpiMonth) (start stop : Date) :
    List (CpiMonth × DailyPoint × ℤ) :=
  cpi.filterMap (fun m ↦ (periodAnchor s m).bind (fun (p, off) ↦
    if p.day < start ∨ stop < p.day ∨ p.close ≤ 0 then none else some (m, p, off)))

theorem realReturnMonthly_reads :
    ReadsAnchors CpiMonth.Inside CpiMonth.value monthPoint realReturnMonthly where
  first_iff s m p := monthPoint_iff m p
  read s cpi start stop hm := by
    set found := monthAnchors s cpi start stop with hfound
    have hanchors : found.map (fun a ↦ (a.1, a.2.1)) =
        anchorsBy (monthPoint s) start stop cpi := by
      rw [hfound, monthAnchors, map_filterMap]
      refine filterMap_congr (fun m _ ↦ ?_)
      rw [← bind_refused (fun p hp ↦ not_le.mpr (hm.close_pos p ((monthPoint_iff m p).mp hp).mem)),
        monthPoint]
      cases periodAnchor s m with
      | none => rfl
      | some a =>
        dsimp only [Option.bind_some, Option.map_some]
        split <;> rfl
    rw [← hanchors, realReturnMonthly, ← monthAnchors.eq_1, ← hfound]
    cases hlast : cpi.getLast? with
    | none =>
      rw [getLast?_eq_none_iff] at hlast
      subst hlast
      exact ⟨rfl, rfl, rfl⟩
    | some coverage =>
      clear_value found
      rcases found with _ | ⟨a, _ | ⟨second, rest⟩⟩
      · exact ⟨rfl, rfl, rfl⟩
      · exact ⟨rfl, rfl, rfl⟩
      · rw [realOver_map]
        exact ⟨rfl, rfl, rfl⟩

theorem january_before {y z : CpiYear} (h : y.year < z.year) {d e : Date} (hd : y.Inside d)
    (he : z.Inside e) : d < e := by
  have hmono : daysBeforeYear (y.year + 1) ≤ daysBeforeYear z.year := daysBeforeYear_mono h
  have hsucc := daysBeforeYear_succ y.year
  have hlength : 365 ≤ yearLength y.year := by
    rw [yearLength]
    split <;> decide
  have hfeb : (Civil.mk y.year 2 1).ordinal = daysBeforeYear y.year + 31 + 1 := rfl
  have hjan : yearStart z.year = daysBeforeYear z.year + 0 + 1 := rfl
  have hlt := hd.2
  have hle := he.1
  rw [hfeb] at hlt
  rw [hjan] at hle
  linarith

theorem Measured.of_years {cpi : List CpiYear} (hclose : ∀ p ∈ s.points, 0 < p.close)
    (hvalue : ∀ y ∈ cpi, 0 < y.value) (horder : cpi.Pairwise (fun y z ↦ y.year < z.year)) :
    Measured CpiYear.Inside CpiYear.value s cpi where
  close_pos := hclose
  value_pos := hvalue
  apart := horder.imp (fun h _ _ hd he ↦ january_before h hd he)

end Periods

/-- Both deflators measure from the first anchor to the last, chain at every anchor, and
use nothing but the anchors. -/
theorem realReturns_deflate :
    DeflatesByAnchors CpiMonth.Inside CpiMonth.value realReturnMonthly ∧
      DeflatesByAnchors CpiYear.Inside CpiYear.value realReturn :=
  ⟨realReturnMonthly_reads.deflates, realReturn_reads.deflates⟩

def januaryPoints : List DailyPoint :=
  [⟨yearStart 2001 + 3, 1⟩, ⟨yearStart 2001 + 100, 5⟩, ⟨yearStart 2002, 2⟩,
    ⟨yearStart 2003 + 30, 6⟩]

theorem januaryPoints_ascending : AscendingBy DailyPoint.day januaryPoints := by
  unfold AscendingBy
  decide

def januaries : DailySeries where
  points := januaryPoints
  ascending := januaryPoints_ascending

def threeYears : List CpiYear := [⟨2001, 100, 0⟩, ⟨2002, 100, 0⟩, ⟨2003, 200, 0⟩]

theorem measured_januaries : Measured CpiYear.Inside CpiYear.value januaries threeYears :=
  .of_years (by decide) (by decide) (by decide)

theorem realReturns_deflate_januaries :
    (realReturn januaries threeYears (yearStart 2001) (yearStart 2002)).factor *
      (realReturn januaries threeYears (yearStart 2002) (yearStart 2004)).factor = 3 := by
  have hanchor : IsAnchor CpiYear.Inside januaries (yearStart 2001) (yearStart 2004)
      ⟨2002, 100, 0⟩ ⟨yearStart 2002, 2⟩ :=
    ⟨(januaryAnchor_iff _ _).mp (by decide), by decide, by decide⟩
  have hchain := realReturns_deflate.2.chain januaries threeYears _ _ measured_januaries
    ⟨2002, 100, 0⟩ (by simp [threeYears]) ⟨yearStart 2002, 2⟩ hanchor
  rw [hchain]
  decide +kernel

end TalaPala.Relvalue
