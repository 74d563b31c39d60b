import TalaPala.Library.Grouping
import Mathlib.Algebra.Order.Ring.Int
import Mathlib.Data.Int.ModEq
import Mathlib.Data.List.TakeWhile

namespace TalaPala.Library

open List

structure Grid where
  origin : ℤ
  width : ℤ
  width_pos : 0 < width

namespace Grid

variable (g h : Grid)

def IsBoundary (b : ℤ) : Prop := g.width ∣ b - g.origin

def floor (t : ℤ) : ℤ := t - (t - g.origin) % g.width

variable {g h}

theorem floor_le (t : ℤ) : g.floor t ≤ t := by
  have := Int.emod_nonneg (t - g.origin) g.width_pos.ne'
  unfold floor
  omega

theorem lt_floor_add (t : ℤ) : t < g.floor t + g.width := by
  have := Int.emod_lt_of_pos (t - g.origin) g.width_pos
  unfold floor
  omega

theorem isBoundary_floor (t : ℤ) : g.IsBoundary (g.floor t) := by
  have h : g.floor t - g.origin = g.width * ((t - g.origin) / g.width) := by
    have := Int.emod_add_mul_ediv (t - g.origin) g.width
    unfold floor
    omega
  exact ⟨_, h⟩

theorem IsBoundary.add_width {b : ℤ} (hb : g.IsBoundary b) : g.IsBoundary (b + g.width) := by
  obtain ⟨k, hk⟩ := hb
  refine ⟨k + 1, ?_⟩
  rw [mul_add, ← hk]
  omega

theorem IsBoundary.add_width_le {a b : ℤ} (ha : g.IsBoundary a) (hb : g.IsBoundary b)
    (hab : a < b) : a + g.width ≤ b := by
  have hd : g.width ∣ b - a := by
    have := Int.dvd_sub hb ha
    rwa [sub_sub_sub_cancel_right] at this
  have := Int.le_of_dvd (by omega) hd
  omega

theorem floor_eq_iff {t b : ℤ} :
    g.floor t = b ↔ g.IsBoundary b ∧ b ≤ t ∧ t < b + g.width := by
  constructor
  · rintro rfl
    exact ⟨isBoundary_floor t, floor_le t, lt_floor_add t⟩
  · rintro ⟨hb, hle, hlt⟩
    have h₁ := floor_le (g := g) t
    have h₂ := lt_floor_add (g := g) t
    rcases lt_trichotomy (g.floor t) b with hl | he | hl
    · have := (isBoundary_floor t).add_width_le hb hl
      omega
    · exact he
    · have := hb.add_width_le (isBoundary_floor t) hl
      omega

theorem IsBoundary.floor_eq {b : ℤ} (hb : g.IsBoundary b) : g.floor b = b := by
  have := g.width_pos
  exact floor_eq_iff.mpr ⟨hb, le_rfl, by omega⟩

theorem floor_eq_self_iff {b : ℤ} : g.floor b = b ↔ g.IsBoundary b :=
  ⟨fun h ↦ h ▸ isBoundary_floor b, IsBoundary.floor_eq⟩

theorem IsBoundary.le_floor_iff {b t : ℤ} (hb : g.IsBoundary b) : b ≤ g.floor t ↔ b ≤ t := by
  constructor
  · intro hle
    exact hle.trans (floor_le t)
  · intro hle
    by_contra hlt
    have := (isBoundary_floor t).add_width_le hb (not_le.mp hlt)
    have := lt_floor_add (g := g) t
    omega

theorem IsBoundary.floor_lt_iff {b t : ℤ} (hb : g.IsBoundary b) : g.floor t < b ↔ t < b := by
  rw [← not_le, hb.le_floor_iff, not_le]

theorem floor_mono {s t : ℤ} (hst : s ≤ t) : g.floor s ≤ g.floor t :=
  (isBoundary_floor s).le_floor_iff.mpr ((floor_le s).trans hst)

def ceil (t : ℤ) : ℤ := if g.floor t = t then t else g.floor t + g.width

theorem isBoundary_ceil (t : ℤ) : g.IsBoundary (g.ceil t) := by
  unfold ceil
  split
  · rename_i h
    exact floor_eq_self_iff.mp h
  · exact (isBoundary_floor t).add_width

variable (g h)

def Refines : Prop := ∀ b, h.IsBoundary b → g.IsBoundary b

variable {g h}

theorem Refines.of_dvd (ho : g.origin = h.origin) (hw : g.width ∣ h.width) : g.Refines h := by
  intro b hb
  rw [IsBoundary, ho]
  exact hw.trans hb

theorem Refines.floor_floor (hr : g.Refines h) (t : ℤ) : h.floor (g.floor t) = h.floor t := by
  have hb := hr _ (isBoundary_floor (g := h) t)
  refine floor_eq_iff.mpr ⟨isBoundary_floor t, hb.le_floor_iff.mpr (floor_le t), ?_⟩
  exact (floor_le t).trans_lt (lt_floor_add t)

theorem Refines.end_le (hr : g.Refines h) (t : ℤ) :
    g.floor t + g.width ≤ h.floor t + h.width := by
  have hb := hr _ (isBoundary_floor (g := h) t).add_width
  refine (isBoundary_floor t).add_width_le hb ?_
  exact (floor_le t).trans_lt (lt_floor_add t)

end Grid

section Slice

variable {κ : Type*} [LinearOrder κ]

structure Slice (l whole : List κ) : Prop where
  ascending : l.Pairwise (· < ·)
  mem : ∀ x ∈ l, x ∈ whole
  convex : ∀ x ∈ whole, ∀ a ∈ l, ∀ b ∈ l, a ≤ x → x ≤ b → x ∈ l

theorem Slice.nil (whole : List κ) : Slice [] whole :=
  ⟨.nil, fun _ h ↦ absurd h not_mem_nil, fun _ _ _ h ↦ absurd h not_mem_nil⟩

theorem Slice.le_getLast {l whole : List κ} (h : Slice l whole) (hne : l ≠ []) :
    ∀ x ∈ l, x ≤ l.getLast hne := by
  intro x hx
  rw [← dropLast_concat_getLast hne] at hx
  rcases mem_append.mp hx with hx | hx
  · have hlast := h.ascending
    rw [← dropLast_concat_getLast hne] at hlast
    exact ((pairwise_append.mp hlast).2.2 x hx _ (mem_singleton_self _)).le
  · exact (mem_singleton.mp hx).le

theorem Slice.isInfix {l whole : List κ} (hw : whole.Pairwise (· < ·)) (h : Slice l whole) :
    l <:+: whole := by
  by_cases hne : l = []
  · exact hne ▸ nil_infix
  let last := l.getLast hne
  have hupto : ∀ x ∈ whole, x ≤ last → x ∈ whole.takeWhile (fun x ↦ x ≤ last) := by
    intro x hx hle
    rw [← takeWhile_append_dropWhile (p := fun x ↦ decide (x ≤ last)) (l := whole)] at hx
    refine (mem_append.mp hx).resolve_right (fun hdrop ↦ ?_)
    have hw' : AscendingBy id whole := hw
    have hfilter := hw'.dropWhile_eq_filter last
    simp only [id] at hfilter
    rw [hfilter] at hdrop
    exact absurd hle (not_le.mpr (of_decide_eq_true (mem_filter.mp hdrop).2))
  have hsub := takeWhile_sublist (l := whole) (p := fun x ↦ decide (x ≤ last))
  have hsuffix : l <:+ whole.takeWhile (fun x ↦ x ≤ last) := by
    have hl : AscendingBy id l := h.ascending
    have hup : AscendingBy id (whole.takeWhile (fun x ↦ x ≤ last)) := hw.sublist hsub
    refine hl.suffix hup (fun a ha ↦ hupto a (h.mem a ha) (h.le_getLast hne a ha)) ?_
    intro a ha b hb hab
    have hble : b ≤ last := by simpa using mem_takeWhile_imp hb
    exact h.convex b (hsub.subset hb) a ha last (getLast_mem hne) hab.le hble
  exact hsuffix.isInfix.trans (List.takeWhile_prefix _).isInfix

theorem Slice.grow {l whole whole' : List κ} (h : Slice l whole) (hp : whole <+: whole')
    (hw : whole'.Pairwise (· < ·)) : Slice l whole' := by
  obtain ⟨more, rfl⟩ := hp
  refine ⟨h.ascending, fun x hx ↦ mem_append_left more (h.mem x hx),
    fun x hx a ha b hb hax hxb ↦ ?_⟩
  rcases mem_append.mp hx with hx | hx
  · exact h.convex x hx a ha b hb hax hxb
  · exact absurd hxb (not_le.mpr ((pairwise_append.mp hw).2.2 b (h.mem b hb) x hx))

theorem Slice.prepend {l l' whole : List κ} {first : κ} (h : Slice (l ++ [first]) whole)
    (h' : Slice l' whole) (hfirst : l'.head? = some first) : Slice (l ++ l') whole := by
  have hmem : first ∈ l' := mem_of_head? hfirst
  have hmin : ∀ x ∈ l', first ≤ x := by
    obtain ⟨rest, rfl⟩ := head?_eq_some_iff.mp hfirst
    exact forall_mem_cons.mpr
      ⟨le_rfl, fun x hx ↦ (rel_of_pairwise_cons h'.ascending hx).le⟩
  have hbefore : ∀ a ∈ l, a < first := fun a ha ↦
    (pairwise_append.mp h.ascending).2.2 a ha first (mem_singleton_self _)
  have hup : ∀ {x : κ}, x ∈ l ++ l' → x ≤ first → x ∈ l ++ [first] := by
    intro x hx hle
    rcases mem_append.mp hx with hx | hx
    · exact mem_append_left _ hx
    · rw [le_antisymm hle (hmin x hx)]
      exact mem_append_right _ (mem_singleton_self _)
  refine ⟨pairwise_append.mpr ⟨(pairwise_append.mp h.ascending).1, h'.ascending,
    fun a ha b hb ↦ (hbefore a ha).trans_le (hmin b hb)⟩, fun x hx ↦ ?_,
    fun x hx a ha b hb hax hxb ↦ ?_⟩
  · rcases mem_append.mp hx with hx | hx
    · exact h.mem x (mem_append_left _ hx)
    · exact h'.mem x hx
  · rcases le_total x first with hle | hle
    · have hx' := h.convex x hx a (hup ha (hax.trans hle)) first
        (mem_append_right _ (mem_singleton_self _)) hax hle
      rcases mem_append.mp hx' with hx' | hx'
      · exact mem_append_left _ hx'
      · rw [mem_singleton.mp hx']
        exact mem_append_right _ hmem
    · have hb' : b ∈ l' := by
        refine (mem_append.mp hb).resolve_left (fun hbl ↦ ?_)
        exact absurd ((hle.trans hxb).trans_lt (hbefore b hbl)) (lt_irrefl _)
      exact mem_append_right _ (h'.convex x hx first hmem b hb' hle hxb)

theorem Slice.extend {l l' whole : List κ} {last : κ} (h : Slice l whole) (h' : Slice l' whole)
    (hlast : l.getLast? = some last)
    (hnear : ∀ x ∈ whole, last < x → (∃ b ∈ l', x ≤ b) → ∃ a ∈ l', a ≤ x) :
    Slice (l ++ l'.filter (fun x ↦ last < x)) whole := by
  have hmax : ∀ x ∈ l, x ≤ last := by
    obtain ⟨hne, rfl⟩ := mem_getLast?_eq_getLast hlast
    exact h.le_getLast hne
  have hmem : last ∈ l := mem_of_getLast? hlast
  have hlater : ∀ x ∈ l'.filter (fun x ↦ decide (last < x)), x ∈ l' ∧ last < x := fun x hx ↦
    ⟨(mem_filter.mp hx).1, of_decide_eq_true (mem_filter.mp hx).2⟩
  refine ⟨pairwise_append.mpr ⟨h.ascending, h'.ascending.filter _, fun a ha b hb ↦
    (hmax a ha).trans_lt (hlater b hb).2⟩, fun x hx ↦ ?_, fun x hx a ha b hb hax hxb ↦ ?_⟩
  · rcases mem_append.mp hx with hx | hx
    · exact h.mem x hx
    · exact h'.mem x (hlater x hx).1
  · rcases le_or_gt x last with hle | hlt
    · have ha' : a ∈ l := by
        refine (mem_append.mp ha).resolve_right (fun hal ↦ ?_)
        exact absurd (hax.trans hle) (not_le.mpr (hlater a hal).2)
      exact mem_append_left _ (h.convex x hx a ha' last hmem hax hle)
    · have hb' : b ∈ l' := by
        refine (hlater b ((mem_append.mp hb).resolve_left (fun hbl ↦ ?_))).1
        exact absurd (hxb.trans (hmax b hbl)) (not_le.mpr hlt)
      obtain ⟨a', ha', hax'⟩ := hnear x hx hlt ⟨b, hb', hxb⟩
      exact mem_append_right _ (mem_filter.mpr
        ⟨h'.convex x hx a' ha' b hb' hax' hxb, decide_eq_true hlt⟩)

end Slice

end TalaPala.Library
