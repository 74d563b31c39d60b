import TalaPala.Library.Trailing
import Mathlib.Algebra.BigOperators.Group.List.Basic
import Mathlib.Order.Bounds.Basic

namespace TalaPala.Library

open List

variable {α κ : Type*} [LinearOrder κ] (key : α → κ)

/-- The rows of a series up to `t`. -/
def upTo (l : List α) (t : κ) : List α := l.filter (fun a ↦ key a ≤ t)

/-- The last row of a series at or before `t`. -/
def asOf (l : List α) (t : κ) : Option α := (upTo key l t).getLast?

structure Cursor (α : Type*) where
  passed : Option α
  ahead : List α

def Cursor.start (l : List α) : Cursor α where
  passed := none
  ahead := l

/-- Past every row up to `t`. -/
def advance (t : κ) (passed : Option α) : List α → Cursor α
  | [] => ⟨passed, []⟩
  | a :: ahead => if key a ≤ t then advance t (some a) ahead else ⟨passed, a :: ahead⟩

/-- From the place `j`, past every row up to `t`. -/
def moveOn (t : κ) (l : List α) (j : ℕ) : ℕ :=
  j + ((l.drop (j + 1)).takeWhile (fun a ↦ key a ≤ t)).length

/-- The cursor stands in `l` past no row after `t`. -/
def Cursor.Within (c : Cursor α) (l : List α) (t : κ) : Prop :=
  ∃ front, l = front ++ c.ahead ∧ c.passed = front.getLast? ∧ ∀ a ∈ front, key a ≤ t

variable {key}

theorem mem_upTo {l : List α} {t : κ} {a : α} : a ∈ upTo key l t ↔ a ∈ l ∧ key a ≤ t := by
  rw [upTo, mem_filter, decide_eq_true_eq]

theorem upTo_upTo (l : List α) {t u : κ} (h : t ≤ u) :
    upTo key (upTo key l u) t = upTo key l t := by
  rw [upTo, upTo, upTo, filter_filter]
  apply filter_congr
  intro a _
  by_cases ha : key a ≤ t
  · simp [ha, ha.trans h]
  · simp [ha]

theorem asOf_upTo (l : List α) {t u : κ} (h : t ≤ u) :
    asOf key (upTo key l u) t = asOf key l t := by
  rw [asOf, upTo_upTo l h, asOf]

theorem asOf_eq_some {l : List α} (hl : AscendingBy key l) {t : κ} {p : α} :
    asOf key l t = some p ↔
      p ∈ l ∧ key p ≤ t ∧ ∀ q ∈ l, key q ≤ t → key q ≤ key p := by
  have hup : AscendingBy key (upTo key l t) := hl.filter _
  constructor
  · intro h
    obtain ⟨front, hfront⟩ := getLast?_eq_some_iff.mp h
    have hp : p ∈ upTo key l t := by rw [hfront]; simp
    obtain ⟨hpl, hpt⟩ := mem_upTo.mp hp
    refine ⟨hpl, hpt, fun q hq hqt ↦ ?_⟩
    have hqu : q ∈ upTo key l t := mem_upTo.mpr ⟨hq, hqt⟩
    rw [hfront] at hqu hup
    rcases mem_append.mp hqu with hqf | hqp
    · exact ((pairwise_append.mp hup).2.2 q hqf p mem_cons_self).le
    · rw [mem_singleton.mp hqp]
  · rintro ⟨hpl, hpt, hlatest⟩
    have hp : p ∈ upTo key l t := mem_upTo.mpr ⟨hpl, hpt⟩
    have hsome : asOf key l t ≠ none := by
      rw [asOf, Ne, getLast?_eq_none_iff]
      exact ne_nil_of_mem hp
    obtain ⟨last, hlast⟩ := Option.ne_none_iff_exists'.mp hsome
    obtain ⟨front, hfront⟩ := getLast?_eq_some_iff.mp hlast
    have hmem : last ∈ upTo key l t := by rw [hfront]; simp
    obtain ⟨hll, hlt⟩ := mem_upTo.mp hmem
    rw [hlast, Option.some.injEq]
    refine hl.eq_of_start hll hpl (le_antisymm (hlatest last hll hlt) ?_)
    rw [hfront] at hp hup
    rcases mem_append.mp hp with hpf | hpp
    · exact ((pairwise_append.mp hup).2.2 p hpf last mem_cons_self).le
    · rw [mem_singleton.mp hpp]

theorem AscendingBy.isLeast_find? {l : List α} (hl : AscendingBy key l) {pred : α → Bool} {a : α}
    (h : l.find? pred = some a) : IsLeast {t | ∃ b ∈ l, key b = t ∧ pred b = true} (key a) := by
  obtain ⟨ha, front, back, rfl, hfront⟩ := find?_eq_some_iff_append.mp h
  refine ⟨⟨a, mem_append_right _ mem_cons_self, rfl, ha⟩, ?_⟩
  rintro t ⟨b, hb, rfl, hpred⟩
  rcases mem_append.mp hb with hb | hb
  · exact absurd hpred (by simpa using hfront b hb)
  · rcases mem_cons.mp hb with rfl | hb
    · exact le_rfl
    · exact ((pairwise_cons.mp (pairwise_append.mp hl).2.1).1 b hb).le

theorem AscendingBy.lt_or_eq_last {l : List α} (hl : AscendingBy key l) {a last : α}
    (hlast : l.getLast? = some last) (ha : a ∈ l) : key a < key last ∨ a = last := by
  obtain ⟨front, rfl⟩ := getLast?_eq_some_iff.mp hlast
  rcases mem_append.mp ha with ha | ha
  · exact .inl ((pairwise_append.mp hl).2.2 a ha last (mem_singleton_self _))
  · exact .inr (mem_singleton.mp ha)

theorem AscendingBy.find?_key {l : List α} (hl : AscendingBy key l) {a : α} (ha : a ∈ l) :
    l.find? (fun b ↦ key b = key a) = some a := by
  cases h : l.find? (fun b ↦ key b = key a) with
  | none => exact absurd (decide_eq_true rfl) (find?_eq_none.mp h a ha)
  | some b =>
    have hkey : key b = key a := by simpa using find?_some h
    rw [hl.eq_of_start (mem_of_find?_eq_some h) ha hkey]

theorem AscendingBy.takeWhile_eq_upTo {l : List α} (hl : AscendingBy key l) (t : κ) :
    l.takeWhile (fun a ↦ key a ≤ t) = upTo key l t := by
  induction l with
  | nil => rfl
  | cons a rest ih =>
    obtain ⟨ha, hrest⟩ := pairwise_cons.mp hl
    by_cases hle : key a ≤ t
    · rw [takeWhile_cons_of_pos (by simpa using hle), ih hrest, upTo, upTo,
        filter_cons_of_pos (by simpa using hle)]
    · have hnone : upTo key (a :: rest) t = [] := by
        refine filter_eq_nil_iff.mpr (fun b hb hb' ↦ hle ?_)
        rcases mem_cons.mp hb with rfl | hb
        · exact of_decide_eq_true hb'
        · exact (ha b hb).le.trans (of_decide_eq_true hb')
      rw [takeWhile_cons_of_neg (by simpa using hle), hnone]

theorem getElem?_moveOn {l : List α} (hl : AscendingBy key l) {t : κ} {j : ℕ} {a : α}
    (ha : l[j]? = some a) (hat : key a ≤ t) : l[moveOn key t l j]? = asOf key l t := by
  obtain ⟨hj, rfl⟩ := List.getElem?_eq_some_iff.mp ha
  set passed := (l.drop (j + 1)).takeWhile (fun b ↦ key b ≤ t) with hpassed
  have hup : upTo key l t = l.take (j + 1) ++ passed := by
    have hfront : (l.take (j + 1)).filter (fun b ↦ key b ≤ t) = l.take (j + 1) := by
      refine filter_eq_self.mpr (fun b hb ↦ decide_eq_true ?_)
      rw [← hl.filter_upTo ha, mem_filter, decide_eq_true_eq] at hb
      exact hb.2.trans hat
    have hback : (l.drop (j + 1)).filter (fun b ↦ key b ≤ t) = passed :=
      (AscendingBy.takeWhile_eq_upTo (List.Pairwise.drop hl) t).symm
    calc upTo key l t
        = (l.take (j + 1) ++ l.drop (j + 1)).filter (fun b ↦ key b ≤ t) := by
          rw [take_append_drop, upTo]
      _ = l.take (j + 1) ++ passed := by rw [filter_append, hfront, hback]
  have hlen : (l.take (j + 1) ++ passed).length - 1 = j + passed.length := by
    rw [length_append, length_take_of_le hj]
    omega
  have hsplit : l = (l.take (j + 1) ++ passed) ++
      (l.drop (j + 1)).dropWhile (fun b ↦ key b ≤ t) := by
    rw [append_assoc, hpassed, takeWhile_append_dropWhile, take_append_drop]
  have hlt : j + passed.length < (l.take (j + 1) ++ passed).length := by
    rw [length_append, length_take_of_le hj]
    omega
  rw [asOf, hup, getLast?_eq_getElem?, hlen, moveOn, ← hpassed]
  conv_lhs => rw [hsplit]
  exact getElem?_append_left hlt

theorem le_moveOn (t : κ) (l : List α) (j : ℕ) : j ≤ moveOn key t l j := Nat.le_add_right _ _

theorem within_start (l : List α) (t : κ) : (Cursor.start l).Within key l t :=
  ⟨[], rfl, rfl, by simp⟩

theorem Cursor.Within.mono {c : Cursor α} {l : List α} {t u : κ} (h : c.Within key l t)
    (htu : t ≤ u) : c.Within key l u := by
  obtain ⟨front, hl, hpassed, hfront⟩ := h
  exact ⟨front, hl, hpassed, fun a ha ↦ (hfront a ha).trans htu⟩

theorem Cursor.Within.advance {c : Cursor α} {l : List α} {t : κ} (hl : AscendingBy key l)
    (h : c.Within key l t) :
    (advance key t c.passed c.ahead).passed = asOf key l t ∧
      (advance key t c.passed c.ahead).Within key l t := by
  obtain ⟨passed, ahead⟩ := c
  obtain ⟨front, hsplit, hpassed, hfront⟩ := h
  dsimp only at hsplit hpassed ⊢
  induction ahead generalizing front passed with
  | nil =>
    have hall : upTo key l t = front := by
      rw [hsplit, append_nil]
      exact filter_eq_self.mpr (fun a ha ↦ decide_eq_true (hfront a ha))
    exact ⟨by rw [asOf, hall, Library.advance, hpassed], front, hsplit, hpassed, hfront⟩
  | cons a ahead ih =>
    rw [Library.advance]
    split
    · rename_i hat
      refine ih (some a) (front ++ [a]) (by simp [hsplit]) (by simp) (fun b hb ↦ ?_)
      rcases mem_append.mp hb with hb | hb
      · exact hfront b hb
      · exact mem_singleton.mp hb ▸ hat
    · rename_i hat
      have hlater : (a :: ahead).filter (fun b ↦ key b ≤ t) = [] := by
        rw [hsplit] at hl
        have hahead := (pairwise_append.mp hl).2.1
        refine filter_eq_nil_iff.mpr (fun b hb ↦ ?_)
        rw [decide_eq_true_eq, not_le]
        rcases mem_cons.mp hb with rfl | hb
        · exact not_le.mp hat
        · exact (not_le.mp hat).trans ((pairwise_cons.mp hahead).1 b hb)
      have hall : upTo key l t = front := by
        rw [hsplit, upTo, filter_append, hlater, append_nil]
        exact filter_eq_self.mpr (fun b hb ↦ decide_eq_true (hfront b hb))
      exact ⟨by rw [asOf, hall, hpassed], front, hsplit, hpassed, hfront⟩

end TalaPala.Library

namespace TalaPala.Library.SuffixFactor

variable {α κ M : Type*} [LinearOrder κ] [CommMonoid M] (key : α → κ) (ratio : α → M)

def factorAfter (events : List α) (t : κ) : M :=
  ((events.filter (fun a ↦ t < key a)).map ratio).prod

def factorAt (events : List α) (t : κ) : M :=
  ((events.filter (fun a ↦ key a = t)).map ratio).prod

def chain : List α → List (α × M)
  | [] => []
  | a :: events => (a, ratio a * (events.map ratio).prod) :: chain events

/-- The factor of the first chained event after `t`, and one when none follows. -/
def firstFactor (chained : List (α × M)) (t : κ) : M :=
  ((chained.dropWhile (fun c ↦ key c.1 ≤ t)).head?.map Prod.snd).getD 1

variable {key ratio}

theorem factorAfter_eq_one {events : List α} {t : κ} (h : ∀ a ∈ events, key a ≤ t) :
    factorAfter key ratio events t = 1 := by
  have hf : events.filter (fun a ↦ t < key a) = [] := by
    simpa only [List.filter_eq_nil_iff, decide_eq_true_eq, not_lt] using h
  rw [factorAfter, hf, List.map_nil, List.prod_nil]

theorem factorAfter_eq_prod {events : List α} {t : κ} (h : ∀ a ∈ events, t < key a) :
    factorAfter key ratio events t = (events.map ratio).prod := by
  have hf : events.filter (fun a ↦ t < key a) = events := by
    simpa only [List.filter_eq_self, decide_eq_true_eq] using h
  rw [factorAfter, hf]

theorem factorAfter_step {events : List α} {s t : κ} (hst : s < t)
    (h : ∀ a ∈ events, s < key a → t ≤ key a) :
    factorAfter key ratio events s =
      factorAt key ratio events t * factorAfter key ratio events t := by
  induction events with
  | nil => simp [factorAfter, factorAt]
  | cons a events ih =>
    have ih := ih (fun b hb ↦ h b (List.mem_cons_of_mem a hb))
    have ha := h a List.mem_cons_self
    simp only [factorAfter, factorAt, List.filter_cons] at ih ⊢
    rcases lt_trichotomy (key a) t with hlt | heq | hgt
    · have hs : ¬ s < key a := fun hs ↦ absurd (ha hs) (not_le.mpr hlt)
      simpa [hs, hlt.ne, hlt.not_gt] using ih
    · subst heq
      simp [hst, ih, mul_assoc]
    · have hs : s < key a := hst.trans hgt
      simp [hs, hgt, hgt.ne', ih, mul_left_comm]

theorem factorAfter_closed {p : M → Prop} (hone : p 1)
    (hmul : ∀ a b, p a → p b → p (a * b)) {events : List α}
    (h : ∀ a ∈ events, p (ratio a)) (t : κ) : p (factorAfter key ratio events t) := by
  unfold factorAfter
  induction events with
  | nil => exact hone
  | cons a events ih =>
    have ih := ih (fun b hb ↦ h b (List.mem_cons_of_mem a hb))
    rw [List.filter_cons]
    split
    · simpa using hmul _ _ (h a List.mem_cons_self) ih
    · exact ih

theorem firstFactor_chain {events : List α} (hsorted : events.Pairwise (fun a b ↦ key a < key b))
    (t : κ) : firstFactor key (chain ratio events) t = factorAfter key ratio events t := by
  induction events with
  | nil => rfl
  | cons a events ih =>
    obtain ⟨ha, hrest⟩ := List.pairwise_cons.mp hsorted
    by_cases hle : key a ≤ t
    · have hf : factorAfter key ratio (a :: events) t = factorAfter key ratio events t := by
        simp [factorAfter, not_lt.mpr hle]
      rw [hf, ← ih hrest]
      simp [firstFactor, chain, hle]
    · have hlt : t < key a := not_le.mp hle
      have hall : ∀ b ∈ a :: events, t < key b := by
        intro b hb
        rcases List.mem_cons.mp hb with rfl | hb
        · exact hlt
        · exact hlt.trans (ha b hb)
      rw [factorAfter_eq_prod hall]
      simp [firstFactor, chain, hle]

theorem dropWhile_passed (key : α → κ) {s t : κ} (hst : s ≤ t) (l : List α) :
    (l.dropWhile (fun a ↦ key a ≤ s)).dropWhile (fun a ↦ key a ≤ t) =
      l.dropWhile (fun a ↦ key a ≤ t) := by
  induction l with
  | nil => rfl
  | cons a l ih =>
    by_cases ha : key a ≤ s
    · simpa [ha, ha.trans hst] using ih
    · simp [ha]

end TalaPala.Library.SuffixFactor
