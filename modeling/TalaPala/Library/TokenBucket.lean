import Mathlib.Algebra.Order.Field.Basic
import Mathlib.Data.List.AList
import Mathlib.Data.List.Count
import Mathlib.Tactic.Linarith

namespace TalaPala.Library.TokenBucket

open List

/-! A bucket that is filled along `supply`, the tokens handed out up to a time,
and holds `burst` of them at most. A bucket that is not there is full. -/

variable {τ K : Type*} [Field K] [LinearOrder K]

structure Bucket (τ K : Type*) where
  tokens : K
  lastFill : τ

variable (supply : τ → K) (burst : K)

def level (o : Option (Bucket τ K)) (t : τ) : K :=
  o.elim burst (fun b ↦ min burst (b.tokens + (supply t - supply b.lastFill)))

def spend (o : Option (Bucket τ K)) (t : τ) : Bool × Bucket τ K :=
  if 1 ≤ level supply burst o t then (true, ⟨level supply burst o t - 1, t⟩)
  else (false, ⟨level supply burst o t, t⟩)

def answers (o : Option (Bucket τ K)) : List τ → List (τ × Bool)
  | [] => []
  | t :: rest => (t, (spend supply burst o t).1) :: answers (some (spend supply burst o t).2) rest

section Answers

variable {supply burst} {o : Option (Bucket τ K)} {t : τ}

theorem level_le_burst : level supply burst o t ≤ burst := by
  cases o with
  | none => exact le_rfl
  | some b => exact min_le_left _ _

theorem spend_fst : (spend supply burst o t).1 = decide (1 ≤ level supply burst o t) := by
  rw [spend]
  by_cases h : 1 ≤ level supply burst o t
  · rw [if_pos h, decide_eq_true h]
  · rw [if_neg h, decide_eq_false h]

theorem map_fst_answers {times : List τ} :
    (answers supply burst o times).map Prod.fst = times := by
  induction times generalizing o with
  | nil => rfl
  | cons t rest ih => rw [answers, map_cons, ih]

end Answers

variable [LinearOrder τ]

structure Sound (now : τ) (o : Option (Bucket τ K)) : Prop where
  nonneg : ∀ b ∈ o, 0 ≤ b.tokens
  le_burst : ∀ b ∈ o, b.tokens ≤ burst
  lastFill_le : ∀ b ∈ o, b.lastFill ≤ now

/-- No call from `now` on can tell the two apart. -/
structure Alike (now : τ) (o o' : Option (Bucket τ K)) : Prop where
  left : Sound burst now o
  right : Sound burst now o'
  level_eq : ∀ t, now ≤ t → level supply burst o t = level supply burst o' t

variable {supply burst} {o o' : Option (Bucket τ K)} {now t : τ}

theorem sound_none : Sound burst now (none : Option (Bucket τ K)) :=
  ⟨fun _ h ↦ (Option.not_mem_none _ h).elim, fun _ h ↦ (Option.not_mem_none _ h).elim,
    fun _ h ↦ (Option.not_mem_none _ h).elim⟩

theorem sound_some {b : Bucket τ K} :
    Sound burst now (some b) ↔ 0 ≤ b.tokens ∧ b.tokens ≤ burst ∧ b.lastFill ≤ now := by
  constructor
  · intro h
    exact ⟨h.nonneg b rfl, h.le_burst b rfl, h.lastFill_le b rfl⟩
  · rintro ⟨hnonneg, hburst, hfill⟩
    refine ⟨?_, ?_, ?_⟩
    all_goals
      intro b' hb'
      obtain rfl := Option.mem_some_iff.mp hb'
      assumption

theorem Sound.mono (h : Sound burst now o) (ht : now ≤ t) : Sound burst t o :=
  ⟨h.nonneg, h.le_burst, fun b hb ↦ (h.lastFill_le b hb).trans ht⟩

namespace Alike

theorem refl (h : Sound burst now o) : Alike supply burst now o o := ⟨h, h, fun _ _ ↦ rfl⟩

theorem mono (h : Alike supply burst now o o') (ht : now ≤ t) : Alike supply burst t o o' :=
  ⟨h.left.mono ht, h.right.mono ht, fun u hu ↦ h.level_eq u (ht.trans hu)⟩

theorem symm (h : Alike supply burst now o o') : Alike supply burst now o' o :=
  ⟨h.right, h.left, fun t ht ↦ (h.level_eq t ht).symm⟩

theorem trans {o'' : Option (Bucket τ K)} (h : Alike supply burst now o o')
    (h' : Alike supply burst now o' o'') : Alike supply burst now o o'' :=
  ⟨h.left, h'.right, fun t ht ↦ (h.level_eq t ht).trans (h'.level_eq t ht)⟩

theorem spend_eq (h : Alike supply burst now o o') (ht : now ≤ t) :
    spend supply burst o t = spend supply burst o' t := by
  rw [spend, spend, h.level_eq t ht]

end Alike

theorem countP_answers_of_late {times : List τ} {stop : τ} (hlate : ∀ t ∈ times, stop < t) :
    (answers supply burst o times).countP (fun a ↦ a.2 && decide (a.1 ≤ stop)) = 0 := by
  rw [countP_eq_zero]
  intro a ha hcounted
  have hfst : (answers supply burst o times).map Prod.fst = times := map_fst_answers
  have hmem : a.1 ∈ times := hfst ▸ mem_map_of_mem ha
  rw [Bool.and_eq_true, decide_eq_true_eq] at hcounted
  exact absurd hcounted.2 (not_le.mpr (hlate _ hmem))

variable [IsStrictOrderedRing K]

theorem level_nonneg (hsupply : Monotone supply) (hburst : 0 ≤ burst) (h : Sound burst t o) :
    0 ≤ level supply burst o t := by
  cases o with
  | none => exact hburst
  | some b =>
    obtain ⟨hnonneg, -, hfill⟩ := sound_some.mp h
    have := hsupply hfill
    exact le_min hburst (by linarith)

theorem level_le_add (hsupply : Monotone supply) (h : now ≤ t) :
    level supply burst o t ≤ level supply burst o now + (supply t - supply now) := by
  have hgrow := hsupply h
  cases o with
  | none =>
    simp only [level, Option.elim]
    linarith
  | some b =>
    simp only [level, Option.elim]
    rw [← min_add_add_right]
    exact min_le_min (by linarith) (by linarith)

theorem level_eq_burst (hsupply : Monotone supply) {b : Bucket τ K} (hnonneg : 0 ≤ b.tokens)
    (hidle : burst ≤ supply now - supply b.lastFill) (h : now ≤ t) :
    level supply burst (some b) t = burst := by
  have := hsupply h
  exact min_eq_left (by linarith)

theorem level_filled (hsupply : Monotone supply) (h : Sound burst now o) (ht : now ≤ t) :
    level supply burst (some ⟨level supply burst o now, now⟩) t = level supply burst o t := by
  have hgrow := hsupply ht
  cases o with
  | none => exact min_eq_left (by simp only [level, Option.elim]; linarith)
  | some b =>
    simp only [level, Option.elim]
    rw [← min_add_add_right, ← min_assoc, min_eq_left (by linarith : burst ≤ burst + _)]
    rw [add_assoc, add_comm (supply now - _), sub_add_sub_cancel]

theorem sound_spend (hsupply : Monotone supply) (hburst : 0 ≤ burst) (h : Sound burst t o) :
    Sound burst t (some (spend supply burst o t).2) := by
  have hlevel := level_nonneg hsupply hburst h
  have hle : level supply burst o t ≤ burst := level_le_burst
  rw [sound_some, spend]
  split_ifs with hone
  · exact ⟨sub_nonneg.mpr hone, by linarith, le_rfl⟩
  · exact ⟨hlevel, hle, le_rfl⟩

theorem level_spend (hsupply : Monotone supply) (hburst : 0 ≤ burst) (h : Sound burst t o) :
    level supply burst (some (spend supply burst o t).2) t =
      level supply burst o t - if (spend supply burst o t).1 then 1 else 0 := by
  have hsound := sound_some.mp (sound_spend hsupply hburst h)
  rw [level, Option.elim]
  have hlast : (spend supply burst o t).2.lastFill = t := by
    rw [spend]
    split_ifs <;> rfl
  rw [hlast, sub_self, add_zero, min_eq_right hsound.2.1, spend]
  by_cases hone : 1 ≤ level supply burst o t
  · rw [if_pos hone, if_pos rfl]
  · rw [if_neg hone, if_neg Bool.false_ne_true, sub_zero]

namespace Alike

theorem of_idle (hsupply : Monotone supply) (h : Sound burst now o)
    (hidle : ∀ b ∈ o, burst ≤ supply now - supply b.lastFill) :
    Alike supply burst now o none := by
  refine ⟨h, sound_none, fun t ht ↦ ?_⟩
  cases o with
  | none => rfl
  | some b => exact level_eq_burst hsupply (h.nonneg b rfl) (hidle b rfl) ht

theorem of_refused (hsupply : Monotone supply) (hburst : 0 ≤ burst) (h : Sound burst now o)
    (hrefused : (spend supply burst o now).1 = false) :
    Alike supply burst now (some (spend supply burst o now).2) o := by
  refine ⟨sound_spend hsupply hburst h, h, fun t ht ↦ ?_⟩
  rw [spend_fst, decide_eq_false_iff_not] at hrefused
  rw [spend, if_neg hrefused]
  exact level_filled hsupply h ht

end Alike

omit [LinearOrder τ] in
theorem answers_spaced (hburst : 1 ≤ burst) {times : List τ}
    (hspaced : times.Pairwise (fun t u ↦ 1 ≤ supply u - supply t))
    (hfirst : ∀ t ∈ times.head?, 1 ≤ level supply burst o t) :
    ∀ a ∈ answers supply burst o times, a.2 = true := by
  induction times generalizing o with
  | nil => exact fun _ ha ↦ absurd ha not_mem_nil
  | cons t rest ih =>
    obtain ⟨hnext, hrest⟩ := pairwise_cons.mp hspaced
    have hone : 1 ≤ level supply burst o t := hfirst t rfl
    rw [answers, forall_mem_cons]
    refine ⟨spend_fst.trans (decide_eq_true hone), ih hrest (fun u hu ↦ ?_)⟩
    rw [spend, if_pos hone]
    exact le_min hburst (by linarith [hnext u (mem_of_mem_head? hu)])

section Windows

variable {times : List τ} {start stop : τ}

theorem countP_answers_le (hsupply : Monotone supply) (hburst : 0 ≤ burst)
    (h : Sound burst now o) (hnow : ∀ t ∈ times, now ≤ t) (hsorted : times.Pairwise (· ≤ ·))
    (hstop : now ≤ stop) :
    ((answers supply burst o times).countP (fun a ↦ a.2 && decide (a.1 ≤ stop)) : K) ≤
      level supply burst o now + (supply stop - supply now) := by
  have hlevel := level_nonneg hsupply hburst h
  have hhanded := hsupply hstop
  induction times generalizing o now with
  | nil =>
    rw [answers, countP_nil, Nat.cast_zero]
    linarith
  | cons t rest ih =>
    have ht := hnow t mem_cons_self
    obtain ⟨hfirst, hrest⟩ := pairwise_cons.mp hsorted
    by_cases hlate : t ≤ stop
    · have hsound := sound_spend hsupply hburst (h.mono ht)
      have hgrow : level supply burst o t ≤
          level supply burst o now + (supply t - supply now) := level_le_add hsupply ht
      have hone := ih hsound hfirst hrest hlate (level_nonneg hsupply hburst hsound)
        (hsupply hlate)
      rw [level_spend hsupply hburst (h.mono ht)] at hone
      rw [answers, countP_cons, Nat.cast_add]
      cases htaken : (spend supply burst o t).1 with
      | true =>
        rw [htaken, if_pos rfl] at hone
        simp only [hlate, decide_true, Bool.and_true, if_true, Nat.cast_one]
        linarith
      | false =>
        rw [htaken, if_neg Bool.false_ne_true] at hone
        simp only [Bool.false_and, Bool.false_eq_true, if_false, Nat.cast_zero]
        linarith
    · have hall : ∀ u ∈ t :: rest, stop < u := by
        intro u hu
        rcases mem_cons.mp hu with rfl | hu
        · exact not_le.mp hlate
        · exact (not_le.mp hlate).trans_le (hfirst u hu)
      rw [countP_answers_of_late hall, Nat.cast_zero]
      linarith

theorem countP_window_le (hsupply : Monotone supply) (hburst : 0 ≤ burst)
    (h : Sound burst now o) (hnow : ∀ t ∈ times, now ≤ t) (hsorted : times.Pairwise (· ≤ ·))
    (hwindow : start ≤ stop) :
    ((answers supply burst o times).countP
        (fun a ↦ a.2 && decide (start ≤ a.1 ∧ a.1 ≤ stop)) : K) ≤
      burst + (supply stop - supply start) := by
  have hhanded := hsupply hwindow
  induction times generalizing o now with
  | nil =>
    rw [answers, countP_nil, Nat.cast_zero]
    linarith
  | cons t rest ih =>
    have ht := hnow t mem_cons_self
    have hfrom : ∀ u ∈ t :: rest, t ≤ u := by
      intro u hu
      rcases mem_cons.mp hu with rfl | hu
      · exact le_rfl
      · exact (pairwise_cons.mp hsorted).1 u hu
    by_cases hbefore : t < start
    · have hnot : ¬ (start ≤ t ∧ t ≤ stop) := fun hin ↦ absurd hin.1 (not_le.mpr hbefore)
      rw [answers, countP_cons_of_neg (by simp [hnot])]
      exact ih (sound_spend hsupply hburst (h.mono ht))
        (fun u hu ↦ hfrom u (mem_cons_of_mem t hu)) (pairwise_cons.mp hsorted).2
    · have hless : (answers supply burst o (t :: rest)).countP
            (fun a ↦ a.2 && decide (start ≤ a.1 ∧ a.1 ≤ stop)) ≤
          (answers supply burst o (t :: rest)).countP (fun a ↦ a.2 && decide (a.1 ≤ stop)) := by
        refine countP_mono_left (fun a _ hcounted ↦ ?_)
        rw [Bool.and_eq_true, decide_eq_true_eq] at hcounted ⊢
        exact ⟨hcounted.1, hcounted.2.2⟩
      refine (Nat.cast_le.mpr hless).trans ?_
      by_cases hlate : t ≤ stop
      · have hcount := countP_answers_le hsupply hburst (h.mono ht) hfrom hsorted hlate
        have hfull : level supply burst o t ≤ burst := level_le_burst
        have hstart := hsupply (not_lt.mp hbefore)
        linarith
      · rw [countP_answers_of_late (fun u hu ↦ (not_le.mp hlate).trans_le (hfrom u hu)),
          Nat.cast_zero]
        linarith

end Windows

end TalaPala.Library.TokenBucket

namespace TalaPala.Library

/-! Tables whose entries expire, and the pruning of what has expired. -/

variable {κ ν : Type*} (expired : ν → ℕ → Bool)

def live (entry : Option ν) (now : ℕ) : Option ν := entry.filter (fun e ↦ !expired e now)

def prune (table : AList (fun _ : κ ↦ ν)) (now : ℕ) : AList (fun _ : κ ↦ ν) where
  entries := table.entries.filter (fun e ↦ !expired e.2 now)
  nodupKeys := table.nodupKeys.sublist List.filter_sublist

theorem unexpired_of_mem_prune {table : AList (fun _ : κ ↦ ν)} {now : ℕ} {e : Σ _ : κ, ν}
    (h : e ∈ (prune expired table now).entries) : expired e.2 now = false := by
  obtain ⟨-, hlive⟩ := List.mem_filter.mp h
  rwa [Bool.not_eq_true'] at hlive

theorem live_eq_some {entry : Option ν} {now : ℕ} {e : ν} :
    live expired entry now = some e ↔ entry = some e ∧ expired e now = false := by
  rw [live, Option.filter_eq_some_iff, Bool.not_eq_true']

theorem live_some_of_unexpired {e : ν} {now : ℕ} (h : expired e now = false) :
    live expired (some e) now = some e := (live_eq_some expired).mpr ⟨rfl, h⟩

theorem live_some_of_expired {e : ν} {now : ℕ} (h : expired e now = true) :
    live expired (some e) now = none := by
  simp [live, Option.filter_some, h]

theorem live_live (hmono : ∀ e now now', now ≤ now' → expired e now = true → expired e now' = true)
    (entry : Option ν) {now now' : ℕ} (h : now ≤ now') :
    live expired (live expired entry now) now' = live expired entry now' := by
  cases entry with
  | none => rfl
  | some e =>
    cases he : expired e now with
    | false => rw [live_some_of_unexpired expired he]
    | true =>
      rw [live_some_of_expired expired he, live_some_of_expired expired (hmono e now now' h he)]
      rfl

theorem live_eq_of_le (hmono : ∀ e now now', now ≤ now' → expired e now = true →
    expired e now' = true) {entry entry' : Option ν} {now now' : ℕ} (h : now ≤ now')
    (heq : live expired entry now = live expired entry' now) :
    live expired entry now' = live expired entry' now' := by
  rw [← live_live expired hmono entry h, heq, live_live expired hmono entry' h]

variable [DecidableEq κ]

theorem lookup_prune (table : AList (fun _ : κ ↦ ν)) (now : ℕ) (k : κ) :
    (prune expired table now).lookup k = live expired (table.lookup k) now := by
  ext e
  rw [live_eq_some]
  constructor
  · intro h
    obtain ⟨hmem, hlive⟩ := List.mem_filter.mp (AList.mem_lookup_iff.mp h)
    exact ⟨AList.mem_lookup_iff.mpr hmem, by rwa [Bool.not_eq_true'] at hlive⟩
  · rintro ⟨hmem, hlive⟩
    refine AList.mem_lookup_iff.mpr (List.mem_filter.mpr ⟨AList.mem_lookup_iff.mp hmem, ?_⟩)
    rwa [Bool.not_eq_true']

end TalaPala.Library
