import TalaPala.Library.Selection
import Mathlib.Algebra.BigOperators.Group.List.Basic

namespace TalaPala.Library

open List

section Posting

variable {α κ σ M : Type*} [AddCommMonoid M]

theorem foldl_post (read : σ → M) {post : σ → α → σ} {amount : α → M}
    (h : ∀ s a, read (post s a) = read s + amount a) (l : List α) (s : σ) :
    read (l.foldl post s) = read s + (l.map amount).sum := by
  induction l generalizing s with
  | nil => simp
  | cons a rest ih => rw [foldl_cons, ih, h, map_cons, sum_cons, add_assoc]

theorem sum_filter (p : α → Bool) (f : α → M) (l : List α) :
    ((l.filter p).map f).sum = (l.map (fun a ↦ if p a then f a else 0)).sum := by
  induction l with
  | nil => rfl
  | cons a rest ih => cases hp : p a <;> simp [hp, ih]

variable [DecidableEq κ]

theorem sum_single {ks : List κ} (hks : ks.Nodup) {k : κ} (hk : k ∈ ks) (x : M) :
    (ks.map (fun k' ↦ if k = k' then x else 0)).sum = x := by
  induction ks with
  | nil => cases hk
  | cons k' rest ih =>
    obtain ⟨hk', hrest⟩ := nodup_cons.mp hks
    rw [map_cons, sum_cons]
    by_cases he : k = k'
    · subst he
      have hzero : ∀ x' ∈ rest.map (fun k' ↦ if k = k' then x else 0), x' = 0 := by
        intro x' hx'
        obtain ⟨c, hc, rfl⟩ := mem_map.mp hx'
        exact if_neg (fun (h : k = c) ↦ hk' (h ▸ hc))
      rw [if_pos rfl, sum_eq_zero hzero, add_zero]
    · rw [if_neg he, zero_add, ih hrest ((mem_cons.mp hk).resolve_left he)]

theorem sum_accounts {ks : List κ} (hks : ks.Nodup) {key : α → κ} {l : List α}
    (hkey : ∀ a ∈ l, key a ∈ ks) (f : α → M) :
    (ks.map (fun k ↦ ((l.filter (fun a ↦ key a = k)).map f).sum)).sum = (l.map f).sum := by
  induction l with
  | nil =>
    refine sum_eq_zero (fun x hx ↦ ?_)
    obtain ⟨k, -, rfl⟩ := mem_map.mp hx
    rfl
  | cons a rest ih =>
    have hstep : ∀ k, (((a :: rest).filter (fun a ↦ key a = k)).map f).sum =
        (if key a = k then f a else 0) +
          ((rest.filter (fun a ↦ key a = k)).map f).sum := by
      intro k
      by_cases hk : key a = k <;> simp [hk]
    simp only [hstep]
    rw [sum_map_add, sum_single hks (hkey a mem_cons_self), map_cons,
      sum_cons, ih (fun b hb ↦ hkey b (mem_cons_of_mem a hb))]

theorem flatMap_accounts_perm {β : Type*} {key : α → κ} {f : α → Option β} {ks : List κ}
    (hks : ks.Nodup) {l : List α} (hkey : ∀ a ∈ l, (f a).isSome → key a ∈ ks) :
    (ks.flatMap (fun k ↦ (l.filter (fun a ↦ key a = k)).filterMap f)).Perm (l.filterMap f) := by
  induction ks generalizing l with
  | nil =>
    have hnone : l.filterMap f = [] := by
      refine filterMap_eq_nil_iff.mpr (fun a ha ↦ ?_)
      exact Option.not_isSome_iff_eq_none.mp (fun h ↦ not_mem_nil (hkey a ha h))
    rw [hnone, flatMap_nil]
  | cons k rest ih =>
    obtain ⟨hk, hrest⟩ := nodup_cons.mp hks
    let others := l.filter (fun a ↦ !decide (key a = k))
    have hothers : rest.flatMap (fun k' ↦ (l.filter (fun a ↦ key a = k')).filterMap f) =
        rest.flatMap (fun k' ↦ (others.filter (fun a ↦ key a = k')).filterMap f) := by
      refine flatMap_congr (fun k' hk' ↦ ?_)
      rw [filter_filter]
      refine congrArg (List.filterMap f) (filter_congr (fun a _ ↦ ?_))
      by_cases ha : key a = k'
      · have hne : key a ≠ k := fun h ↦ hk (h ▸ ha ▸ hk')
        simp [ha, show k' ≠ k from ha ▸ hne]
      · simp [ha]
    have hsub : ∀ a ∈ others, (f a).isSome → key a ∈ rest := by
      intro a ha hsome
      obtain ⟨hal, hne⟩ := mem_filter.mp ha
      exact (mem_cons.mp (hkey a hal hsome)).resolve_left (by simpa using hne)
    rw [flatMap_cons, hothers]
    refine ((ih hrest hsub).append_left _).trans ?_
    rw [← filterMap_append]
    exact (filter_append_perm _ l).filterMap f

end Posting

section Reading

variable {M N : Type*} [AddCommMonoid M] [AddCommMonoid N]

theorem read_sum (read : M → N) (hzero : read 0 = 0)
    (hadd : ∀ a b, read (a + b) = read a + read b) (l : List M) :
    read l.sum = (l.map read).sum := by
  induction l with
  | nil => exact hzero
  | cons a rest ih => rw [sum_cons, hadd, ih, map_cons, sum_cons]

end Reading

section Reordered

variable {α κ : Type*}

def lastOf (p : α → Bool) (l : List α) : Option α := (l.filter p).getLast?

theorem mem_of_lastOf {p : α → Bool} {l : List α} {a : α} (h : lastOf p l = some a) :
    a ∈ l ∧ p a :=
  mem_filter.mp (mem_of_getLast? h)

theorem lastOf_perm {p : α → Bool} {l l' : List α} (h : l.Perm l')
    (hone : ∀ a ∈ l, ∀ b ∈ l, p a → p b → a = b) : lastOf p l = lastOf p l' := by
  cases ha : lastOf p l with
  | none =>
    rw [lastOf, getLast?_eq_none_iff] at ha
    have hperm := h.filter p
    rw [ha] at hperm
    rw [lastOf, nil_perm.mp hperm, getLast?_nil]
  | some a =>
    obtain ⟨hal, hpa⟩ := mem_of_lastOf ha
    cases hb : lastOf p l' with
    | none =>
      rw [lastOf, getLast?_eq_none_iff, filter_eq_nil_iff] at hb
      exact absurd hpa (hb a (h.mem_iff.mp hal))
    | some b =>
      obtain ⟨hbl, hpb⟩ := mem_of_lastOf hb
      rw [hone a hal b (h.mem_iff.mpr hbl) hpa hpb]

variable [LinearOrder κ] {key : α → κ}

theorem keys_congr {l l' : List α} (h : ∀ a, a ∈ l ↔ a ∈ l') : keys key l = keys key l' := by
  have hasc {m : List α} : AscendingBy id (keys key m) := keys_ascending m
  refine hasc.ext hasc (fun k ↦ ?_)
  simp only [mem_keys, h]

theorem nodup_keys (l : List α) : (keys key l).Nodup :=
  (keys_ascending l).imp (fun h ↦ ne_of_lt h)

theorem ascending_congr {l l' : List α} (h : l.Perm l') (hnodup : (l.map key).Nodup) :
    ascending key l = ascending key l' := by
  have hnodup' := (h.map key).nodup_iff.mp hnodup
  refine (ascending_of_nodup hnodup).ext (ascending_of_nodup hnodup') (fun a ↦ ?_)
  rw [(ascending_perm l).mem_iff, (ascending_perm l').mem_iff, h.mem_iff]

def keepBetter (better : α → α → Bool) : Option α → α → Option α
  | none, a => some a
  | some b, a => some (if better a b then a else b)

theorem foldl_keepBetter {better : α → α → Bool} {r : α → α → Prop} [Std.Total r] [IsTrans α r]
    (hbetter : ∀ a b, better a b = true ↔ ¬ r b a) {l : List α} {held : Option α} {best : α}
    (h : l.foldl (keepBetter better) held = some best) :
    (best ∈ l ∨ held = some best) ∧ (∀ a ∈ l, r best a) ∧ ∀ a, held = some a → r best a := by
  induction l generalizing held with
  | nil =>
    rw [foldl_nil] at h
    subst h
    refine ⟨.inr rfl, fun a ha ↦ (not_mem_nil ha).elim, fun a ha ↦ ?_⟩
    rw [Option.some.inj ha]
    exact (Std.Total.total a a).elim id id
  | cons a rest ih =>
    obtain ⟨hmem, hall, hheld⟩ := ih h
    cases held with
    | none =>
      refine ⟨.inl ?_, ?_, fun b hb ↦ nomatch hb⟩
      · exact mem_cons.mpr (hmem.symm.imp (fun he ↦ (Option.some.inj he).symm) id)
      · exact forall_mem_cons.mpr ⟨hheld a rfl, hall⟩
    | some b =>
      cases hab : better a b with
      | true =>
        simp only [keepBetter, hab, if_true] at hmem hheld
        have hra : r best a := hheld a rfl
        have hrab : r a b := (Std.Total.total a b).resolve_right ((hbetter a b).mp hab)
        refine ⟨.inl ?_, forall_mem_cons.mpr ⟨hra, hall⟩, fun c hc ↦ ?_⟩
        · exact mem_cons.mpr (hmem.symm.imp (fun he ↦ (Option.some.inj he).symm) id)
        · exact Option.some.inj hc ▸ IsTrans.trans _ _ _ hra hrab
      | false =>
        have hrba : r b a := by
          by_contra hn
          rw [(hbetter a b).mpr hn] at hab
          cases hab
        simp only [keepBetter, hab] at hmem hheld
        have hrb : r best b := hheld b rfl
        refine ⟨hmem.imp (mem_cons_of_mem a) id,
          forall_mem_cons.mpr ⟨IsTrans.trans _ _ _ hrb hrba, hall⟩, fun c hc ↦ ?_⟩
        exact Option.some.inj hc ▸ hrb

theorem foldl_keepBetter_ne_none {better : α → α → Bool} {l : List α} {held : Option α}
    (h : l.foldl (keepBetter better) held = none) : l = [] ∧ held = none := by
  induction l generalizing held with
  | nil => exact ⟨rfl, h⟩
  | cons a rest ih =>
    obtain ⟨-, hheld⟩ := ih h
    cases held <;> cases hheld

theorem foldl_keepBetter_perm {better : α → α → Bool} {r : α → α → Prop} [Std.Total r]
    [IsTrans α r] (hbetter : ∀ a b, better a b = true ↔ ¬ r b a)
    (hanti : ∀ a b, r a b → r b a → a = b) {l l' : List α} (h : l.Perm l') :
    l.foldl (keepBetter better) none = l'.foldl (keepBetter better) none := by
  cases ha : l.foldl (keepBetter better) none with
  | none =>
    obtain ⟨rfl, -⟩ := foldl_keepBetter_ne_none ha
    rw [nil_perm.mp h, foldl_nil]
  | some a =>
    cases hb : l'.foldl (keepBetter better) none with
    | none =>
      obtain ⟨rfl, -⟩ := foldl_keepBetter_ne_none hb
      rw [perm_nil.mp h] at ha
      cases ha
    | some b =>
      obtain ⟨ham, hall, -⟩ := foldl_keepBetter hbetter ha
      obtain ⟨hbm, hall', -⟩ := foldl_keepBetter hbetter hb
      have ha' : a ∈ l := ham.resolve_right (fun h ↦ nomatch h)
      have hb' : b ∈ l' := hbm.resolve_right (fun h ↦ nomatch h)
      rw [hanti a b (hall b (h.mem_iff.mpr hb')) (hall' a (h.mem_iff.mp ha'))]

end Reordered

section Work

variable {σ τ ε α ρ : Type*}

def workThrough (work : σ → α → Except ε (σ × ρ)) : σ → List α → σ × List ρ × Option (α × ε)
  | s, [] => (s, [], none)
  | s, a :: as =>
    match work s a with
    | .error e => (s, [], some (a, e))
    | .ok (t, report) =>
      let rest := workThrough work t as
      (rest.1, report :: rest.2.1, rest.2.2)

variable {work : σ → α → Except ε (σ × ρ)} {s : σ} {a : α} {as : List α}

theorem workThrough_invariant {I : List α → σ → Prop} {all : List α}
    (hwork : ∀ done a rest s t report, all = done ++ a :: rest → I done s →
      work s a = .ok (t, report) → I (done ++ [a]) t)
    {done : List α} (hall : all = done ++ as) (hs : I done s) :
    ∃ new rest, as = new ++ rest ∧ new.length = (workThrough work s as).2.1.length ∧
      I (done ++ new) (workThrough work s as).1 := by
  induction as generalizing s done with
  | nil => exact ⟨[], [], rfl, rfl, (append_nil done).symm ▸ hs⟩
  | cons a as ih =>
    rw [workThrough]
    cases hstep : work s a with
    | error e => exact ⟨[], a :: as, rfl, rfl, (append_nil done).symm ▸ hs⟩
    | ok result =>
      obtain ⟨t, report⟩ := result
      have ht := hwork done a as s t report hall hs hstep
      obtain ⟨new, rest, has, hlength, hinv⟩ := ih (by rw [hall, append_assoc]; rfl) ht
      refine ⟨a :: new, rest, by rw [has]; rfl, by simpa using hlength, ?_⟩
      rwa [append_assoc, singleton_append] at hinv

theorem workThrough_reports {name : ρ → α}
    (hwork : ∀ s a t report, work s a = .ok (t, report) → name report = a) :
    (workThrough work s as).2.1.map name = as.take (workThrough work s as).2.1.length := by
  induction as generalizing s with
  | nil => rfl
  | cons a as ih =>
    rw [workThrough]
    cases hstep : work s a with
    | error e => rfl
    | ok result =>
      dsimp only
      rw [map_cons, length_cons, take_succ_cons, ih, hwork s a result.1 result.2 hstep]

theorem workThrough_simulates {work' : τ → α → Except ε (τ × ρ)} {R : σ → τ → Prop}
    (hwork : ∀ s t a, R s t →
      (∃ e, work s a = .error e ∧ work' t a = .error e) ∨
        ∃ s' t' report, work s a = .ok (s', report) ∧ work' t a = .ok (t', report) ∧ R s' t')
    {t : τ} (h : R s t) :
    (workThrough work s as).2 = (workThrough work' t as).2 ∧
      R (workThrough work s as).1 (workThrough work' t as).1 := by
  induction as generalizing s t with
  | nil => exact ⟨rfl, h⟩
  | cons a as ih =>
    rw [workThrough, workThrough]
    rcases hwork s t a h with ⟨e, hs, ht⟩ | ⟨s', t', report, hs, ht, h'⟩
    · rw [hs, ht]
      exact ⟨rfl, h⟩
    · rw [hs, ht]
      obtain ⟨hreports, hrelated⟩ := ih h'
      exact ⟨by dsimp only; rw [hreports], hrelated⟩

theorem workThrough_cut {work' : σ → α → Except ε (σ × ρ)} {done rest : List α}
    (hsame : ∀ b ∈ done, ∀ s, work' s b = work s b) (hfails : ∀ s, ∃ e, work' s a = .error e) :
    (workThrough work' s (done ++ a :: rest)).1 = (workThrough work s done).1 := by
  induction done generalizing s with
  | nil =>
    obtain ⟨e, he⟩ := hfails s
    rw [nil_append, workThrough, workThrough, he]
  | cons b done ih =>
    rw [cons_append, workThrough, workThrough, hsame b mem_cons_self]
    cases work s b with
    | error e => rfl
    | ok result => exact ih (fun c hc ↦ hsame c (mem_cons_of_mem _ hc))

end Work

section LastOf

variable {α β : Type*} {p : β → Bool} {f : α → List β} {l : List α} {a : α} {b : β}

theorem lastOf_append (l l' : List β) : lastOf p (l ++ l') = (lastOf p l').or (lastOf p l) := by
  rw [lastOf, filter_append, getLast?_append]
  rfl

theorem lastOf_eq_none {l : List β} : lastOf p l = none ↔ ∀ b ∈ l, p b = false := by
  rw [lastOf, getLast?_eq_none_iff, filter_eq_nil_iff]
  exact forall₂_congr (fun b _ ↦ by rw [Bool.not_eq_true])

theorem lastOf_flatMap (h : lastOf p (l.flatMap f) = some b) :
    ∃ front a back, l = front ++ a :: back ∧ lastOf p (f a) = some b ∧
      ∀ c ∈ back, lastOf p (f c) = none := by
  induction l using List.reverseRecOn with
  | nil => cases h
  | append_singleton l a ih =>
    rw [flatMap_append, flatMap_singleton, lastOf_append] at h
    cases ha : lastOf p (f a) with
    | some c =>
      rw [ha] at h
      exact ⟨l, a, [], rfl, ha.trans h, fun c hc ↦ absurd hc not_mem_nil⟩
    | none =>
      rw [ha, Option.none_or] at h
      obtain ⟨front, c, back, rfl, hc, hback⟩ := ih h
      refine ⟨front, c, back ++ [a], by rw [append_assoc]; rfl, hc, ?_⟩
      exact forall_mem_append.mpr ⟨hback, forall_mem_singleton.mpr ha⟩

end LastOf

section Segment

variable {α : Type*} [LinearOrder α] {l : List α} {a hi : α}

theorem mem_takeWhile_le (h : l.Pairwise (· < ·)) :
    a ∈ l.takeWhile (fun b ↦ decide (b ≤ hi)) ↔ a ∈ l ∧ a ≤ hi := by
  induction l with
  | nil => simp
  | cons b l ih =>
    obtain ⟨hb, hl⟩ := pairwise_cons.mp h
    rw [takeWhile_cons]
    by_cases hle : b ≤ hi
    · rw [if_pos (decide_eq_true hle), mem_cons, mem_cons, ih hl]
      constructor
      · rintro (rfl | ⟨ha, hle'⟩)
        · exact ⟨.inl rfl, hle⟩
        · exact ⟨.inr ha, hle'⟩
      · rintro ⟨rfl | ha, hle'⟩
        · exact .inl rfl
        · exact .inr ⟨ha, hle'⟩
    · rw [if_neg (by simpa using hle)]
      refine ⟨fun hmem ↦ absurd hmem not_mem_nil, ?_⟩
      rintro ⟨hmem, hle'⟩
      rcases mem_cons.mp hmem with rfl | hmem
      · exact absurd hle' hle
      · exact absurd ((hb a hmem).le.trans hle') hle

theorem lt_of_append {l l' : List α} {b : α} (h : (l ++ l').Pairwise (· < ·)) (ha : a ∈ l)
    (hb : b ∈ l') : a < b :=
  (pairwise_append.mp h).2.2 a ha b hb

end Segment

end TalaPala.Library
