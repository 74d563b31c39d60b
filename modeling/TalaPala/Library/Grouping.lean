import Mathlib.Data.List.Dedup
import Mathlib.Data.List.Infix
import Mathlib.Data.List.Sort

namespace TalaPala.Library

open List

section FirstBy

variable {α : Type*} (r : α → α → Prop) [DecidableRel r]

/-- The first row of an ordered list, `ORDER BY r LIMIT 1`. -/
def firstBy (l : List α) : Option α := (l.insertionSort r).head?

variable {r}

theorem firstBy_eq_none {l : List α} : firstBy r l = none ↔ l = [] := by
  rw [firstBy, head?_eq_none_iff, ← length_eq_zero_iff, length_insertionSort, length_eq_zero_iff]

theorem firstBy_spec [Std.Total r] [IsTrans α r] {l : List α} {a : α}
    (h : firstBy r l = some a) : a ∈ l ∧ ∀ b ∈ l, r a b := by
  obtain ⟨rest, hsort⟩ := head?_eq_some_iff.mp h
  have hsorted := pairwise_insertionSort r l
  rw [hsort, pairwise_cons] at hsorted
  have hmem (b : α) : b ∈ l ↔ b ∈ a :: rest := by rw [← hsort, mem_insertionSort]
  refine ⟨(hmem a).mpr mem_cons_self, fun b hb ↦ ?_⟩
  rcases mem_cons.mp ((hmem b).mp hb) with rfl | hb
  · exact (Std.Total.total b b).elim id id
  · exact hsorted.1 b hb

theorem firstBy_eq_some [Std.Total r] [IsTrans α r] {l : List α} {a : α} (ha : a ∈ l)
    (hfirst : ∀ b ∈ l, r a b) (hties : ∀ b ∈ l, r a b → r b a → b = a) :
    firstBy r l = some a := by
  cases h : firstBy r l with
  | none =>
    rw [firstBy_eq_none.mp h] at ha
    cases ha
  | some b =>
    obtain ⟨hb, hall⟩ := firstBy_spec h
    rw [hties b hb (hfirst b hb) (hall a ha)]

variable (r) in
def lastBy (l : List α) : Option α := (l.insertionSort r).getLast?

theorem lastBy_spec [Std.Total r] [IsTrans α r] {l : List α} {a : α}
    (h : lastBy r l = some a) : a ∈ l ∧ ∀ b ∈ l, r b a := by
  obtain ⟨front, hsort⟩ := getLast?_eq_some_iff.mp h
  have hsorted := pairwise_insertionSort r l
  rw [hsort, pairwise_append] at hsorted
  have hmem (b : α) : b ∈ l ↔ b ∈ front ++ [a] := by rw [← hsort, mem_insertionSort]
  refine ⟨(hmem a).mpr (by simp), fun b hb ↦ ?_⟩
  rcases mem_append.mp ((hmem b).mp hb) with hb | hb
  · exact hsorted.2.2 b hb a mem_cons_self
  · obtain rfl := mem_singleton.mp hb
    exact (Std.Total.total b b).elim id id

theorem exists_lastBy {l : List α} (h : l ≠ []) : ∃ a, lastBy r l = some a := by
  refine Option.ne_none_iff_exists'.mp (fun hn ↦ h ?_)
  rw [lastBy, getLast?_eq_none_iff, ← length_eq_zero_iff, length_insertionSort] at hn
  exact length_eq_zero_iff.mp hn

theorem exists_firstBy {l : List α} (h : l ≠ []) : ∃ a, firstBy r l = some a :=
  Option.ne_none_iff_exists'.mp (fun hn ↦ h (firstBy_eq_none.mp hn))

end FirstBy

section Ascending

variable {α κ : Type*} [LinearOrder κ] {start : α → κ}

abbrev AscendingBy (start : α → κ) (l : List α) : Prop :=
  l.Pairwise (fun a b ↦ start a < start b)

theorem AscendingBy.ext {l l' : List α} (h : AscendingBy start l) (h' : AscendingBy start l')
    (hmem : ∀ a, a ∈ l ↔ a ∈ l') : l = l' := by
  have : Std.Irrefl (fun a b ↦ start a < start b) := ⟨fun a ↦ lt_irrefl _⟩
  have : Std.Antisymm (fun a b ↦ start a < start b) := ⟨fun a b hab hba ↦ absurd hba hab.asymm⟩
  exact List.Pairwise.eq_of_mem_iff h h' hmem

theorem AscendingBy.suffix {l l' : List α} (h : AscendingBy start l) (h' : AscendingBy start l')
    (hmem : ∀ a ∈ l, a ∈ l') (hup : ∀ a ∈ l, ∀ b ∈ l', start a < start b → b ∈ l) :
    l <:+ l' := by
  induction l' with
  | nil =>
    rw [eq_nil_iff_forall_not_mem.mpr (fun a ha ↦ not_mem_nil (hmem a ha))]
  | cons b rest ih =>
    obtain ⟨hb, hrest⟩ := pairwise_cons.mp h'
    by_cases hbl : b ∈ l
    · have hall : ∀ a, a ∈ l ↔ a ∈ b :: rest := by
        refine fun a ↦ ⟨hmem a, fun ha ↦ ?_⟩
        rcases mem_cons.mp ha with rfl | ha
        · exact hbl
        · exact hup b hbl a (mem_cons_of_mem _ ha) (hb a ha)
      rw [h.ext h' hall]
    · refine (ih hrest (fun a ha ↦ ?_)
        (fun a ha c hc ↦ hup a ha c (mem_cons_of_mem _ hc))).trans (suffix_cons b rest)
      exact (mem_cons.mp (hmem a ha)).resolve_left (fun he ↦ hbl (he ▸ ha))

theorem AscendingBy.mem_of_suffix {l l' : List α} (h' : AscendingBy start l') (hs : l <:+ l')
    {a b : α} (ha : a ∈ l) (hb : b ∈ l') (hab : start a ≤ start b) : b ∈ l := by
  obtain ⟨front, rfl⟩ := hs
  rcases mem_append.mp hb with hb | hb
  · exact absurd ((pairwise_append.mp h').2.2 b hb a ha) (not_lt.mpr hab)
  · exact hb

theorem AscendingBy.eq_of_start {l : List α} (h : AscendingBy start l) {a b : α} (ha : a ∈ l)
    (hb : b ∈ l) (hs : start a = start b) : a = b := by
  have hnodup : (l.map start).Nodup := pairwise_map.mpr (h.imp ne_of_lt)
  exact inj_on_of_nodup_map hnodup ha hb hs

theorem AscendingBy.dropWhile_eq_filter {l : List α} (h : AscendingBy start l) (t : κ) :
    l.dropWhile (fun a ↦ start a ≤ t) = l.filter (fun a ↦ t < start a) := by
  induction l with
  | nil => rfl
  | cons a rest ih =>
    obtain ⟨ha, hrest⟩ := pairwise_cons.mp h
    by_cases hle : start a ≤ t
    · rw [dropWhile_cons_of_pos (by simpa using hle), ih hrest,
        filter_cons_of_neg (by simpa using hle)]
    · have hall : ∀ b ∈ a :: rest, t < start b := by
        intro b hb
        rcases mem_cons.mp hb with rfl | hb
        · exact not_le.mp hle
        · exact (not_le.mp hle).trans (ha b hb)
      rw [dropWhile_cons_of_neg (by simpa using hle)]
      exact (filter_eq_self.mpr (fun b hb ↦ decide_eq_true (hall b hb))).symm

theorem AscendingBy.firstBy_eq_head {l l' : List α} (h : AscendingBy start l) (hp : l'.Perm l) :
    firstBy (fun a b ↦ start a ≤ start b) l' = l.head? := by
  have : Std.Total (fun a b : α ↦ start a ≤ start b) := ⟨fun a b ↦ le_total _ _⟩
  have : IsTrans α (fun a b ↦ start a ≤ start b) := ⟨fun a b c ↦ le_trans⟩
  cases l with
  | nil => rw [hp.eq_nil]; rfl
  | cons a rest =>
    obtain ⟨ha, _⟩ := pairwise_cons.mp h
    have hfirst : ∀ b ∈ l', start a ≤ start b := by
      intro b hb
      rcases mem_cons.mp (hp.mem_iff.mp hb) with rfl | hb
      · exact le_rfl
      · exact (ha b hb).le
    refine firstBy_eq_some (hp.mem_iff.mpr mem_cons_self) hfirst (fun b hb hab hba ↦ ?_)
    exact h.eq_of_start (hp.mem_iff.mp hb) mem_cons_self (le_antisymm hba hab)

end Ascending

section Grouping

variable {α β κ : Type*} [LinearOrder κ] (key : α → κ)

def keys (l : List α) : List κ := (l.map key).dedup.insertionSort (· ≤ ·)

def group (l : List α) (k : κ) : List α := l.filter (fun a ↦ key a = k)

/-- `GROUP BY key ORDER BY key`, with one result a group. -/
def summarise (f : κ → List α → Option β) (l : List α) : List β :=
  (keys key l).filterMap (fun k ↦ f k (group key l k))

variable {key}

theorem mem_keys {l : List α} {k : κ} : k ∈ keys key l ↔ ∃ a ∈ l, key a = k := by
  rw [keys, mem_insertionSort, mem_dedup, mem_map]

theorem keys_ascending (l : List α) : (keys key l).Pairwise (· < ·) := by
  have hnodup : (keys key l).Nodup :=
    (perm_insertionSort _ _).nodup_iff.mpr (nodup_dedup _)
  exact ((pairwise_insertionSort (· ≤ ·) _).and hnodup).imp
    (fun h ↦ lt_of_le_of_ne h.1 h.2)

theorem mem_group {l : List α} {k : κ} {a : α} : a ∈ group key l k ↔ a ∈ l ∧ key a = k := by
  rw [group, mem_filter, decide_eq_true_eq]

theorem mem_summarise {f : κ → List α → Option β} {l : List α} {b : β} :
    b ∈ summarise key f l ↔ ∃ k, (∃ a ∈ l, key a = k) ∧ f k (group key l k) = some b := by
  simp only [summarise, mem_filterMap, mem_keys]

theorem summarise_ascending {f : κ → List α → Option β} {start : β → κ}
    (hstart : ∀ k g b, f k g = some b → start b = k) (l : List α) :
    AscendingBy start (summarise key f l) := by
  refine (keys_ascending l).filterMap _ ?_
  intro k k' hk b hb b' hb'
  rw [hstart _ _ _ hb, hstart _ _ _ hb']
  exact hk

theorem summarise_starts {f : κ → List α → Option β} {start : β → κ}
    (hstart : ∀ k g b, f k g = some b → start b = k)
    (hsome : ∀ k g, g ≠ [] → ∃ b, f k g = some b) (l : List α) :
    (summarise key f l).map start = keys key l := by
  have hasc : AscendingBy id ((summarise key f l).map start) :=
    pairwise_map.mpr (summarise_ascending hstart l)
  refine hasc.ext (keys_ascending l) (fun k ↦ ?_)
  rw [mem_map, mem_keys]
  constructor
  · rintro ⟨b, hb, rfl⟩
    obtain ⟨k, hk, hf⟩ := mem_summarise.mp hb
    rw [hstart _ _ _ hf]
    exact hk
  · rintro ⟨a, ha, rfl⟩
    have hne : group key l (key a) ≠ [] := ne_nil_of_mem (mem_group.mpr ⟨ha, rfl⟩)
    obtain ⟨b, hb⟩ := hsome (key a) _ hne
    exact ⟨b, mem_summarise.mpr ⟨_, ⟨a, ha, rfl⟩, hb⟩, hstart _ _ _ hb⟩

theorem length_summarise_le (f : κ → List α → Option β) (l : List α) :
    (summarise key f l).length ≤ l.length := by
  have hkeys : (keys key l).length ≤ l.length := by
    rw [keys, length_insertionSort, ← l.length_map key]
    exact (dedup_sublist _).length_le
  exact (length_filterMap_le _ _).trans hkeys

theorem summarise_filter {f : κ → List α → Option β} {start : β → κ}
    (hstart : ∀ k g b, f k g = some b → start b = k) (p : κ → Bool) (l : List α) :
    summarise key f (l.filter (fun a ↦ p (key a))) =
      (summarise key f l).filter (fun b ↦ p (start b)) := by
  refine (summarise_ascending hstart _).ext ((summarise_ascending hstart l).filter _) (fun b ↦ ?_)
  have hgroup {k : κ} (hk : p k = true) :
      group key (l.filter (fun a ↦ p (key a))) k = group key l k := by
    rw [group, filter_filter]
    apply filter_congr
    intro a _
    by_cases ha : key a = k
    · simp [ha, hk]
    · simp [ha]
  rw [mem_filter, mem_summarise, mem_summarise]
  constructor
  · rintro ⟨k, ⟨a, ha, rfl⟩, hf⟩
    obtain ⟨hal, hp⟩ := mem_filter.mp ha
    rw [hgroup hp] at hf
    exact ⟨⟨key a, ⟨a, hal, rfl⟩, hf⟩, by rw [hstart _ _ _ hf, hp]⟩
  · rintro ⟨⟨k, ⟨a, hal, rfl⟩, hf⟩, hp⟩
    rw [hstart _ _ _ hf] at hp
    refine ⟨key a, ⟨a, mem_filter.mpr ⟨hal, hp⟩, rfl⟩, ?_⟩
    rw [hgroup hp]
    exact hf

end Grouping

section Newest

variable {α : Type*}

/-- The last `limit` rows in the order they stand, `ORDER BY .. DESC LIMIT`
turned back. -/
def newest (limit : ℕ) (l : List α) : List α := (l.reverse.take limit).reverse

theorem newest_eq_drop (limit : ℕ) (l : List α) : newest limit l = l.drop (l.length - limit) := by
  rw [newest, take_reverse, reverse_reverse]

theorem newest_suffix (limit : ℕ) (l : List α) : newest limit l <:+ l := by
  rw [newest_eq_drop]
  exact drop_suffix _ _

theorem newest_of_length_le {limit : ℕ} {l : List α} (h : l.length ≤ limit) :
    newest limit l = l := by
  rw [newest_eq_drop, Nat.sub_eq_zero_of_le h, drop_zero]

theorem length_newest (limit : ℕ) (l : List α) : (newest limit l).length = min limit l.length := by
  rw [newest_eq_drop, length_drop]
  omega

theorem newest_of_suffix {limit : ℕ} {l l' : List α} (hs : l <:+ l') (hlen : limit ≤ l.length) :
    newest limit l = newest limit l' := by
  obtain ⟨front, rfl⟩ := hs
  have hdrop : front.length + l.length - limit = front.length + (l.length - limit) := by omega
  rw [newest_eq_drop, newest_eq_drop, length_append, hdrop, drop_append]
  simp

theorem map_newest {β : Type*} (f : α → β) (limit : ℕ) (l : List α) :
    (newest limit l).map f = newest limit (l.map f) := by
  rw [newest_eq_drop, newest_eq_drop, map_drop, length_map]

theorem take_append_newest (limit : ℕ) (l : List α) :
    l.take (l.length - limit) ++ newest limit l = l := by
  rw [newest_eq_drop, take_append_drop]

theorem newest_newest {limit fetch : ℕ} (h : limit ≤ fetch) (l : List α) :
    newest limit (newest fetch l) = newest limit l := by
  by_cases hlen : fetch ≤ l.length
  · refine newest_of_suffix (newest_suffix fetch l) ?_
    rw [length_newest]
    omega
  · have hshort : l.length ≤ fetch := by omega
    rw [newest_of_length_le hshort]

variable {κ : Type*} [LinearOrder κ] {start : α → κ}

theorem AscendingBy.filter_before_newest {l rest : List α} {first : α} {limit : ℕ}
    (h : AscendingBy start l) (hn : newest limit l = first :: rest) :
    l.filter (fun a ↦ start a < start first) = l.take (l.length - limit) := by
  have hl := take_append_newest limit l
  rw [hn] at hl
  have hasc := h
  rw [← hl] at hasc
  obtain ⟨_, hnew, hold⟩ := pairwise_append.mp hasc
  have hfront : (l.take (l.length - limit)).filter (fun a ↦ start a < start first) =
      l.take (l.length - limit) :=
    filter_eq_self.mpr (fun a ha ↦ decide_eq_true (hold a ha first mem_cons_self))
  have hback : (first :: rest).filter (fun a ↦ start a < start first) = [] := by
    refine filter_eq_nil_iff.mpr (fun a ha ↦ ?_)
    rw [decide_eq_true_eq, not_lt]
    rcases mem_cons.mp ha with rfl | ha
    · exact le_rfl
    · exact ((pairwise_cons.mp hnew).1 a ha).le
  calc l.filter (fun a ↦ start a < start first)
      = (l.take (l.length - limit) ++ first :: rest).filter
          (fun a ↦ start a < start first) := by rw [hl]
    _ = l.take (l.length - limit) := by
      rw [filter_append, hfront, hback, append_nil]

end Newest

section Originals

variable {α κ : Type*} [DecidableEq κ] (key : α → κ) (alike : α → α → Bool)

/-- Each element with whether it is an original: its key was not seen before, and it is like
none of the originals before it. -/
def markOriginals : List κ → List α → List α → List (α × Bool)
  | _, _, [] => []
  | seen, kept, a :: rest =>
    let copy := key a ∈ seen || kept.any (alike a)
    (a, !copy) :: markOriginals (key a :: seen) (if copy then kept else kept ++ [a]) rest

def originalsOf (seen : List κ) (kept l : List α) : List α :=
  ((markOriginals key alike seen kept l).filter Prod.snd).map Prod.fst

section Marks

variable {key alike} {seen seen' : List κ} {kept l l' : List α}

theorem markOriginals_fst (seen : List κ) (kept l : List α) :
    (markOriginals key alike seen kept l).map Prod.fst = l := by
  induction l generalizing seen kept with
  | nil => rfl
  | cons a rest ih => rw [markOriginals, map_cons, ih]

theorem markOriginals_congr (h : ∀ k, k ∈ seen ↔ k ∈ seen') :
    markOriginals key alike seen kept l = markOriginals key alike seen' kept l := by
  induction l generalizing seen seen' kept with
  | nil => rfl
  | cons a rest ih =>
    have hcopy : decide (key a ∈ seen) = decide (key a ∈ seen') := decide_eq_decide.mpr (h _)
    have hseen : ∀ k, k ∈ key a :: seen ↔ k ∈ key a :: seen' := fun k ↦ by
      rw [mem_cons, mem_cons, h]
    rw [markOriginals, markOriginals, hcopy, ih hseen]

theorem of_mark_false {i : ℕ} {a : α}
    (h : (markOriginals key alike seen kept l)[i]? = some (a, false)) :
    (key a ∈ seen ∨ ∃ j < i, ∃ b, l[j]? = some b ∧ key b = key a) ∨
      (∃ b ∈ kept, alike a b) ∨
        ∃ j < i, ∃ b, (markOriginals key alike seen kept l)[j]? = some (b, true) ∧ alike a b := by
  induction l generalizing seen kept i with
  | nil => cases h
  | cons first rest ih =>
    rw [markOriginals] at h ⊢
    cases i with
    | zero =>
      obtain ⟨rfl, hcopy⟩ := Prod.mk.inj (Option.some.inj h)
      rw [Bool.not_eq_false', Bool.or_eq_true, decide_eq_true_iff, any_eq_true] at hcopy
      exact hcopy.imp .inl .inl
    | succ i =>
      obtain (hseen | ⟨j, hj, b, hb, hkey⟩) | ⟨b, hb, halike⟩ | ⟨j, hj, b, hb, halike⟩ := ih h
      · rcases mem_cons.mp hseen with hfirst | hseen
        · exact .inl (.inr ⟨0, Nat.succ_pos i, first, rfl, hfirst.symm⟩)
        · exact .inl (.inl hseen)
      · exact .inl (.inr ⟨j + 1, Nat.succ_lt_succ hj, b, hb, hkey⟩)
      · cases hcopy : (decide (key first ∈ seen) || kept.any (alike first)) with
        | true =>
          rw [if_pos hcopy] at hb
          exact .inr (.inl ⟨b, hb, halike⟩)
        | false =>
          rw [if_neg (by rw [hcopy]; exact Bool.false_ne_true), mem_append,
            mem_singleton] at hb
          rcases hb with hb | rfl
          · exact .inr (.inl ⟨b, hb, halike⟩)
          · exact .inr (.inr ⟨0, Nat.succ_pos i, b, rfl, halike⟩)
      · exact .inr (.inr ⟨j + 1, Nat.succ_lt_succ hj, b, hb, halike⟩)

end Marks

inductive WithCopies : List κ → List α → List α → Prop
  | nil (seen : List κ) : WithCopies seen [] []
  | cons {seen : List κ} {l l' : List α} (a : α) :
      WithCopies (key a :: seen) l l' → WithCopies seen (a :: l) (a :: l')
  | copy {seen : List κ} {l l' : List α} (c : α) :
      key c ∈ seen → WithCopies seen l l' → WithCopies seen l (c :: l')

section Copies

variable {key alike} {seen : List κ} {kept l l' : List α}

theorem WithCopies.originalsOf_eq (h : WithCopies key seen l l') :
    originalsOf key alike seen kept l' = originalsOf key alike seen kept l := by
  induction h generalizing kept with
  | nil => rfl
  | @cons seen l l' a _ ih =>
    rw [originalsOf, originalsOf, markOriginals, markOriginals]
    cases hcopy : (decide (key a ∈ seen) || kept.any (alike a)) with
    | true => exact ih
    | false => exact congrArg (a :: ·) ih
  | @copy seen l l' c hc _ ih =>
    have hseen : ∀ k, k ∈ key c :: seen ↔ k ∈ seen := fun k ↦ by
      rw [mem_cons, or_iff_right_of_imp (fun he ↦ he ▸ hc)]
    have hcopy : (decide (key c ∈ seen) || kept.any (alike c)) = true := by
      rw [decide_eq_true hc, Bool.true_or]
    rw [originalsOf, markOriginals]
    simp only [hcopy, if_true, Bool.not_true]
    rw [filter_cons_of_neg (by exact Bool.false_ne_true), markOriginals_congr hseen]
    exact ih

omit [DecidableEq κ] in
theorem withCopies_filter {p : α → Bool}
    (h : ∀ front c back, l = front ++ c :: back → p c = false →
      key c ∈ seen ∨ ∃ a ∈ front, p a ∧ key a = key c) :
    WithCopies key seen (l.filter p) l := by
  induction l generalizing seen with
  | nil => exact .nil seen
  | cons a rest ih =>
    cases ha : p a with
    | true =>
      rw [filter_cons_of_pos ha]
      refine .cons a (ih (fun front c back hl hc ↦ ?_))
      obtain hseen | ⟨b, hb, hpb, hkey⟩ := h (a :: front) c back (by rw [hl]; rfl) hc
      · exact .inl (mem_cons_of_mem _ hseen)
      · rcases mem_cons.mp hb with rfl | hb
        · exact .inl (mem_cons.mpr (.inl hkey.symm))
        · exact .inr ⟨b, hb, hpb, hkey⟩
    | false =>
      rw [filter_cons_of_neg (by rw [ha]; exact Bool.false_ne_true)]
      have hseen : key a ∈ seen := (h [] a rest rfl ha).resolve_right (by simp)
      refine .copy a hseen (ih (fun front c back hl hc ↦ ?_))
      obtain hseen' | ⟨b, hb, hpb, hkey⟩ := h (a :: front) c back (by rw [hl]; rfl) hc
      · exact .inl hseen'
      · rcases mem_cons.mp hb with rfl | hb
        · rw [ha] at hpb
          cases hpb
        · exact .inr ⟨b, hb, hpb, hkey⟩

end Copies

end Originals

end TalaPala.Library
