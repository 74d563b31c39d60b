import Mathlib.Data.List.Infix

namespace TalaPala.Library

open List

section Headings

variable {α : Type*} {heading : ℕ → Option α}

def lastHeading (heading : ℕ → Option α) (i j : ℕ) : Option α :=
  (List.range' (i + 1) (j - i)).reverse.findSome? heading

theorem lastHeading_self (i : ℕ) : lastHeading heading i i = none := by
  rw [lastHeading, Nat.sub_self]
  rfl

theorem lastHeading_or {i j k : ℕ} (hij : i ≤ j) (hjk : j ≤ k) :
    lastHeading heading i k = (lastHeading heading j k).or (lastHeading heading i j) := by
  have hsplit : List.range' (i + 1) (k - i) =
      List.range' (i + 1) (j - i) ++ List.range' (j + 1) (k - j) := by
    have hstart : j + 1 = i + 1 + (j - i) := by omega
    have hlength : k - i = j - i + (k - j) := by omega
    rw [hstart, hlength, ← range'_append_1]
  rw [lastHeading, hsplit, reverse_append, findSome?_append]
  rfl

theorem lastHeading_succ {i j : ℕ} (h : i ≤ j) :
    lastHeading heading i (j + 1) = (heading (j + 1)).or (lastHeading heading i j) := by
  have hone : lastHeading heading j (j + 1) = heading (j + 1) := by
    rw [lastHeading, Nat.add_sub_cancel_left]
    exact findSome?_singleton
  rw [lastHeading_or h (Nat.le_succ j), hone]

theorem exists_of_lastHeading {i j : ℕ} {a : α} (h : lastHeading heading i j = some a) :
    ∃ k, heading k = some a := by
  obtain ⟨k, _, hk⟩ := exists_of_findSome?_eq_some h
  exact ⟨k, hk⟩

theorem rel_of_neighbours {p : ℕ → Prop} {r : ℕ → ℕ → Prop}
    (htrans : ∀ i j k, p j → r i j → r j k → r i k)
    (h : ∀ i j, p i → p j → i < j → (∀ k, i < k → k < j → ¬p k) → r i j) {i j : ℕ} (hi : p i)
    (hj : p j) (hij : i < j) : r i j := by
  induction hn : j - i using Nat.strongRecOn generalizing i j with
  | _ n ih =>
    by_cases hbetween : ∃ k, i < k ∧ k < j ∧ p k
    · obtain ⟨k, hik, hkj, hk⟩ := hbetween
      have hleft := ih (k - i) (by omega) hi hk hik rfl
      have hright := ih (j - k) (by omega) hk hj hkj rfl
      exact htrans i k j hk hleft hright
    · exact h i j hi hj hij (fun k hik hkj hk ↦ hbetween ⟨k, hik, hkj, hk⟩)

end Headings

variable {α β : Type*}

section Patterns

/-- The matches of a pattern, left to right without overlaps. The pattern, tried at the
head of what is left, says how much it takes; `skip` counts what is still to pass of a
match. -/
def findAll (pattern : List α → Option (β × ℕ)) : ℕ → List α → List β
  | _, [] => []
  | skip + 1, _ :: rest => findAll pattern skip rest
  | 0, a :: rest =>
    match pattern (a :: rest) with
    | some (b, taken) => b :: findAll pattern (taken - 1) rest
    | none => findAll pattern 0 rest

def replaceAll (pattern : List α → Option ℕ) (by' : List α) : ℕ → List α → List α
  | _, [] => []
  | skip + 1, _ :: rest => replaceAll pattern by' skip rest
  | 0, a :: rest =>
    match pattern (a :: rest) with
    | some taken => by' ++ replaceAll pattern by' (taken - 1) rest
    | none => a :: replaceAll pattern by' 0 rest

def occurs [BEq α] (part whole : List α) : Bool := whole.tails.any (part.isPrefixOf ·)

theorem subset_of_occurs [BEq α] [LawfulBEq α] {part whole : List α} (h : occurs part whole = true) :
    part ⊆ whole := by
  obtain ⟨rest, hrest, hpart⟩ := any_eq_true.mp h
  exact List.Subset.trans (List.isPrefixOf_iff_prefix.mp hpart).subset
    ((mem_tails rest whole).mp hrest).subset

variable {pattern : List α → Option ℕ} {by' : List α}

theorem exists_of_mem_findAll {pattern : List α → Option (β × ℕ)} {k : ℕ} {l : List α} {b : β}
    (h : b ∈ findAll pattern k l) : ∃ part taken, pattern part = some (b, taken) := by
  induction l generalizing k with
  | nil => cases k <;> cases h
  | cons a rest ih =>
    cases k with
    | succ k => exact ih h
    | zero =>
      rw [findAll] at h
      split at h
      next found taken hfound =>
        rcases mem_cons.mp h with rfl | hrest
        · exact ⟨a :: rest, taken, hfound⟩
        · exact ih hrest
      next => exact ih h

theorem replaceAll_skip (k : ℕ) (l : List α) :
    replaceAll pattern by' k l = replaceAll pattern by' 0 (l.drop k) := by
  induction l generalizing k with
  | nil => cases k <;> rfl
  | cons a rest ih =>
    cases k with
    | zero => rfl
    | succ k => exact ih k

theorem replaceAll_cons_of_none {a : α} {rest : List α} (h : pattern (a :: rest) = none) :
    replaceAll pattern by' 0 (a :: rest) = a :: replaceAll pattern by' 0 rest := by
  rw [replaceAll, h]

theorem replaceAll_cons_of_some {a : α} {rest : List α} {taken : ℕ}
    (h : pattern (a :: rest) = some (taken + 1)) :
    replaceAll pattern by' 0 (a :: rest) =
      by' ++ replaceAll pattern by' 0 (rest.drop taken) := by
  rw [replaceAll, h]
  exact congrArg (by' ++ ·) (replaceAll_skip taken rest)

end Patterns

section Parts

variable [DecidableEq α] (opening closing : α)

def partLength : List α → Option ℕ
  | [] => none
  | a :: rest =>
    if a = closing then some 1
    else if a = opening then none
    else (partLength rest).map (· + 1)

def remark (alone : α → Bool) : List α → Option ℕ
  | [] => none
  | a :: rest =>
    if a = opening then (partLength opening closing rest).map (· + 1)
    else if alone a then some 1
    else none

def unremarked (alone : α → Bool) (l : List α) : List α :=
  replaceAll (remark opening closing alone) [] 0 l

variable {opening closing} {alone : α → Bool}

theorem partLength_append {note rest : List α} (hopen : opening ∉ note) (hclose : closing ∉ note) :
    partLength opening closing (note ++ closing :: rest) = some (note.length + 1) := by
  induction note with
  | nil => rw [nil_append, partLength, if_pos rfl, length_nil]
  | cons a note ih =>
    obtain ⟨hao, hopen⟩ := ne_and_not_mem_of_not_mem_cons hopen
    obtain ⟨hac, hclose⟩ := ne_and_not_mem_of_not_mem_cons hclose
    rw [cons_append, partLength, if_neg hac.symm, if_neg hao.symm, ih hopen hclose]
    rfl

theorem partLength_spec {l : List α} {n : ℕ} (h : partLength opening closing l = some n) :
    ∃ note rest, l = note ++ closing :: rest ∧ n = note.length + 1 ∧ opening ∉ note ∧
      closing ∉ note := by
  induction l generalizing n with
  | nil => cases h
  | cons a l ih =>
    rw [partLength] at h
    split_ifs at h with hc ho
    · subst hc
      exact ⟨[], l, rfl, (Option.some.inj h).symm, not_mem_nil, not_mem_nil⟩
    · obtain ⟨m, hm, rfl⟩ := Option.map_eq_some_iff.mp h
      obtain ⟨note, rest, rfl, rfl, hopen, hclose⟩ := ih hm
      refine ⟨a :: note, rest, rfl, rfl, ?_, ?_⟩
      · exact not_mem_cons_of_ne_of_not_mem (Ne.symm ho) hopen
      · exact not_mem_cons_of_ne_of_not_mem (Ne.symm hc) hclose

theorem unremarked_insert {before note after : List α} (hbefore : opening ∉ before)
    (hopen : opening ∉ note) (hclose : closing ∉ note) :
    unremarked opening closing alone (before ++ opening :: note ++ closing :: after) =
      unremarked opening closing alone (before ++ after) := by
  induction before with
  | nil =>
    have hremark : remark opening closing alone (opening :: (note ++ closing :: after)) =
        some (note.length + 1 + 1) := by
      rw [remark, if_pos rfl, partLength_append hopen hclose]
      rfl
    have hdrop : (note ++ closing :: after).drop (note.length + 1) = after := by simp
    rw [unremarked, nil_append, cons_append, replaceAll_cons_of_some hremark, hdrop]
    rfl
  | cons a before ih =>
    obtain ⟨hao, hbefore⟩ := ne_and_not_mem_of_not_mem_cons hbefore
    simp only [cons_append, unremarked] at ih ⊢
    by_cases halone : alone a
    · have hremark (l : List α) : remark opening closing alone (a :: l) = some (0 + 1) := by
        rw [remark, if_neg hao.symm, if_pos halone]
      rw [replaceAll_cons_of_some (hremark _), replaceAll_cons_of_some (hremark _)]
      exact ih hbefore
    · have hremark (l : List α) : remark opening closing alone (a :: l) = none := by
        rw [remark, if_neg hao.symm, if_neg halone]
      rw [replaceAll_cons_of_none (hremark _), replaceAll_cons_of_none (hremark _), ih hbefore]

theorem partLength_filter {keep : α → Bool} (hopen : keep opening) (hclose : keep closing)
    {l : List α} :
    (∀ note rest, l = note ++ closing :: rest → opening ∉ note → closing ∉ note →
      partLength opening closing (l.filter keep) = some ((note.filter keep).length + 1)) ∧
    (partLength opening closing l = none → partLength opening closing (l.filter keep) = none) := by
  constructor
  · rintro note rest rfl ho hc
    rw [filter_append, filter_cons_of_pos hclose]
    exact partLength_append (fun h ↦ ho (mem_of_mem_filter h))
      (fun h ↦ hc (mem_of_mem_filter h))
  · intro h
    induction l with
    | nil => exact h
    | cons a l ih =>
      rw [partLength] at h
      split_ifs at h with hac hao
      · subst hao
        rw [filter_cons_of_pos hopen, partLength, if_neg hac, if_pos rfl]
      · have hrest := ih (Option.map_eq_none_iff.mp h)
        by_cases hkeep : keep a
        · rw [filter_cons_of_pos hkeep, partLength, if_neg hac, if_neg hao, hrest]
          rfl
        · rwa [filter_cons_of_neg hkeep]

theorem filter_replaceAll_remark {keep : α → Bool} {by' : List α} (hopen : keep opening)
    (hclose : keep closing) (hby : by'.filter keep = []) (halone : ∀ a, alone a → keep a)
    (l : List α) :
    (replaceAll (remark opening closing alone) by' 0 l).filter keep =
      unremarked opening closing alone (l.filter keep) := by
  induction hn : l.length using Nat.strongRecOn generalizing l with
  | _ n ih =>
    cases l with
    | nil => rfl
    | cons a l =>
      have hstep (l' : List α) (hle : l'.length ≤ l.length) :
          (replaceAll (remark opening closing alone) by' 0 l').filter keep =
            unremarked opening closing alone (l'.filter keep) :=
        ih l'.length (by rw [← hn, length_cons]; omega) l' rfl
      by_cases ha : a = opening
      · subst ha
        rw [filter_cons_of_pos hopen, unremarked]
        cases hpart : partLength a closing l with
        | none =>
          have hnone : remark a closing alone (a :: l) = none := by
            rw [remark, if_pos rfl, hpart, Option.map_none]
          have hnone' : remark a closing alone (a :: l.filter keep) = none := by
            rw [remark, if_pos rfl, (partLength_filter hopen hclose).2 hpart, Option.map_none]
          rw [replaceAll_cons_of_none hnone, replaceAll_cons_of_none hnone',
            filter_cons_of_pos hopen, hstep l (Nat.le_refl _), unremarked]
        | some k =>
          obtain ⟨note, rest, rfl, rfl, ho, hc⟩ := partLength_spec hpart
          have hsome : remark a closing alone (a :: (note ++ closing :: rest)) =
              some (note.length + 1 + 1) := by
            rw [remark, if_pos rfl, hpart, Option.map_some]
          have hfiltered : (note ++ closing :: rest).filter keep =
              note.filter keep ++ closing :: rest.filter keep := by
            rw [filter_append, filter_cons_of_pos hclose]
          have hsome' : remark a closing alone (a :: (note ++ closing :: rest).filter keep) =
              some ((note.filter keep).length + 1 + 1) := by
            rw [remark, if_pos rfl,
              (partLength_filter hopen hclose).1 note rest rfl ho hc, Option.map_some]
          have hdrop (u v : List α) : (u ++ closing :: v).drop (u.length + 1) = v := by simp
          rw [replaceAll_cons_of_some hsome, replaceAll_cons_of_some hsome', hdrop, hfiltered,
            hdrop, filter_append, hby, hstep rest (by simp; omega), unremarked]
      · by_cases hal : alone a
        · have hsome (l : List α) : remark opening closing alone (a :: l) = some (0 + 1) := by
            rw [remark, if_neg ha, if_pos hal]
          rw [filter_cons_of_pos (halone a hal), unremarked, replaceAll_cons_of_some (hsome _),
            replaceAll_cons_of_some (hsome _), filter_append, hby, drop_zero,
            hstep l (Nat.le_refl _), unremarked]
          rfl
        · have hnone (l : List α) : remark opening closing alone (a :: l) = none := by
            rw [remark, if_neg ha, if_neg hal]
          rw [replaceAll_cons_of_none (hnone _)]
          by_cases hkeep : keep a
          · rw [filter_cons_of_pos hkeep, filter_cons_of_pos hkeep, hstep l (Nat.le_refl _),
              unremarked, unremarked, replaceAll_cons_of_none (hnone _)]
          · rw [filter_cons_of_neg hkeep, filter_cons_of_neg hkeep, hstep l (Nat.le_refl _)]

end Parts

end TalaPala.Library
