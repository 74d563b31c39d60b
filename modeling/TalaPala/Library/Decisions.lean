import Mathlib.Data.Finset.Basic

namespace TalaPala.Library

structure Decisions (κ ρ σ : Type*) where
  state : σ
  taken : Finset κ
  declined : List (κ × ρ)

/-- A way to set the state, or why there is none. -/
abbrev Answer (ρ σ : Type*) := Except ρ (σ → σ)

namespace Decisions

variable {κ ρ σ : Type*} [DecidableEq κ]

def settle (d : Decisions κ ρ σ) (k : κ) (answer : Answer ρ σ) : Decisions κ ρ σ :=
  match answer with
  | .ok set => ⟨set d.state, insert k d.taken, d.declined⟩
  | .error reason => ⟨d.state, d.taken, d.declined ++ [(k, reason)]⟩

def settleAll (posed : Finset κ) (d : Decisions κ ρ σ) (answers : List (κ × Answer ρ σ)) :
    Decisions κ ρ σ :=
  answers.foldl (fun d a ↦ if a.1 ∈ posed then d.settle a.1 a.2 else d) d

def names (d : Decisions κ ρ σ) : List κ := d.declined.map Prod.fst

structure Accounts (absent : κ → σ → Prop) (stated : ρ → Prop) (asked : Finset κ)
    (d : Decisions κ ρ σ) : Prop where
  all : ∀ k, k ∈ d.taken ∨ k ∈ d.names ↔ k ∈ asked
  apart : ∀ k ∈ d.taken, k ∉ d.names
  once : d.names.Nodup
  reasons : ∀ o ∈ d.declined, stated o.2
  unmarked : ∀ k, k ∉ d.taken → absent k d.state

structure Proper (absent : κ → σ → Prop) (stated : ρ → Prop) (k : κ) (answer : Answer ρ σ) :
    Prop where
  own : ∀ set, answer = .ok set → ∀ j, j ≠ k → ∀ s, absent j s → absent j (set s)
  reasoned : ∀ reason, answer = .error reason → stated reason

section Accounting

variable {absent : κ → σ → Prop} {stated : ρ → Prop} {asked posed : Finset κ}
  {d : Decisions κ ρ σ} {k : κ} {answer : Answer ρ σ}

theorem Accounts.settle (h : d.Accounts absent stated asked) (hk : k ∉ asked)
    (hanswer : Proper absent stated k answer) :
    (d.settle k answer).Accounts absent stated (insert k asked) := by
  have hnew : ¬ (k ∈ d.taken ∨ k ∈ d.names) := fun hin ↦ hk ((h.all k).mp hin)
  cases answer with
  | ok set =>
    refine ⟨fun j ↦ ?_, fun j hj ↦ ?_, h.once, h.reasons, fun j hj ↦ ?_⟩
    · rw [Finset.mem_insert, ← h.all j, ← or_assoc, ← Finset.mem_insert]
      exact Iff.rfl
    · rcases Finset.mem_insert.mp hj with rfl | hj
      · exact fun hin ↦ hnew (.inr hin)
      · exact h.apart j hj
    · have hne : j ≠ k := fun heq ↦ hj (Finset.mem_insert.mpr (.inl heq))
      have hold : j ∉ d.taken := fun hin ↦ hj (Finset.mem_insert_of_mem hin)
      exact hanswer.own set rfl j hne _ (h.unmarked j hold)
  | error reason =>
    have hnames : (d.settle k (.error reason)).names = d.names ++ [k] := List.map_append
    refine ⟨fun j ↦ ?_, fun j hj ↦ ?_, ?_, fun o ho ↦ ?_, h.unmarked⟩
    · rw [hnames, List.mem_append, List.mem_singleton, Finset.mem_insert, ← h.all j, ← or_assoc,
        or_comm (a := j = k)]
      exact Iff.rfl
    · rw [hnames, List.mem_append, List.mem_singleton]
      rintro (hin | rfl)
      · exact h.apart j hj hin
      · exact hnew (.inl hj)
    · rw [hnames]
      exact h.once.append (List.nodup_singleton k)
        (List.disjoint_singleton.mpr (fun hin ↦ hnew (.inr hin)))
    · rcases List.mem_append.mp ho with ho | ho
      · exact h.reasons o ho
      · rw [List.mem_singleton.mp ho]
        exact hanswer.reasoned reason rfl

theorem Accounts.settleAll (h : d.Accounts absent stated asked) {answers : List (κ × Answer ρ σ)}
    (hkeys : (answers.map Prod.fst).Nodup) (hnew : ∀ a ∈ answers, a.1 ∈ posed → a.1 ∉ asked)
    (hproper : ∀ a ∈ answers, Proper absent stated a.1 a.2) :
    (d.settleAll posed answers).Accounts absent stated
      (asked ∪ posed.filter (· ∈ answers.map Prod.fst)) := by
  induction answers generalizing d asked with
  | nil =>
    have hasked : asked ∪ posed.filter (· ∈ ([] : List (κ × Answer ρ σ)).map Prod.fst) = asked := by
      ext j
      simp
    rw [hasked]
    exact h
  | cons a rest ih =>
    obtain ⟨ha, hrest⟩ := List.nodup_cons.mp hkeys
    have hlater (b) (hb : b ∈ rest) : b.1 ≠ a.1 :=
      fun heq ↦ ha (heq ▸ List.mem_map_of_mem hb)
    have hproper' (b) (hb : b ∈ rest) := hproper b (List.mem_cons_of_mem a hb)
    have hnew' (b) (hb : b ∈ rest) := hnew b (List.mem_cons_of_mem a hb)
    by_cases hposed : a.1 ∈ posed
    · have hstep := h.settle (hnew a List.mem_cons_self hposed) (hproper a List.mem_cons_self)
      have hnext (b) (hb : b ∈ rest) (hb' : b.1 ∈ posed) : b.1 ∉ insert a.1 asked := by
        simp [hlater b hb, hnew' b hb hb']
      have hrun := ih hstep hrest hnext hproper'
      have hasked : asked ∪ posed.filter (· ∈ (a :: rest).map Prod.fst) =
          insert a.1 asked ∪ posed.filter (· ∈ rest.map Prod.fst) := by
        ext j
        by_cases hj : j = a.1 <;> simp [hj, hposed]
      rw [hasked]
      simpa only [Decisions.settleAll, List.foldl_cons, if_pos hposed] using hrun
    · have hrun := ih h hrest hnew' hproper'
      have hasked : asked ∪ posed.filter (· ∈ (a :: rest).map Prod.fst) =
          asked ∪ posed.filter (· ∈ rest.map Prod.fst) := by
        ext j
        by_cases hj : j = a.1 <;> simp [hj, hposed]
      rw [hasked]
      simpa only [Decisions.settleAll, List.foldl_cons, if_neg hposed] using hrun

end Accounting

section Agreement

variable {posed : Finset κ} {d d' : Decisions κ ρ σ}

/-- Two answers that do the same to the state: the same setting, or none. -/
def SameEffect : Answer ρ σ → Answer ρ σ → Prop
  | .ok set, .ok set' => set = set'
  | .error _, .error _ => True
  | _, _ => False

theorem SameEffect.refl (answer : Answer ρ σ) : SameEffect answer answer := by
  cases answer
  · trivial
  · rfl

theorem settle_congr (hstate : d.state = d'.state) (htaken : d.taken = d'.taken) (k : κ)
    {answer answer' : Answer ρ σ} (h : SameEffect answer answer') :
    (d.settle k answer).state = (d'.settle k answer').state ∧
      (d.settle k answer).taken = (d'.settle k answer').taken := by
  match answer, answer', h with
  | .error _, .error _, _ => exact ⟨hstate, htaken⟩
  | .ok set, .ok _, rfl =>
    exact ⟨congrArg (fun s ↦ set s) hstate, congrArg (fun t ↦ insert k t) htaken⟩

theorem settleAll_congr (hstate : d.state = d'.state) (htaken : d.taken = d'.taken)
    {keys : List κ} {answer answer' : κ → Answer ρ σ}
    (h : ∀ k ∈ keys, k ∈ posed → SameEffect (answer k) (answer' k)) :
    (d.settleAll posed (keys.map (fun k ↦ (k, answer k)))).state =
        (d'.settleAll posed (keys.map (fun k ↦ (k, answer' k)))).state ∧
      (d.settleAll posed (keys.map (fun k ↦ (k, answer k)))).taken =
        (d'.settleAll posed (keys.map (fun k ↦ (k, answer' k)))).taken := by
  induction keys generalizing d d' with
  | nil => exact ⟨hstate, htaken⟩
  | cons k rest ih =>
    have hrest (j) (hj : j ∈ rest) := h j (List.mem_cons_of_mem k hj)
    simp only [settleAll, List.map_cons, List.foldl_cons]
    by_cases hk : k ∈ posed
    · rw [if_pos hk, if_pos hk]
      obtain ⟨hs, ht⟩ := settle_congr hstate htaken k (h k List.mem_cons_self hk)
      exact ih hs ht hrest
    · rw [if_neg hk, if_neg hk]
      exact ih hstate htaken hrest

theorem mem_taken_settleAll {k : κ} {answers : List (κ × Answer ρ σ)} :
    k ∈ (d.settleAll posed answers).taken ↔
      k ∈ d.taken ∨ (k ∈ posed ∧ ∃ set, (k, .ok set) ∈ answers) := by
  induction answers generalizing d with
  | nil => simp [settleAll]
  | cons a rest ih =>
    obtain ⟨j, answer⟩ := a
    simp only [settleAll, List.foldl_cons] at ih ⊢
    rw [ih]
    by_cases hj : j ∈ posed
    · rw [if_pos hj]
      cases answer with
      | error reason => simp [settle]
      | ok set =>
        by_cases hkj : k = j
        · subst hkj
          simp [settle, hj]
        · simp [settle, hkj]
    · rw [if_neg hj]
      by_cases hkj : k = j
      · subst hkj
        simp [hj]
      · simp [hkj]

end Agreement

end Decisions

end TalaPala.Library
