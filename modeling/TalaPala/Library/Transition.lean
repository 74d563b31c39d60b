import Mathlib.Data.List.Perm.Basic

namespace TalaPala.Library.Transition

variable {σ ι : Type*}

/-- A run of a labelled partial step function. Every step is taken in a state
and under a label that `ok` admits, so a condition on runs is a choice of `ok`. -/
inductive Run (next : σ → ι → Option σ) (ok : σ → ι → Prop) : σ → List ι → σ → Prop
  | nil (s : σ) : Run next ok s [] s
  | cons {s t u : σ} {a : ι} {as : List ι} :
      ok s a → next s a = some t → Run next ok t as u → Run next ok s (a :: as) u

variable {next : σ → ι → Option σ} {ok ok' : σ → ι → Prop}

theorem Run.trans {s t u : σ} {as bs : List ι} (h : Run next ok s as t)
    (h' : Run next ok t bs u) : Run next ok s (as ++ bs) u := by
  induction h with
  | nil => exact h'
  | cons ha hs _ ih => exact .cons ha hs (ih h')

theorem Run.split {s u : σ} {as bs : List ι} (h : Run next ok s (as ++ bs) u) :
    ∃ t, Run next ok s as t ∧ Run next ok t bs u := by
  induction as generalizing s with
  | nil => exact ⟨s, .nil s, h⟩
  | cons a as ih =>
    cases h with
    | cons ha hs hrest =>
      obtain ⟨t, hfront, hback⟩ := ih hrest
      exact ⟨t, .cons ha hs hfront, hback⟩

theorem Run.mono {s t : σ} {as : List ι} (hok : ∀ s a, ok s a → ok' s a)
    (h : Run next ok s as t) : Run next ok' s as t := by
  induction h with
  | nil => exact .nil _
  | cons ha hs _ ih => exact .cons (hok _ _ ha) hs ih

theorem Run.preserves {I : σ → Prop}
    (hstep : ∀ s a t, I s → ok s a → next s a = some t → I t)
    {s t : σ} {as : List ι} (h : Run next ok s as t) (hs : I s) : I t := by
  induction h with
  | nil => exact hs
  | cons ha hn _ ih => exact ih (hstep _ _ _ hs ha hn)

theorem Run.preserves_history {I : List ι → σ → Prop}
    (hstep : ∀ front s a t, I front s → ok s a → next s a = some t → I (front ++ [a]) t)
    {s t : σ} {as front : List ι} (h : Run next ok s as t) (hs : I front s) :
    I (front ++ as) t := by
  induction h generalizing front with
  | nil => rwa [List.append_nil]
  | cons ha hn _ ih =>
    have hrest := ih (hstep _ _ _ _ hs ha hn)
    rwa [List.append_assoc, List.singleton_append] at hrest

theorem Run.refine {I : σ → Prop}
    (hstep : ∀ s a t, I s → ok s a → next s a = some t → ok' s a ∧ I t)
    {s t : σ} {as : List ι} (h : Run next ok s as t) (hs : I s) : Run next ok' s as t := by
  induction h with
  | nil => exact .nil _
  | cons ha hn _ ih =>
    obtain ⟨hok, hinv⟩ := hstep _ _ _ hs ha hn
    exact .cons hok hn (ih hinv)

theorem Run.functional {s t u : σ} {as : List ι} (h : Run next ok s as t)
    (h' : Run next ok s as u) : t = u := by
  induction h with
  | nil => cases h'; rfl
  | cons _ hn _ ih =>
    cases h' with
    | cons _ hn' hrest =>
      rw [hn] at hn'
      exact ih (Option.some.inj hn' ▸ hrest)

theorem Run.forall_front_iff {P : σ → Prop}
    (hstep : ∀ s a t, P s → next s a = some t → (P t ↔ ok s a)) {s t : σ} {as : List ι}
    (h : Run next (fun _ _ ↦ True) s as t) (hs : P s) :
    (∀ front back u, as = front ++ back → Run next (fun _ _ ↦ True) s front u → P u) ↔
      Run next ok s as t := by
  constructor
  · intro hall
    induction h with
    | nil => exact .nil _
    | @cons s u t a as _ hn _ ih =>
      have hu : P u := hall [a] as u rfl (.cons trivial hn (.nil u))
      refine .cons ((hstep s a u hs hn).mp hu) hn (ih hu (fun front back v heq hv ↦ ?_))
      exact hall (a :: front) back v (by rw [heq, List.cons_append]) (.cons trivial hn hv)
  · intro hok front back u heq hu
    obtain ⟨v, hv, -⟩ := Run.split (heq ▸ hok)
    obtain rfl : v = u := (hv.mono (fun _ _ _ ↦ trivial)).functional hu
    exact hv.preserves (fun s a t hs hok hn ↦ (hstep s a t hs hn).mpr hok) hs

theorem Run.climbs {R : σ → σ → Prop} (hrefl : ∀ s, R s s)
    (htrans : ∀ s t u, R s t → R t u → R s u)
    (hstep : ∀ s a t, ok s a → next s a = some t → R s t)
    {s t : σ} {as : List ι} (h : Run next ok s as t) : R s t := by
  induction h with
  | nil => exact hrefl _
  | cons ha hn _ ih => exact htrans _ _ _ (hstep _ _ _ ha hn) ih

def Reachable (next : σ → ι → Option σ) (init s : σ) : Prop :=
  ∃ as, Run next (fun _ _ ↦ True) init as s

theorem Reachable.invariant {I : σ → Prop} {init s : σ} (h : Reachable next init s)
    (hinit : I init) (hstep : ∀ s a t, I s → next s a = some t → I t) : I s := by
  obtain ⟨as, hr⟩ := h
  exact hr.preserves (fun s a t hs _ hn ↦ hstep s a t hs hn) hinit

theorem Run.reachable {s t : σ} {as : List ι} (h : Run next ok s as t) : Reachable next s t :=
  ⟨as, h.mono (fun _ _ _ ↦ trivial)⟩

/-- The end of the run under a list of labels, when every step is enabled and
passes `check`. -/
def execute (next : σ → ι → Option σ) (check : σ → ι → Bool) : σ → List ι → Option σ
  | s, [] => some s
  | s, a :: as => if check s a then (next s a).bind (fun t ↦ execute next check t as) else none

theorem run_of_execute {check : σ → ι → Bool} {s t : σ} {as : List ι}
    (h : execute next check s as = some t) : Run next (fun s a ↦ check s a = true) s as t := by
  induction as generalizing s with
  | nil =>
    obtain rfl : s = t := by simpa only [execute, Option.some.injEq] using h
    exact .nil _
  | cons a as ih =>
    rw [execute] at h
    split at h
    · rename_i hc
      obtain ⟨u, hu, hrest⟩ := Option.bind_eq_some_iff.mp h
      exact .cons hc hu (ih hrest)
    · cases h

end TalaPala.Library.Transition

namespace TalaPala.Library.Pending

variable {ι α : Type*} [DecidableEq ι]

def own (pending : List (ι × α)) (w : ι) : List α :=
  (pending.filter (fun p ↦ p.1 = w)).map Prod.snd

def release (pending : List (ι × α)) (w : ι) : List (ι × α) :=
  pending.filter (fun p ↦ p.1 ≠ w)

def held (pending : List (ι × α)) (w : ι) (clashes : α → Bool) : Bool :=
  pending.any (fun p ↦ decide (p.1 ≠ w) && clashes p.2)

variable {pending : List (ι × α)} {v w : ι}

theorem own_append_self (pending : List (ι × α)) (w : ι) (a : α) :
    own (pending ++ [(w, a)]) w = own pending w ++ [a] := by
  simp [own, List.filter_append]

theorem own_append_other (hvw : v ≠ w) (pending : List (ι × α)) (a : α) :
    own (pending ++ [(w, a)]) v = own pending v := by
  simp [own, List.filter_append, hvw.symm]

@[simp] theorem own_release_self (pending : List (ι × α)) (w : ι) :
    own (release pending w) w = [] := by
  rw [own, release, List.filter_filter, List.map_eq_nil_iff, List.filter_eq_nil_iff]
  intro p _
  simp

theorem own_release_other (hvw : v ≠ w) (pending : List (ι × α)) :
    own (release pending w) v = own pending v := by
  rw [own, release, List.filter_filter, own]
  congr 1
  apply List.filter_congr
  intro p _
  by_cases hp : p.1 = v
  · simp [hp, hvw]
  · simp [hp]

theorem mem_own {a : α} : a ∈ own pending w ↔ (w, a) ∈ pending := by
  simp only [own, List.mem_map, List.mem_filter, decide_eq_true_eq]
  constructor
  · rintro ⟨p, ⟨hp, rfl⟩, rfl⟩
    exact hp
  · exact fun h ↦ ⟨(w, a), ⟨h, rfl⟩, rfl⟩

theorem own_sublist (pending : List (ι × α)) (w : ι) :
    (own pending w).Sublist (pending.map Prod.snd) := List.filter_sublist.map _

theorem release_sublist (pending : List (ι × α)) (w : ι) :
    (release pending w).Sublist pending := List.filter_sublist

theorem own_append_release_perm (pending : List (ι × α)) (w : ι) :
    (own pending w ++ (release pending w).map Prod.snd).Perm (pending.map Prod.snd) := by
  rw [own, release, ← List.map_append]
  apply List.Perm.map
  have hnot : pending.filter (fun p ↦ p.1 ≠ w) =
      pending.filter (fun p ↦ !decide (p.1 = w)) := by simp
  rw [hnot]
  exact List.filter_append_perm _ _

theorem ne_of_not_held {clashes : α → Bool} (h : held pending w clashes = false) {a : α}
    (hmem : (v, a) ∈ pending) (hvw : v ≠ w) : clashes a = false := by
  rw [held, List.any_eq_false] at h
  simpa [hvw] using h (v, a) hmem

theorem not_clashes {clashes : α → Bool} (h : held pending w clashes = false)
    (hown : ∀ a ∈ own pending w, clashes a = false) {a : α} (ha : a ∈ pending.map Prod.snd) :
    clashes a = false := by
  obtain ⟨⟨v, a⟩, hmem, rfl⟩ := List.mem_map.mp ha
  by_cases hvw : v = w
  · subst hvw
    exact hown a (mem_own.mpr hmem)
  · exact ne_of_not_held h hmem hvw

def ReadOf (committed own read : List α) : Prop :=
  ∃ before, before <+: committed ∧ read = before ++ own

theorem ReadOf.now (committed own : List α) : ReadOf committed own (committed ++ own) :=
  ⟨committed, List.prefix_rfl, rfl⟩

theorem ReadOf.mono {committed committed' own read : List α} (h : ReadOf committed own read)
    (hkeeps : committed <+: committed') : ReadOf committed' own read := by
  obtain ⟨before, hbefore, hread⟩ := h
  exact ⟨before, hbefore.trans hkeeps, hread⟩

theorem ReadOf.published_eq_nil {committed own read published : List α}
    (h : ReadOf committed own read) (hread : (committed ++ published) ++ own = read) :
    published = [] := by
  obtain ⟨before, hbefore, rfl⟩ := h
  have hsame : committed ++ published = before := List.append_cancel_right hread
  have hlength := hbefore.length_le
  rw [← hsame, List.length_append] at hlength
  exact List.eq_nil_of_length_eq_zero (by omega)

end TalaPala.Library.Pending
