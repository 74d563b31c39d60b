import TalaPala.Library.Grouping

namespace TalaPala.Library

open List

section Along

variable {α β γ δ : Type*}

def alongFrom (g : List α → β) : List α → List α → List β
  | _, [] => []
  | done, a :: rest => g (done ++ [a]) :: alongFrom g (done ++ [a]) rest

def along (g : List α → β) (l : List α) : List β := alongFrom g [] l

variable {g : List α → β}

@[simp] theorem length_alongFrom (done l : List α) : (alongFrom g done l).length = l.length := by
  induction l generalizing done with
  | nil => rfl
  | cons a rest ih => simp [alongFrom, ih]

@[simp] theorem length_along (l : List α) : (along g l).length = l.length := length_alongFrom [] l

theorem alongFrom_append (done l l' : List α) :
    alongFrom g done (l ++ l') = alongFrom g done l ++ alongFrom g (done ++ l) l' := by
  induction l generalizing done with
  | nil => simp [alongFrom]
  | cons a rest ih => simp [alongFrom, ih, append_assoc]

theorem along_concat (l : List α) (a : α) : along g (l ++ [a]) = along g l ++ [g (l ++ [a])] := by
  simp [along, alongFrom_append, alongFrom]

theorem getElem?_alongFrom {done l : List α} {i : ℕ} (h : i < l.length) :
    (alongFrom g done l)[i]? = some (g (done ++ l.take (i + 1))) := by
  induction l generalizing done i with
  | nil => simp at h
  | cons a rest ih =>
    cases i with
    | zero => simp [alongFrom]
    | succ i =>
      rw [alongFrom, getElem?_cons_succ, ih (by simpa using h)]
      simp

theorem getElem?_along {l : List α} {i : ℕ} (h : i < l.length) :
    (along g l)[i]? = some (g (l.take (i + 1))) := getElem?_alongFrom h

theorem along_map {f : γ → α} (l : List γ) :
    along g (l.map f) = along (fun w ↦ g (w.map f)) l := by
  refine ext_getElem? (fun i ↦ ?_)
  by_cases h : i < l.length
  · rw [getElem?_along (by simpa using h), getElem?_along h, map_take]
  · rw [getElem?_eq_none (by simpa using h), getElem?_eq_none (by simpa using h)]

theorem getElem?_along_of_le {l : List α} {i : ℕ} (h : l.length ≤ i) : (along g l)[i]? = none :=
  getElem?_eq_none (by simpa using h)

theorem zipWith_along {g' : List α → γ} (f : β → γ → δ) (l : List α) :
    List.zipWith f (along g l) (along g' l) = along (fun w ↦ f (g w) (g' w)) l := by
  refine ext_getElem? (fun i ↦ ?_)
  rw [getElem?_zipWith]
  by_cases h : i < l.length
  · rw [getElem?_along h, getElem?_along h, getElem?_along h]
  · rw [getElem?_along_of_le (not_lt.mp h), getElem?_along_of_le (not_lt.mp h),
      getElem?_along_of_le (not_lt.mp h)]

end Along

section Causal

variable {α β γ δ σ : Type*}

structure IsCausal (f : List α → List β) : Prop where
  length : ∀ l, (f l).length = l.length
  take : ∀ l n, f (l.take n) = (f l).take n

theorem isCausal_map (g : α → β) : IsCausal (List.map g) where
  length := fun _ ↦ length_map g
  take := fun _ _ ↦ map_take

theorem isCausal_along (g : List α → β) : IsCausal (along g) where
  length := length_along
  take := by
    intro l n
    have hsplit := alongFrom_append (g := g) [] (l.take n) (l.drop n)
    rw [take_append_drop] at hsplit
    rcases Nat.le_total n l.length with hle | hle
    · have hlen : (alongFrom g [] (l.take n)).length = n := by
        rw [length_alongFrom, length_take, min_eq_left hle]
      rw [along, along, hsplit]
      exact (take_left' hlen).symm
    · rw [take_of_length_le hle, take_of_length_le (by rwa [length_along])]

theorem IsCausal.comp {f : List α → List β} {g : List β → List γ} (hg : IsCausal g)
    (hf : IsCausal f) : IsCausal (g ∘ f) where
  length := fun l ↦ (hg.length _).trans (hf.length l)
  take := fun l n ↦ (congrArg g (hf.take l n)).trans (hg.take _ n)

theorem IsCausal.zipWith {f : List α → List β} {g : List α → List γ} (hf : IsCausal f)
    (hg : IsCausal g) (h : β → γ → δ) : IsCausal (fun l ↦ List.zipWith h (f l) (g l)) where
  length := fun l ↦ by rw [length_zipWith, hf.length, hg.length, min_self]
  take := fun l n ↦ by rw [hf.take, hg.take, take_zipWith]

def running (step : σ → α → σ × β) : σ → List α → List β
  | _, [] => []
  | s, a :: rest => (step s a).2 :: running step (step s a).1 rest

theorem isCausal_running (step : σ → α → σ × β) (s : σ) : IsCausal (running step s) where
  length := by
    intro l
    induction l generalizing s with
    | nil => rfl
    | cons a rest ih => rw [running, length_cons, ih, length_cons]
  take := by
    intro l n
    induction l generalizing s n with
    | nil => rw [take_nil, running, take_nil]
    | cons a rest ih =>
      cases n with
      | zero => rfl
      | succ n => rw [take_succ_cons, running, running, take_succ_cons, ih]

/-- A series moved back by `k` positions, with `fill` in front. -/
def shiftBy (k : ℕ) (fill : α) (l : List α) : List α := (List.replicate k fill ++ l).take l.length

theorem isCausal_shiftBy (k : ℕ) (fill : α) : IsCausal (shiftBy k fill) where
  length := by
    intro l
    rw [shiftBy, length_take, length_append, length_replicate]
    omega
  take := by
    intro l n
    rw [shiftBy, shiftBy, take_take, length_take]
    have hfront : ∀ m ≤ n, (List.replicate k fill ++ l.take n).take m =
        (List.replicate k fill ++ l).take m := by
      intro m hm
      rw [take_append, take_append, take_take, min_eq_left (by omega)]
    exact hfront _ (min_le_left _ _)

/-- A recursion that begins at the `n`-th position, from a figure of the first `n` entries. -/
def seeded (n : ℕ) (fill : β) (seed : List α → β) (step : β → α → β) (l : List α) : List β :=
  if n = 0 ∨ l.length < n then l.map (fun _ ↦ fill)
  else List.replicate (n - 1) fill ++ (l.drop n).scanl step (seed (l.take n))

theorem seeded_eq_along (n : ℕ) (fill : β) (seed : List α → β) (step : β → α → β) (l : List α) :
    seeded n fill seed step l =
      along (fun before ↦ if n = 0 ∨ before.length < n then fill
        else (before.drop n).foldl step (seed (before.take n))) l := by
  refine ext_getElem? (fun i ↦ ?_)
  rcases Nat.lt_or_ge i l.length with hi | hi
  · have hlen : (l.take (i + 1)).length = i + 1 := by
      rw [length_take]
      omega
    rw [getElem?_along hi, hlen, seeded]
    by_cases hshort : n = 0 ∨ l.length < n
    · rw [if_pos hshort, if_pos (by omega), getElem?_map, getElem?_eq_getElem hi,
        Option.map_some]
    · rw [if_neg hshort]
      rcases Nat.lt_or_ge i (n - 1) with hfront | hback
      · rw [if_pos (by omega), getElem?_append_left (by rwa [length_replicate]),
          getElem?_replicate, if_pos hfront]
      · rw [if_neg (by omega), getElem?_append_right (by rwa [length_replicate]),
          length_replicate, getElem?_scanl, if_pos (by rw [length_drop]; omega),
          take_take, min_eq_left (by omega), drop_take, show i + 1 - n = i - (n - 1) by omega]
  · have hlen : (seeded n fill seed step l).length = l.length := by
      rw [seeded]
      split_ifs with hshort
      · rw [length_map]
      · rw [length_append, length_replicate, length_scanl, length_drop]
        omega
    rw [getElem?_along_of_le hi, getElem?_eq_none (by rwa [hlen])]

theorem isCausal_seeded (n : ℕ) (fill : β) (seed : List α → β) (step : β → α → β) :
    IsCausal (seeded n fill seed step) := by
  rw [show seeded n fill seed step = _ from funext (seeded_eq_along n fill seed step)]
  exact isCausal_along _

structure Causal (α β : Type*) where
  toFun : List α → List β
  isCausal : IsCausal toFun

namespace Causal

def ofEntry (g : α → β) : Causal α β := ⟨List.map g, isCausal_map g⟩

def andThen (s : Causal α β) (f : List β → List γ) (hf : IsCausal f) : Causal α γ :=
  ⟨f ∘ s.toFun, hf.comp s.isCausal⟩

def map (g : β → γ) (s : Causal α β) : Causal α γ := s.andThen (List.map g) (isCausal_map g)

def map₂ (h : β → γ → δ) (s : Causal α β) (t : Causal α γ) : Causal α δ :=
  ⟨fun l ↦ List.zipWith h (s.toFun l) (t.toFun l), s.isCausal.zipWith t.isCausal h⟩

end Causal

end Causal

section Trailing

variable {α β : Type*} {period : ℕ} {f : List α → β}

/-- A figure of the last `period` entries, once there are that many. -/
def trailing (period : ℕ) (f : List α → β) (l : List α) : Option β :=
  if l.length < period then none else some (f (newest period l))

theorem trailing_append {front l : List α} (h : front = [] ∨ period ≤ l.length) :
    trailing period f (front ++ l) = trailing period f l := by
  rcases h with rfl | h
  · rfl
  · rw [trailing, trailing, length_append, if_neg (by omega), if_neg (by omega),
      newest_of_suffix (suffix_append front l) h]

theorem trailing_append_iff {front l : List α} :
    trailing period f (front ++ l) = trailing period f l ↔
      (period ≤ (front ++ l).length → period ≤ l.length) := by
  constructor
  · intro heq hlong
    by_contra hshort
    rw [trailing, trailing, if_neg (by omega), if_pos (by omega)] at heq
    cases heq
  · intro h
    by_cases hshort : l.length < period
    · have hboth : (front ++ l).length < period := not_le.mp (fun hle ↦ by have := h hle; omega)
      rw [trailing, trailing, if_pos hboth, if_pos hshort]
    · exact trailing_append (.inr (not_lt.mp hshort))

theorem newest_concat {l : List α} {a b : α} (h : l[l.length - period]? = some b)
    (hle : period ≤ l.length) :
    ∃ mid, newest period l = b :: mid ∧ newest period (l ++ [a]) = mid ++ [a] := by
  obtain ⟨hlt, hb⟩ := List.getElem?_eq_some_iff.mp h
  refine ⟨l.drop (l.length - period + 1), ?_, ?_⟩
  · rw [newest_eq_drop, drop_eq_getElem_cons hlt, hb]
  · have hfirst : (l ++ [a]).length - period = l.length - period + 1 := by
      rw [length_append, length_singleton]
      omega
    rw [newest_eq_drop, hfirst, drop_append_of_le_length (by omega)]

end Trailing

section Ascending

variable {α κ : Type*} [LinearOrder κ] {key : α → κ}

theorem AscendingBy.filter_upTo {l : List α} (h : AscendingBy key l) {i : ℕ} {a : α}
    (ha : l[i]? = some a) : l.filter (fun b ↦ key b ≤ key a) = l.take (i + 1) := by
  obtain ⟨hi, rfl⟩ := List.getElem?_eq_some_iff.mp ha
  have hsplit : l.take (i + 1) ++ l.drop (i + 1) = l := take_append_drop _ l
  have hlast : l.take (i + 1) = l.take i ++ [l[i]] := (take_concat_get' l i hi).symm
  have hasc := h
  rw [← hsplit, hlast] at hasc
  obtain ⟨hfront, -, hcross⟩ := pairwise_append.mp hasc
  have hbelow := (pairwise_append.mp hfront).2.2
  have hkept : (l.take (i + 1)).filter (fun b ↦ key b ≤ key l[i]) = l.take (i + 1) := by
    refine filter_eq_self.mpr (fun b hb ↦ decide_eq_true ?_)
    rw [hlast] at hb
    rcases mem_append.mp hb with hb | hb
    · exact (hbelow b hb l[i] (mem_singleton_self _)).le
    · rw [mem_singleton.mp hb]
  have hgone : (l.drop (i + 1)).filter (fun b ↦ key b ≤ key l[i]) = [] := by
    refine filter_eq_nil_iff.mpr (fun b hb hle ↦ ?_)
    have hlt := hcross l[i] (mem_append_right _ (mem_singleton_self _)) b hb
    exact absurd (of_decide_eq_true hle) (not_le.mpr hlt)
  calc l.filter (fun b ↦ key b ≤ key l[i])
      = (l.take (i + 1) ++ l.drop (i + 1)).filter (fun b ↦ key b ≤ key l[i]) := by rw [hsplit]
    _ = l.take (i + 1) := by rw [filter_append, hkept, hgone, append_nil]

theorem AscendingBy.take_findIdx {l : List α}
    (h : AscendingBy key l) (upper : κ) :
    l.take (l.findIdx (fun a ↦ upper ≤ key a)) = l.filter (fun a ↦ key a < upper) := by
  induction l with
  | nil => rfl
  | cons a rest ih =>
    obtain ⟨ha, hrest⟩ := pairwise_cons.mp h
    rw [findIdx_cons]
    by_cases hle : upper ≤ key a
    · have hnone : rest.filter (fun b ↦ key b < upper) = [] := by
        refine filter_eq_nil_iff.mpr (fun b hb hlt ↦ ?_)
        exact absurd (of_decide_eq_true hlt) (not_lt.mpr (hle.trans (ha b hb).le))
      simp [hle, not_lt.mpr hle, hnone]
    · simp [hle, not_le.mp hle, ih hrest]

theorem AscendingBy.shown {l : List α} (h : AscendingBy key l) (extra : ℕ) {upper : κ}
    {limit k : ℕ} {a : α} (ha : (newest limit (l.filter (fun b ↦ key b < upper)))[k]? = some a) :
    let fetched := newest (limit + extra) (l.filter (fun b ↦ key b < upper))
    fetched[fetched.length - limit + k]? = some a ∧ ∃ front,
      l.filter (fun b ↦ key b ≤ key a) =
        front ++ fetched.take (fetched.length - limit + k + 1) ∧
      (front = [] ∨ extra ≤ fetched.length - limit + k + 1) := by
  dsimp only
  set window := l.filter (fun b ↦ key b < upper) with hwindow
  set fetched := newest (limit + extra) window with hfetched
  have hpage : newest limit window = fetched.drop (fetched.length - limit) := by
    rw [← newest_eq_drop, newest_newest (Nat.le_add_right _ _)]
  rw [hpage, getElem?_drop] at ha
  obtain ⟨front, hsplit, hwhole⟩ :
      ∃ front, front ++ fetched = window ∧ (window.length ≤ limit + extra → front = []) :=
    ⟨_, take_append_newest _ window, fun hle ↦ by rw [Nat.sub_eq_zero_of_le hle, take_zero]⟩
  refine ⟨ha, front, ?_, ?_⟩
  · have hat : window[front.length + (fetched.length - limit + k)]? = some a := by
      rw [← hsplit, getElem?_append_right (Nat.le_add_right _ _), Nat.add_sub_cancel_left, ha]
    have hupper : key a < upper := of_decide_eq_true (mem_filter.mp (mem_of_getElem? hat)).2
    have hsame : l.filter (fun b ↦ key b ≤ key a) = window.filter (fun b ↦ key b ≤ key a) := by
      rw [hwindow, filter_filter]
      refine filter_congr (fun b _ ↦ ?_)
      by_cases hle : key b ≤ key a
      · simp [hle, hle.trans_lt hupper]
      · simp [hle]
    calc l.filter (fun b ↦ key b ≤ key a)
        = window.take (front.length + (fetched.length - limit + k) + 1) := by
          rw [hsame, AscendingBy.filter_upTo (h.filter _) hat]
      _ = front ++ fetched.take (fetched.length - limit + k + 1) := by
          rw [← hsplit, Nat.add_assoc, take_length_add_append]
  · have hlen : fetched.length = min (limit + extra) window.length := length_newest _ _
    rcases le_or_gt window.length (limit + extra) with hshort | hlong
    · exact .inl (hwhole hshort)
    · right
      omega

end Ascending

section Track

variable {α : Type*}

structure Track (α : Type*) where
  last : α
  /-- Newest first. -/
  before : List α

namespace Track

def start (x : α) : Track α := ⟨x, []⟩

def push (track : Track α) (x : α) : Track α := ⟨x, track.last :: track.before⟩

def setLast (track : Track α) (x : α) : Track α := { track with last := x }

def points (track : Track α) : List α := (track.last :: track.before).reverse

variable {track : Track α} {x : α} {k : ℕ}

@[simp] theorem last_start : (start x).last = x := rfl

@[simp] theorem points_start : (start x).points = [x] := rfl

@[simp] theorem last_push : (track.push x).last = x := rfl

@[simp] theorem points_push : (track.push x).points = track.points ++ [x] := by
  simp [points, push]

@[simp] theorem last_setLast : (track.setLast x).last = x := rfl

theorem points_eq : track.points = track.before.reverse ++ [track.last] := by
  rw [points, reverse_cons]

@[simp] theorem getLast?_points : track.points.getLast? = some track.last := by
  rw [points_eq, getLast?_concat]

@[simp] theorem length_setLast : (track.setLast x).points.length = track.points.length := by
  simp [points, setLast]

theorem take_setLast (hk : k < track.points.length) :
    (track.setLast x).points.take k = track.points.take k := by
  have hle : k ≤ track.before.reverse.length := by
    rw [points_eq, length_append, length_singleton] at hk
    exact Nat.le_of_lt_succ hk
  have htake : ∀ y, (track.before.reverse ++ [y]).take k = track.before.reverse.take k :=
    fun y ↦ take_append_of_le_length hle
  rw [points_eq, points_eq, htake]
  exact htake x

end Track

end Track

section IndexLoop

variable {σ τ : Type*}

/-- A loop over the indices from `first` on, when it is about to do `t`. -/
def indexLoop (step : σ → ℕ → σ) (start : σ) (first t : ℕ) : σ :=
  (List.range' first (t - first)).foldl step start

variable {step : σ → ℕ → σ} {start : σ} {first t : ℕ}

theorem indexLoop_of_le (h : t ≤ first) : indexLoop step start first t = start := by
  rw [indexLoop, Nat.sub_eq_zero_of_le h, range'_zero, foldl_nil]

theorem indexLoop_succ (h : first ≤ t) :
    indexLoop step start first (t + 1) = step (indexLoop step start first t) t := by
  rw [indexLoop, Nat.succ_sub h, range'_1_concat, foldl_concat, Nat.add_sub_cancel' h]
  rfl

theorem indexLoop_rel {R : σ → τ → Prop} {step' : τ → ℕ → τ} {start' : τ} {n : ℕ}
    (hstart : R start start')
    (hstep : ∀ s s' i, first ≤ i → i < n → R s s' → R (step s i) (step' s' i)) (ht : t ≤ n) :
    R (indexLoop step start first t) (indexLoop step' start' first t) := by
  induction t with
  | zero => rwa [indexLoop_of_le (Nat.zero_le first), indexLoop_of_le (Nat.zero_le first)]
  | succ t ih =>
    rcases Nat.lt_or_ge t first with hlt | hle
    · rwa [indexLoop_of_le hlt, indexLoop_of_le hlt]
    · rw [indexLoop_succ hle, indexLoop_succ hle]
      exact hstep _ _ t hle ht (ih (Nat.le_of_succ_le ht))

end IndexLoop

end TalaPala.Library
