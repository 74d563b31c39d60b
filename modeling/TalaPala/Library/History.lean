import Mathlib.Data.List.Basic

namespace TalaPala.Library

open List

structure History (α : Type*) where
  past : List α
  present : α
  future : List α

namespace History

variable {α β : Type*}

def start (a : α) : History α := ⟨[], a, []⟩

def push (same : α → α → Bool) (limit : ℕ) (h : History α) (next : α) : History α :=
  if same h.present next then h
  else
    { past := (h.past ++ [h.present]).drop (h.past.length + 1 - limit)
      present := next, future := [] }

def undo (h : History α) : History α :=
  match h.past.getLast? with
  | none => h
  | some last => ⟨h.past.dropLast, last, h.present :: h.future⟩

def redo (h : History α) : History α :=
  match h.future with
  | [] => h
  | first :: rest => ⟨h.past ++ [h.present], first, rest⟩

def map (f : α → β) (h : History α) : History β := ⟨h.past.map f, f h.present, h.future.map f⟩

def depth (h : History α) : ℕ := h.past.length + h.future.length

variable {same : α → α → Bool} {limit : ℕ} {h : History α} {next : α}

theorem push_of_same (hsame : same h.present next = true) : push same limit h next = h :=
  if_pos hsame

theorem push_of_new (hlimit : 0 < limit) (hnew : same h.present next = false) :
    push same limit h next =
      ⟨h.past.drop (h.past.length + 1 - limit) ++ [h.present], next, []⟩ := by
  rw [push, hnew, if_neg Bool.false_ne_true, drop_append_of_le_length (by omega)]

theorem undo_of_nil (hpast : h.past = []) : undo h = h := by
  rw [undo, hpast]
  rfl

theorem undo_concat {past future : List α} {last present : α} :
    undo ⟨past ++ [last], present, future⟩ = ⟨past, last, present :: future⟩ := by
  simp [undo]

theorem redo_undo (hpast : h.past ≠ []) : redo (undo h) = h := by
  obtain ⟨past, present, future⟩ := h
  obtain ⟨front, last, rfl⟩ := eq_nil_or_concat past |>.resolve_left hpast
  rw [concat_eq_append, undo_concat]
  rfl

theorem undo_push (hlimit : 0 < limit) (hnew : same h.present next = false) :
    undo (push same limit h next) =
      ⟨h.past.drop (h.past.length + 1 - limit), h.present, [next]⟩ := by
  rw [push_of_new hlimit hnew, undo_concat]

theorem redo_undo_push (hlimit : 0 < limit) (hnew : same h.present next = false) :
    redo (undo (push same limit h next)) = push same limit h next := by
  refine redo_undo ?_
  rw [push_of_new hlimit hnew]
  exact append_ne_nil_of_right_ne_nil _ (cons_ne_nil _ _)

section Depth

theorem length_past_le_depth : h.past.length ≤ h.depth := Nat.le_add_right _ _

theorem depth_push (h' : h.depth ≤ limit) : (push same limit h next).depth ≤ limit := by
  rw [push]
  split
  · exact h'
  · simp only [depth, length_drop, length_append, length_singleton, length_nil]
    omega

theorem depth_undo : (undo h).depth = h.depth := by
  by_cases hpast : h.past = []
  · rw [undo_of_nil hpast]
  · obtain ⟨past, present, future⟩ := h
    obtain ⟨front, last, rfl⟩ := eq_nil_or_concat past |>.resolve_left hpast
    rw [concat_eq_append, undo_concat]
    simp only [depth, length_append, length_cons, length_nil]
    omega

theorem depth_redo : (redo h).depth = h.depth := by
  obtain ⟨past, present, future⟩ := h
  cases future with
  | nil => rfl
  | cons first rest =>
    simp only [redo, depth, length_append, length_cons, length_nil]
    omega

theorem depth_map (f : α → β) : (map f h).depth = h.depth := by
  rw [map, depth, depth, length_map, length_map]

end Depth

section Rewriting

variable {same' : β → β → Bool} {f : α → β}

theorem map_undo : map f (undo h) = undo (map f h) := by
  by_cases hpast : h.past = []
  · rw [undo_of_nil hpast, undo_of_nil (map_eq_nil_iff.mpr hpast)]
  · obtain ⟨past, present, future⟩ := h
    obtain ⟨front, last, rfl⟩ := eq_nil_or_concat past |>.resolve_left hpast
    rw [concat_eq_append, undo_concat, map, map]
    dsimp only
    rw [map_append, map_singleton, undo_concat, map_cons]

theorem map_redo : map f (redo h) = redo (map f h) := by
  obtain ⟨past, present, future⟩ := h
  cases future with
  | nil => rfl
  | cons first rest => simp [redo, map]

theorem map_push (hsame : same' (f h.present) (f next) = same h.present next) :
    map f (push same limit h next) = push same' limit (map f h) (f next) := by
  by_cases hrecorded : same h.present next = true
  · rw [push_of_same hrecorded, push_of_same (hsame.trans hrecorded)]
  · have hnew : same' (map f h).present (f next) = same h.present next := hsame
    rw [push, push, hnew, if_neg hrecorded, if_neg hrecorded, map, map]
    simp only [map_drop, map_append, map_cons, map_nil, length_map]

end Rewriting

end History

end TalaPala.Library
