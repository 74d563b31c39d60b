import TalaPala.Library.Ledger
import Mathlib.Data.Rat.Floor
import Mathlib.Data.String.Basic

namespace TalaPala.Drawings

open Library List

inductive DrawingType
  | trendLine | horizontalLine | verticalLine | rectangle | priceRange | dateRange | measure
  | fibRetracement | text
  deriving DecidableEq

def drawingPointCounts : DrawingType → ℕ
  | .trendLine => 2
  | .horizontalLine => 1
  | .verticalLine => 1
  | .rectangle => 2
  | .priceRange => 2
  | .dateRange => 2
  | .measure => 2
  | .fibRetracement => 2
  | .text => 1

def maxDrawingTime : ℚ := 10 ^ 12

structure DrawingPoint where
  t : ℚ
  price : ℚ
  deriving DecidableEq

structure StoredPoint where
  t : ℤ
  price : ℚ
  deriving DecidableEq

abbrev DrawingStyle := String

structure Drawing where
  id : ℤ
  type : DrawingType
  points : List DrawingPoint
  style : DrawingStyle
  locked : Bool
  visible : Bool
  deriving DecidableEq

structure DrawingDraft where
  type : DrawingType
  points : List DrawingPoint
  style : DrawingStyle

structure DrawingRequestBody where
  drawingType : DrawingType
  points : List StoredPoint
  style : DrawingStyle
  locked : Bool
  visible : Bool
  deriving DecidableEq

structure ChartDrawing where
  id : ℤ
  body : DrawingRequestBody

section Bodies

def validPoint (p : DrawingPoint) : Bool := |p.t| ≤ maxDrawingTime

def validPoints (type : DrawingType) (points : List DrawingPoint) : Bool :=
  points.length = drawingPointCounts type ∧ points.all validPoint

def isValidDraft (draft : DrawingDraft) : Bool := validPoints draft.type draft.points

def StoredPoint.read (p : StoredPoint) : DrawingPoint := ⟨p.t, p.price⟩

def DrawingRequestBody.readable (body : DrawingRequestBody) : Bool :=
  validPoints body.drawingType (body.points.map StoredPoint.read)

def parseDrawing (raw : ChartDrawing) : Option Drawing :=
  if raw.body.readable then
    some
      { id := raw.id, type := raw.body.drawingType, points := raw.body.points.map StoredPoint.read
        style := raw.body.style, locked := raw.body.locked, visible := raw.body.visible }
  else none

def parseDrawings (rows : List ChartDrawing) : List Drawing := rows.filterMap parseDrawing

/-- `Math.round`, whose ties go up. -/
def mathRound (x : ℚ) : ℤ := ⌊x + 1 / 2⌋

def DrawingPoint.stored (p : DrawingPoint) : StoredPoint := ⟨mathRound p.t, p.price⟩

def toRequestBody (d : Drawing) : DrawingRequestBody where
  drawingType := d.type
  points := d.points.map DrawingPoint.stored
  style := d.style
  locked := d.locked
  visible := d.visible

def isPersistedId (id : ℤ) : Bool := 0 < id

def moveDrawing (d : Drawing) (dt dPrice : ℚ) : Drawing :=
  { d with points := d.points.map (fun p ↦ ⟨p.t + dt, p.price + dPrice⟩) }

def offsetDrawing (d : Drawing) (dt : ℚ) : Drawing := moveDrawing d dt 0

theorem mathRound_intCast (n : ℤ) : mathRound n = n := by
  rw [mathRound, Int.floor_eq_iff]
  constructor <;> linarith

theorem stored_read (p : StoredPoint) : p.read.stored = p := by
  rw [StoredPoint.read, DrawingPoint.stored, mathRound_intCast]

theorem map_stored_read (l : List StoredPoint) :
    (l.map StoredPoint.read).map DrawingPoint.stored = l := by
  rw [map_map]
  exact (map_congr_left (fun p _ ↦ stored_read p)).trans l.map_id

theorem parseDrawing_of_readable {raw : ChartDrawing} (h : raw.body.readable = true) :
    ∃ d, parseDrawing raw = some d ∧ d.id = raw.id ∧ toRequestBody d = raw.body := by
  refine ⟨_, by rw [parseDrawing, if_pos h], rfl, ?_⟩
  rw [toRequestBody, map_stored_read]

theorem of_parseDrawing {raw : ChartDrawing} {d : Drawing} (h : parseDrawing raw = some d) :
    d.id = raw.id ∧ toRequestBody d = raw.body := by
  by_cases hr : raw.body.readable = true
  · obtain ⟨d', hd', hid, hbody⟩ := parseDrawing_of_readable hr
    obtain rfl := Option.some.inj (hd'.symm.trans h)
    exact ⟨hid, hbody⟩
  · rw [parseDrawing, if_neg hr] at h
    cases h

end Bodies

section History

structure DrawingHistory where
  past : List (List Drawing)
  present : List Drawing
  future : List (List Drawing)

def historyLimit : ℕ := 50

def emptyHistory (present : List Drawing) : DrawingHistory := ⟨[], present, []⟩

def drawingsEqual (a b : Drawing) : Bool :=
  a.id = b.id ∧ a.type = b.type ∧ a.locked = b.locked ∧ a.visible = b.visible ∧
    a.points.length = b.points.length ∧
    (a.points.zip b.points).all (fun p ↦ p.1.t = p.2.t ∧ p.1.price = p.2.price) ∧
    a.style = b.style

def sameDrawingSet (a b : List Drawing) : Bool :=
  a.length = b.length ∧ (a.zip b).all (fun d ↦ drawingsEqual d.1 d.2)

def pushHistory (h : DrawingHistory) (next : List Drawing) : DrawingHistory :=
  if sameDrawingSet h.present next then h
  else
    let past := h.past ++ [h.present]
    { past := if past.length > historyLimit then past.drop (past.length - historyLimit) else past
      present := next, future := [] }

def undoHistory (h : DrawingHistory) : DrawingHistory :=
  match h.past.getLast? with
  | none => h
  | some last => ⟨h.past.dropLast, last, h.present :: h.future⟩

def redoHistory (h : DrawingHistory) : DrawingHistory :=
  match h.future with
  | [] => h
  | first :: rest => ⟨h.past ++ [h.present], first, rest⟩

def canUndo (h : DrawingHistory) : Bool := h.past ≠ []

def canRedo (h : DrawingHistory) : Bool := h.future ≠ []

def Drawing.swap (old new : ℤ) (d : Drawing) : Drawing := if d.id = old then { d with id := new } else d

def remapHistoryId (h : DrawingHistory) (old new : ℤ) : DrawingHistory where
  past := h.past.map (List.map (Drawing.swap old new))
  present := h.present.map (Drawing.swap old new)
  future := h.future.map (List.map (Drawing.swap old new))

def DrawingHistory.sets (h : DrawingHistory) : List (List Drawing) := h.present :: (h.past ++ h.future)

theorem zip_all_eq_iff {α : Type*} {p : α × α → Bool} {l l' : List α}
    (hp : ∀ a b, p (a, b) = true ↔ a = b) :
    (l.length = l'.length ∧ (l.zip l').all p = true) ↔ l = l' := by
  induction l generalizing l' with
  | nil => cases l' <;> simp
  | cons a l ih =>
    cases l' with
    | nil => simp
    | cons b l' =>
      rw [zip_cons_cons, all_cons, Bool.and_eq_true, hp, length_cons,
        length_cons, Nat.add_right_cancel_iff, List.cons.injEq, ← ih]
      tauto

theorem drawingsEqual_iff {a b : Drawing} : drawingsEqual a b = true ↔ a = b := by
  have hpoint : ∀ p q : DrawingPoint,
      decide (p.t = q.t ∧ p.price = q.price) = true ↔ p = q := by
    intro p q
    cases p
    cases q
    simp
  have hpoints : (a.points.length = b.points.length ∧
      (a.points.zip b.points).all (fun p ↦ p.1.t = p.2.t ∧ p.1.price = p.2.price) = true) ↔
        a.points = b.points := zip_all_eq_iff hpoint
  rw [drawingsEqual, decide_eq_true_iff]
  constructor
  · rintro ⟨hid, htype, hlocked, hvisible, hlength, hall, hstyle⟩
    have heq := hpoints.mp ⟨hlength, hall⟩
    cases a
    cases b
    simp_all
  · rintro rfl
    obtain ⟨hlength, hall⟩ := hpoints.mpr rfl
    exact ⟨rfl, rfl, rfl, rfl, hlength, hall, rfl⟩

theorem sameDrawingSet_iff {a b : List Drawing} : sameDrawingSet a b = true ↔ a = b := by
  rw [sameDrawingSet, decide_eq_true_iff]
  exact zip_all_eq_iff (fun _ _ ↦ drawingsEqual_iff)

theorem pushHistory_present (h : DrawingHistory) (next : List Drawing) :
    (pushHistory h next).present = next := by
  rw [pushHistory]
  split
  · rename_i hsame
    exact sameDrawingSet_iff.mp hsame
  · rfl

theorem mem_sets_push {h : DrawingHistory} {next l : List Drawing}
    (hl : l ∈ (pushHistory h next).sets) : l = next ∨ l ∈ h.sets := by
  rw [DrawingHistory.sets, pushHistory_present] at hl
  rcases mem_cons.mp hl with rfl | hl
  · exact .inl rfl
  · right
    rw [pushHistory] at hl
    split at hl
    · exact mem_cons_of_mem _ hl
    · dsimp only at hl
      rw [append_nil] at hl
      have hpast : l ∈ h.past ++ [h.present] := by
        split at hl
        · exact mem_of_mem_drop hl
        · exact hl
      rcases mem_append.mp hpast with hpast | hpast
      · exact mem_cons_of_mem _ (mem_append_left _ hpast)
      · exact mem_singleton.mp hpast ▸ mem_cons_self

theorem mem_sets_undo {h : DrawingHistory} {l : List Drawing} (hl : l ∈ (undoHistory h).sets) :
    l ∈ h.sets := by
  rw [undoHistory] at hl
  split at hl
  · exact hl
  · rename_i last hlast
    obtain ⟨front, hfront⟩ := getLast?_eq_some_iff.mp hlast
    simp only [DrawingHistory.sets, hfront, dropLast_concat, mem_cons, mem_append,
      not_mem_nil, or_false] at hl ⊢
    tauto

theorem mem_sets_redo {h : DrawingHistory} {l : List Drawing} (hl : l ∈ (redoHistory h).sets) :
    l ∈ h.sets := by
  rw [redoHistory] at hl
  split at hl
  · exact hl
  · rename_i first rest hfuture
    rw [DrawingHistory.sets, hfuture]
    simp only [DrawingHistory.sets, mem_cons, mem_append] at hl ⊢
    tauto

theorem sets_remap (h : DrawingHistory) (old new : ℤ) :
    (remapHistoryId h old new).sets = h.sets.map (List.map (Drawing.swap old new)) := by
  simp [DrawingHistory.sets, remapHistoryId]

theorem present_mem_sets (h : DrawingHistory) : h.present ∈ h.sets := mem_cons_self

end History

section Diff

structure DrawingDiff where
  created : List Drawing
  updated : List Drawing
  deleted : List Drawing

def byId (l : List Drawing) (id : ℤ) : Option Drawing := lastOf (fun d ↦ d.id = id) l

def diffDrawings (old new : List Drawing) : DrawingDiff where
  created := new.filter (fun d ↦ (byId old d.id).isNone)
  updated := new.filter (fun d ↦ (byId old d.id).any (fun prev ↦ !drawingsEqual prev d))
  deleted := old.filter (fun d ↦ (byId new d.id).isNone)

theorem byId_eq_none {l : List Drawing} {id : ℤ} : byId l id = none ↔ id ∉ l.map Drawing.id := by
  rw [byId, lastOf, getLast?_eq_none_iff, filter_eq_nil_iff]
  simp

theorem byId_eq_some {l : List Drawing} (h : (l.map Drawing.id).Nodup) {d : Drawing} (hd : d ∈ l) :
    byId l d.id = some d := by
  cases hfound : byId l d.id with
  | none => exact absurd (mem_map_of_mem hd) (byId_eq_none.mp hfound)
  | some d' =>
    obtain ⟨hd', hid⟩ := mem_of_lastOf hfound
    rw [inj_on_of_nodup_map h hd' hd (of_decide_eq_true hid)]

theorem mem_created {old new : List Drawing} {d : Drawing} :
    d ∈ (diffDrawings old new).created ↔ d ∈ new ∧ d.id ∉ old.map Drawing.id := by
  rw [diffDrawings, mem_filter, Option.isNone_iff_eq_none, byId_eq_none]

theorem mem_deleted {old new : List Drawing} {d : Drawing} :
    d ∈ (diffDrawings old new).deleted ↔ d ∈ old ∧ d.id ∉ new.map Drawing.id := by
  rw [diffDrawings, mem_filter, Option.isNone_iff_eq_none, byId_eq_none]

theorem mem_updated {old new : List Drawing} (h : (old.map Drawing.id).Nodup) {d prev : Drawing}
    (hprev : prev ∈ old) (hid : prev.id = d.id) :
    d ∈ (diffDrawings old new).updated ↔ d ∈ new ∧ prev ≠ d := by
  have hfound : byId old d.id = some prev := hid ▸ byId_eq_some h hprev
  rw [diffDrawings, mem_filter, hfound, Option.any_some, Bool.not_eq_true', ← Bool.not_eq_true,
    drawingsEqual_iff]

end Diff

end TalaPala.Drawings
