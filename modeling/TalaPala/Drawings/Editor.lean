import TalaPala.Drawings.Model
import TalaPala.Library.Transition
import TalaPala.Library.Writes
import Mathlib.Data.Finset.Basic

namespace TalaPala.Drawings

open Library

section State

inductive Source
  | gesture | history
  deriving DecidableEq

inductive Request
  | post (source : Source) (localId : ℤ) (body : DrawingRequestBody)
  | put (id : ℤ) (body : DrawingRequestBody)
  | delete (source : Source) (id : ℤ)

inductive Response
  | posted (source : Source) (localId : ℤ) (row : ChartDrawing)
  | saved (row : ChartDrawing)
  | deleted (source : Source) (id : ℤ) (found : Bool)

structure System where
  history : DrawingHistory
  baseline : Finset ℤ
  pending : Finset ℤ
  localSeq : ℤ
  intervalSeconds : ℚ
  rows : ℤ → Option DrawingRequestBody
  nextRow : ℤ
  requests : List Request
  responses : List Response

def maxDrawingsListed : ℕ := 250

structure Chart where
  rows : List ChartDrawing
  nextRow : ℤ
  listed : rows.length ≤ maxDrawingsListed
  unique : (rows.map ChartDrawing.id).Nodup
  serial : ∀ row ∈ rows, 0 < row.id ∧ row.id < nextRow
  positive : 0 < nextRow
  readable : ∀ row ∈ rows, row.body.readable = true

def System.start (chart : Chart) (intervalSeconds : ℚ) : System :=
  let parsed := parseDrawings chart.rows
  { history := emptyHistory parsed, baseline := (parsed.map Drawing.id).toFinset, pending := ∅
    localSeq := 0, intervalSeconds := intervalSeconds
    rows := fun id ↦ (chart.rows.find? (fun row ↦ row.id = id)).map ChartDrawing.body
    nextRow := chart.nextRow, requests := [], responses := [] }

end State

def duplicateOffsetBars : ℚ := 2

namespace System

variable (s : System)

def found (id : ℤ) : Option Drawing := s.history.present.find? (fun d ↦ d.id = id)

def scheduleUpdate (id : ℤ) : System := { s with pending := insert id s.pending }

def flushUpdate (id : ℤ) : System :=
  match s.found id with
  | none => s
  | some current =>
    if isPersistedId id then
      { s with requests := s.requests ++ [.put id (toRequestBody current)] }
    else s

def optimistic (draft : DrawingDraft) : Drawing where
  id := s.localSeq - 1
  type := draft.type
  points := draft.points.map (fun p ↦ ⟨mathRound p.t, p.price⟩)
  style := draft.style
  locked := false
  visible := true

def create (draft : DrawingDraft) : System :=
  if isValidDraft draft then
    let optimistic := s.optimistic draft
    { s with
      history := pushHistory s.history (s.history.present ++ [optimistic])
      localSeq := optimistic.id
      requests := s.requests ++ [.post .gesture optimistic.id (toRequestBody optimistic)] }
  else s

def replace (next : Drawing) : System :=
  let history :=
    if s.history.present.any (fun d ↦ d.id = next.id) then
      pushHistory s.history (s.history.present.map (fun d ↦ if d.id = next.id then next else d))
    else s.history
  let s := { s with history := history }
  if isPersistedId next.id then s.scheduleUpdate next.id else s

def remove (id : ℤ) : System :=
  match s.found id with
  | none => s
  | some _ =>
    let s :=
      { s with
        history := pushHistory s.history (s.history.present.filter (fun d ↦ d.id ≠ id))
        pending := s.pending.erase id }
    if isPersistedId id then { s with requests := s.requests ++ [.delete .gesture id] } else s

def duplicate (id : ℤ) : System :=
  match s.found id with
  | none => s
  | some source =>
    let copy := offsetDrawing source (s.intervalSeconds * duplicateOffsetBars)
    s.create ⟨copy.type, copy.points, copy.style⟩

end System

def syncTo (old new : List Drawing) : List Request :=
  let diff := diffDrawings old new
  (diff.deleted.filter (fun d ↦ isPersistedId d.id)).map (fun d ↦ .delete .history d.id) ++
    (diff.updated.filter (fun d ↦ isPersistedId d.id)).map (fun d ↦ .put d.id (toRequestBody d)) ++
    diff.created.map (fun d ↦ .post .history d.id (toRequestBody d))

namespace System

variable (s : System)

def moveTo (next : DrawingHistory) : System :=
  { s with history := next, requests := s.requests ++ syncTo s.history.present next.present }

def undo : System := if canUndo s.history then s.moveTo (undoHistory s.history) else s

def redo : System := if canRedo s.history then s.moveTo (redoHistory s.history) else s

def showAll : System :=
  let hidden := s.history.present.filter (fun d ↦ !d.visible)
  if hidden = [] then s
  else
    { s with
      history := pushHistory s.history
        (s.history.present.map (fun d ↦ if d.visible then d else { d with visible := true }))
      pending := s.pending ∪ ((hidden.map Drawing.id).filter isPersistedId).toFinset }

def fire (id : ℤ) : System := { s with pending := s.pending.erase id }.flushUpdate id

def accepts : Request → Bool
  | .post _ _ body => body.readable
  | .put id body => body.readable ∧ (s.rows id).isSome
  | .delete _ _ => true

def serve (skipped : ℕ) : Request → System
  | .post source localId body =>
    let id := s.nextRow + skipped
    { s with
      rows := Function.update s.rows id (some body), nextRow := id + 1
      responses := s.responses ++ [.posted source localId ⟨id, body⟩] }
  | .put id body =>
    { s with
      rows := (Write.put id body).apply s.rows
      responses := s.responses ++ [.saved ⟨id, body⟩] }
  | .delete source id =>
    { s with
      rows := (Write.drop id).apply s.rows
      responses := s.responses ++ [.deleted source id (s.rows id).isSome] }

end System

def moved (live saved : Drawing) : Bool :=
  live.points.zipIdx.any (fun p ↦ saved.points[p.2]? ≠ some p.1)

namespace System

variable (s : System)

def arrivePosted (source : Source) (localId : ℤ) (row : ChartDrawing) : System :=
  match parseDrawing row with
  | none => s
  | some saved =>
    let remapped :=
      { s with
        baseline := insert saved.id s.baseline
        history := remapHistoryId s.history localId saved.id }
    match source with
    | .history => remapped
    | .gesture =>
      match s.found localId with
      | none => remapped
      | some live => if moved live saved then remapped.scheduleUpdate saved.id else remapped

def arrive : Response → System
  | .posted source localId row => s.arrivePosted source localId row
  | .saved row =>
    match parseDrawing row with
    | none => s
    | some saved => { s with baseline := insert saved.id s.baseline }
  | .deleted source id found =>
    if found ∨ source = .gesture then { s with baseline := s.baseline.erase id } else s

end System

inductive Event
  | create (draft : DrawingDraft)
  | replace (next : Drawing)
  | remove (id : ℤ)
  | duplicate (id : ℤ)
  | undo
  | redo
  | showAll
  | fire (id : ℤ)
  | serve (i skipped : ℕ)
  | arrive (i : ℕ)

def next (s : System) : Event → Option System
  | .create draft => some (s.create draft)
  | .replace next => some (s.replace next)
  | .remove id => some (s.remove id)
  | .duplicate id => some (s.duplicate id)
  | .undo => some s.undo
  | .redo => some s.redo
  | .showAll => some s.showAll
  | .fire id => if id ∈ s.pending then some (s.fire id) else none
  | .serve i skipped =>
    match s.requests[i]? with
    | none => none
    | some r =>
      if s.accepts r then some ({ s with requests := s.requests.eraseIdx i }.serve skipped r)
      else none
  | .arrive i =>
    (s.responses[i]?).map (fun r ↦ { s with responses := s.responses.eraseIdx i }.arrive r)

def Quiescent (s : System) : Prop := s.requests = [] ∧ s.responses = [] ∧ s.pending = ∅

instance (s : System) : Decidable (Quiescent s) := inferInstanceAs (Decidable (_ ∧ _ ∧ _))

def Held (s : System) : Prop :=
  (s.history.present.map Drawing.id).Nodup ∧
    ∀ id body, s.rows id = some body ↔
      ∃ d ∈ s.history.present, d.id = id ∧ toRequestBody d = body

end TalaPala.Drawings
