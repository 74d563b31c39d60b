import TalaPala.Drawings.Request
import TalaPala.Library.Tenancy

namespace TalaPala.Drawings.Api

open Library

def maxDrawingsPerChart : ℕ := 200

def maxDrawingsListed : ℕ := maxDrawingsPerChart + 50

structure DrawingDTO extends StoredDrawing where
  createdAt : ℤ
  updatedAt : ℤ

/-- An insert whose statement has counted its chart; `request` tells the requests of one
user apart. -/
structure CountedInsert where
  request : ℕ
  row : DrawingRow
  now : ℤ

structure NumberedInsert where
  request : ℕ
  drawing : DrawingDTO

structure MissedUpdate where
  request : ℕ
  id : ℤ
  row : DrawingRow

structure State (U : Type*) where
  rows : List (Owned U DrawingDTO)
  nextId : ℤ
  counted : List (Owned U CountedInsert)
  numbered : List (Owned U NumberedInsert)
  missed : List (Owned U MissedUpdate)

inductive Action
  | list (symbol interval : Text)
  /-- The statement of an insert, up to its count. -/
  | create (request : ℕ) (body : Except String DrawingRequest)
  | number (request : ℕ)
  | commit (request : ℕ)
  | update (request : ℕ) (id : Option ℤ) (body : Except String DrawingRequest)
  | explain (request : ℕ)
  | delete (id : Option ℤ)
  /-- A statement or a commit of the request fails. -/
  | fail (request : ℕ)

/-- A step of a request of one user; `served` is what the registry of symbols answers
at that moment, absent when it cannot be read. -/
structure Event (U : Type*) where
  user : U
  now : ℤ
  served : Text → Option Bool
  action : Action

inductive Response
  | list (items : List DrawingDTO) (count limit : ℕ) (truncated : Bool)
  | drawing (status : ℕ) (d : DrawingDTO)
  | noContent
  | error (status : ℕ) (code message : String) (details : List (String × String))

def badRequest (message : String) (details : List (String × String)) : Response :=
  .error 400 "bad_request" message details

def notFound (message : String) : Response := .error 404 "not_found" message []

def conflict (message : String) : Response := .error 409 "conflict" message []

def internal (message : String) : Response := .error 500 "internal_error" message []

def lookupFails (served : Text → Option Bool) (symbol : Text) : Bool :=
  !isTehranChartSymbol symbol && tickSymbolRE symbol && served symbol = none

def drawingChartMismatch (stored : StoredDrawing) (row : DrawingRow) : List (String × String) :=
  (if row.symbol ≠ stored.symbol then
    [("symbol", "drawing belongs to " ++ String.ofList stored.symbol ++
      " and cannot be moved; delete it and draw it on " ++ String.ofList row.symbol)] else []) ++
  (if row.interval ≠ stored.interval then
    [("interval", "drawing belongs to the " ++ String.ofList stored.interval ++
      " chart and cannot be moved; delete it and draw it on " ++ String.ofList row.interval)]
    else [])

section Handlers

variable (letters : Letters) (doubles : Doubles) (served : Text → Option Bool)

def validateDrawing : Except String DrawingRequest → Except Response DrawingRow
  | .error reason => .error (badRequest "invalid JSON body" [("reason", reason)])
  | .ok req =>
    if lookupFails served (normalizeChartSymbol letters req.symbol) then
      .error (internal "database error")
    else
      match validateDrawingRequest letters doubles (fun s ↦ served s = some true) req with
      | .ok row => .ok row
      | .error problems => .error (badRequest "invalid drawing" problems)

def Storable (row : DrawingRow) : Prop :=
  row.points.jsonb.isSome ∧ row.style.jsonb.isSome

instance (row : DrawingRow) : Decidable (Storable row) :=
  inferInstanceAs (Decidable (_ ∧ _))

variable {U : Type*} [DecidableEq U]

/-- `WHERE user_id = $1 AND symbol = $2 AND "interval" = $3`. -/
def onChart (u : U) (symbol interval : Text) (r : Owned U DrawingDTO) : Bool :=
  r.owner = u && r.row.symbol = symbol && r.row.interval = interval

def updated (u : U) (id now : ℤ) (row : DrawingRow) (r : Owned U DrawingDTO) :
    Option DrawingDTO := do
  if r.row.id = id ∧ r.owner = u then
    let d ← updateDrawing r.row.toStoredDrawing row
    return ⟨d, r.row.createdAt, now⟩
  else none

variable (s : State U) (u : U)

def listDrawings (symbol interval : Text) : Response :=
  let symbol := normalizeChartSymbol letters symbol
  let interval := (trimSpace interval).map letters.toLower
  if lookupFails served symbol then internal "database error"
  else
    match drawingChartProblems (fun s ↦ served s = some true) symbol interval with
    | [] =>
      let rows := (s.rows.filter (onChart u symbol interval)).map Owned.row
      -- One row more than is shown tells that the chart holds more.
      let items := (rows.mergeSort (fun a b ↦ a.id ≤ b.id)).take (maxDrawingsListed + 1)
      let shown := items.take maxDrawingsListed
      .list shown shown.length maxDrawingsListed (maxDrawingsListed < items.length)
    | problems => badRequest "invalid drawing query" problems

def createDrawing (request : ℕ) (now : ℤ) (body : Except String DrawingRequest) :
    State U × Option Response :=
  match validateDrawing letters doubles served body with
  | .error response => (s, some response)
  | .ok row =>
    if ¬Storable row then (s, some (internal "database error"))
    else if s.rows.countP (onChart u row.symbol row.interval) < maxDrawingsPerChart then
      ({ s with counted := s.counted ++ [⟨u, ⟨request, row, now⟩⟩] }, none)
    else (s, some (conflict ("drawing limit reached (" ++ toString maxDrawingsPerChart ++
      " per symbol and interval)")))

def numberedRow (request : ℕ) : Option NumberedInsert :=
  (s.counted.find? (fun c ↦ c.owner = u && c.row.request = request)).bind (fun c ↦
    (insertDrawing s.nextId c.row.row).map (fun d ↦ ⟨request, d, c.row.now, c.row.now⟩))

def numberInsert (request : ℕ) : State U :=
  match numberedRow s u request with
  | none => s
  | some n =>
    { s with
      nextId := s.nextId + 1
      counted := s.counted.eraseP (fun c ↦ c.owner = u && c.row.request = request)
      numbered := s.numbered ++ [⟨u, n⟩] }

def commitInsert (request : ℕ) : State U × Option Response :=
  let mine : Owned U NumberedInsert → Bool := fun n ↦ n.owner = u && n.row.request = request
  match s.numbered.find? mine with
  | none => (s, none)
  | some n =>
    ({ s with
        rows := s.rows ++ [⟨u, n.row.drawing⟩]
        numbered := s.numbered.eraseP mine }, some (.drawing 201 n.row.drawing))

def updateDrawingHandler (request : ℕ) (id : Option ℤ) (now : ℤ)
    (body : Except String DrawingRequest) : State U × Option Response :=
  match id with
  | none => (s, some (badRequest "invalid drawing id" []))
  | some id =>
    match validateDrawing letters doubles served body with
    | .error response => (s, some response)
    | .ok row =>
      if ¬Storable row then (s, some (internal "database error"))
      else
        match s.rows.findSome? (updated u id now row) with
        | none => ({ s with missed := s.missed ++ [⟨u, ⟨request, id, row⟩⟩] }, none)
        | some d =>
          ({ s with
              rows := s.rows.map (fun r ↦ ⟨r.owner, (updated u id now row r).getD r.row⟩) },
            some (.drawing 200 d))

def updateDrawingNoRows (request : ℕ) : State U × Option Response :=
  let mine : Owned U MissedUpdate → Bool := fun m ↦ m.owner = u && m.row.request = request
  match s.missed.find? mine with
  | none => (s, none)
  | some m =>
    ({ s with missed := s.missed.eraseP mine },
      match s.rows.find? (fun r ↦ r.row.id = m.row.id && r.owner = u) with
      | none => some (notFound "drawing not found")
      | some r =>
        match drawingChartMismatch r.row.toStoredDrawing m.row.row with
        -- The row stands on the chart that was named: it was not there a moment before.
        | [] => some (notFound "drawing not found")
        | problems => some (badRequest "a drawing cannot be moved to another chart" problems))

def deleteDrawing (id : Option ℤ) : State U × Response :=
  match id with
  | none => (s, badRequest "invalid drawing id" [])
  | some id =>
    let named : Owned U DrawingDTO → Bool := fun r ↦ r.row.id = id && r.owner = u
    ({ s with rows := s.rows.filter (fun r ↦ !named r) },
      if s.rows.countP named = 0 then notFound "drawing not found" else .noContent)

def failRequest (request : ℕ) : State U :=
  { s with
    counted := s.counted.eraseP (fun c ↦ c.owner = u && c.row.request = request)
    numbered := s.numbered.eraseP (fun n ↦ n.owner = u && n.row.request = request)
    missed := s.missed.eraseP (fun m ↦ m.owner = u && m.row.request = request) }

def step (e : Event U) : State U × Option Response :=
  match e.action with
  | .list symbol interval => (s, some (listDrawings letters e.served s e.user symbol interval))
  | .create request body => createDrawing letters doubles e.served s e.user request e.now body
  | .number request => (numberInsert s e.user request, none)
  | .commit request => commitInsert s e.user request
  | .update request id body =>
    updateDrawingHandler letters doubles e.served s e.user request id e.now body
  | .explain request => updateDrawingNoRows s e.user request
  | .delete id => ((deleteDrawing s e.user id).1, some (deleteDrawing s e.user id).2)
  | .fail request => (failRequest s e.user request, some (internal "database error"))

end Handlers

section Runs

variable (letters : Letters) (doubles : Doubles) {U : Type*} [DecidableEq U]

def State.empty : State U := ⟨[], 1, [], [], []⟩

def run (s : State U) (es : List (Event U)) : State U :=
  es.foldl (fun s e ↦ (step letters doubles s e).1) s

def State.inFlight (s : State U) (u : U) : ℕ :=
  (Owned.own u s.counted).length + (Owned.own u s.numbered).length

def peakInFlight (u : U) : State U → List (Event U) → ℕ
  | s, [] => s.inFlight u
  | s, e :: es => max (s.inFlight u) (peakInFlight u (step letters doubles s e).1 es)

def handedOut (u : U) : State U → List (Event U) → List ℤ
  | _, [] => []
  | s, e :: es =>
    let next := (step letters doubles s e).1
    (if e.user = u ∧ next.nextId ≠ s.nextId then [s.nextId] else []) ++ handedOut u next es

end Runs

section Renaming

variable (ρ : ℤ → ℤ) {U : Type*}

def DrawingDTO.rename (d : DrawingDTO) : DrawingDTO :=
  ⟨{ d.toStoredDrawing with id := ρ d.id }, d.createdAt, d.updatedAt⟩

def Action.rename : Action → Action
  | .update request id body => .update request (id.map ρ) body
  | .delete id => .delete (id.map ρ)
  | action => action

def Event.rename (e : Event U) : Event U := { e with action := e.action.rename ρ }

def Response.rename : Response → Response
  | .list items count limit truncated => .list (items.map (·.rename ρ)) count limit truncated
  | .drawing status d => .drawing status (d.rename ρ)
  | response => response

end Renaming

end TalaPala.Drawings.Api
