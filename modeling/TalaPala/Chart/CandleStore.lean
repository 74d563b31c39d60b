import TalaPala.Chart.Candles
import TalaPala.Library.Transition

namespace TalaPala.Chart

open Library

section Server

structure Series (k : ChartKey) (r : Revision) where
  bars : List ChartCandle
  spaced : bars.Pairwise (fun a b ↦ a.t + intervalSeconds k.interval ≤ b.t)
  origin : ∀ c ∈ bars, c.origin = (k, r)

structure Server where
  revision : ChartKey → Revision
  series : (k : ChartKey) → (r : Revision) → Series k r

structure Server.Moves (s s' : Server) : Prop where
  grows : ∀ k r, times (s.series k r).bars <+: times (s'.series k r).bars
  kind : ∀ k, (s'.revision k).isSome = (s.revision k).isSome

structure Page where
  candles : List ChartCandle
  hasMore : Bool
  nextBefore : Option ℤ
  revision : Revision
  asOf : String

def Server.page (s : Server) (k : ChartKey) (before : Option ℤ) (limit : ℕ) (asOf : String) :
    Page :=
  let all := (s.series k (s.revision k)).bars.filter (fun c ↦ before.all (c.t < ·))
  let candles := newest limit all
  { candles := candles, hasMore := limit < all.length, nextBefore := (times candles).head?
    revision := s.revision k, asOf := asOf }

end Server

section Store

inductive Reply
  | page (p : Page)
  | failed (message : String) (status : Option ℕ)

inductive RequestKind
  | main
  | older (cursor : ℤ)
  | tail

/-- A request; `load` is how many main loads had been started when it was sent. -/
structure Request where
  id : ℕ
  kind : RequestKind
  key : ChartKey
  load : ℕ
  aborted : Bool
  reply : Option Reply

structure Info where
  asOf : Option String
  hasMore : Bool
  nextBefore : Option ℤ
  revision : Revision
  loadedFor : Option ChartKey

def Info.empty : Info := ⟨none, false, none, none, none⟩

structure Store where
  key : ChartKey
  candles : List ChartCandle
  info : Info
  loading : Bool
  loadingOlder : Bool
  error : Option String
  errorStatus : Option ℕ
  mainCtrl : Option ℕ
  olderCtrl : Option ℕ
  tailCtrl : Option ℕ
  olderTimer : Bool
  olderInFlight : Bool
  requestedCursor : Option ℤ
  nextBefore : Option ℤ
  hasMore : Bool
  ready : Bool
  revision : Revision
  loads : ℕ

def Store.selected (st : Store) (key : ChartKey) : Store :=
  if st.key = key then st
  else { st with key := key, candles := [], info := .empty, revision := none }

def Store.restart (st : Store) (ctrl : ℕ) : Store :=
  { st with
    mainCtrl := some ctrl, olderCtrl := none, olderInFlight := false, requestedCursor := none
    olderTimer := false, ready := false, hasMore := false, nextBefore := none, loading := true
    loadingOlder := false, error := none, errorStatus := none, loads := st.loads + 1 }

theorem Store.selected_self (st : Store) : st.selected st.key = st := if_pos rfl

structure System where
  server : Server
  store : Store
  inFlight : List Request
  nextId : ℕ

def tailLimit : ℕ := 3

namespace System

variable (s : System)

def abort (ctrl : Option ℕ) : System :=
  { s with inFlight := s.inFlight.map (fun q ↦
      if ctrl = some q.id then { q with aborted := true } else q) }

def send (kind : RequestKind) : System :=
  { s with
    inFlight := s.inFlight ++ [⟨s.nextId, kind, s.store.key, s.store.loads, false, none⟩]
    nextId := s.nextId + 1 }

def loadMain (key : ChartKey) : System :=
  let s := (s.abort s.store.mainCtrl).abort s.store.olderCtrl
  { s with store := (s.store.selected key).restart s.nextId }.send .main

def reload : System := s.loadMain s.store.key

def select (key : ChartKey) : System :=
  let s := s.abort s.store.tailCtrl
  { s with store := { s.store with tailCtrl := none } }.loadMain key

def fetchOlder (cursor : ℤ) : System :=
  { s with store :=
      { s.store with
        olderCtrl := some s.nextId, olderInFlight := true, requestedCursor := some cursor
        loadingOlder := true } }.send (.older cursor)

def loadOlder : System :=
  if ¬s.store.ready ∨ ¬s.store.hasMore ∨ s.store.olderInFlight ∨ s.store.olderTimer ∨
      s.store.nextBefore = none ∨ s.store.nextBefore = s.store.requestedCursor then s
  else { s with store := { s.store with olderTimer := true } }

def fireTimer : System :=
  let s := { s with store := { s.store with olderTimer := false } }
  match s.store.nextBefore with
  | none => s
  | some latest =>
    if s.store.olderInFlight ∨ ¬s.store.hasMore ∨ some latest = s.store.requestedCursor then s
    else s.fetchOlder latest

def tick : System :=
  if ¬s.store.ready ∨ s.store.olderInFlight then s
  else
    let s := s.abort s.store.tailCtrl
    { s with store := { s.store with tailCtrl := some s.nextId } }.send .tail

end System

def differs (a b : Revision) : Bool := a.isSome ∧ b.isSome ∧ a ≠ b

namespace System

variable (s : System)

def arriveMain (key : ChartKey) : Reply → System
  | .page p =>
    { s with store :=
        { s.store with
          candles := sortedByTime p.candles
          info := ⟨some p.asOf, p.hasMore, p.nextBefore, p.revision, some key⟩
          revision := p.revision, hasMore := p.hasMore, nextBefore := p.nextBefore
          ready := true, loading := false } }
  | .failed message status =>
    { s with store :=
        { s.store with
          candles := [], info := { Info.empty with loadedFor := some key }
          error := some message, errorStatus := status, loading := false } }

def arriveOlder : Reply → System
  | .page p =>
    let settled := { s.store with olderInFlight := false, loadingOlder := false }
    if differs p.revision s.store.revision then { s with store := settled }.reload
    else
      let hasMore := p.hasMore && !p.candles.isEmpty
      { s with store :=
          { settled with
            candles := mergeOlder p.candles s.store.candles
            hasMore := hasMore, nextBefore := p.nextBefore
            info := { s.store.info with hasMore := hasMore, nextBefore := p.nextBefore } } }
  | .failed message _ =>
    { s with store :=
        { s.store with olderInFlight := false, loadingOlder := false, error := some message } }

def gap (interval : IntervalId) (held fresh : List ChartCandle) : Bool :=
  match held.getLast?, fresh.head? with
  | some last, some first => first.t - last.t > intervalSeconds interval
  | _, _ => false

def arriveTail : Reply → System
  | .page p =>
    if differs p.revision s.store.revision then s.reload
    else
      let fresh := sortedByTime p.candles
      let s := { s with store := { s.store with
        info := { s.store.info with asOf := some p.asOf } } }
      if fresh = [] then s
      else if gap s.store.key.interval s.store.candles fresh then s.reload
      else { s with store := { s.store with candles := patchTail s.store.candles fresh } }
  | .failed _ _ => s

def arrive (q : Request) (reply : Reply) : System :=
  let s := { s with inFlight := s.inFlight.filter (fun other ↦ other.id ≠ q.id) }
  if q.aborted then s
  else
    match q.kind with
    | .main => s.arriveMain q.key reply
    | .older _ => s.arriveOlder reply
    | .tail => s.arriveTail reply

def respond (q : Request) (asOf : String) : Page :=
  match q.kind with
  | .main => s.server.page q.key none (defaultBars q.key.interval) asOf
  | .older cursor => s.server.page q.key (some cursor) (defaultBars q.key.interval) asOf
  | .tail => s.server.page q.key none tailLimit asOf

def setReply (id : ℕ) (reply : Reply) : System :=
  { s with inFlight := s.inFlight.map (fun q ↦
      if q.id = id then { q with reply := some reply } else q) }

def pending (id : ℕ) : Option Request := s.inFlight.find? (fun q ↦ q.id = id ∧ q.reply = none)

def answered (id : ℕ) : Option (Request × Reply) :=
  (s.inFlight.find? (fun q ↦ q.id = id)).bind (fun q ↦ q.reply.map (q, ·))

def initial (server : Server) (key : ChartKey) : System where
  server := server
  store :=
    { key := key, candles := [], info := .empty, loading := true, loadingOlder := false
      error := none, errorStatus := none, mainCtrl := none, olderCtrl := none, tailCtrl := none
      olderTimer := false, olderInFlight := false, requestedCursor := none, nextBefore := none
      hasMore := false, ready := false, revision := none, loads := 0 }
  inFlight := []
  nextId := 0

def start (server : Server) (key : ChartKey) : System := (initial server key).loadMain key

end System

inductive Event
  | select (key : ChartKey)
  | reload
  | loadOlder
  | timer
  | tick
  | answer (id : ℕ) (asOf : String)
  | fail (id : ℕ) (message : String) (status : Option ℕ)
  | arrive (id : ℕ)
  | server (server : Server)

def next (s : System) : Event → Option System
  | .select key => if key = s.store.key then none else some (s.select key)
  | .reload => some s.reload
  | .loadOlder => some s.loadOlder
  | .timer => if s.store.olderTimer then some s.fireTimer else none
  | .tick => some s.tick
  | .answer id asOf => (s.pending id).map (fun q ↦ s.setReply id (.page (s.respond q asOf)))
  | .fail id message status => (s.pending id).map (fun _ ↦ s.setReply id (.failed message status))
  | .arrive id => (s.answered id).map (fun a ↦ s.arrive a.1 a.2)
  | .server server => some { s with server := server }

def Allowed (s : System) : Event → Prop
  | .server server => s.server.Moves server
  | _ => True

end Store

end TalaPala.Chart
