import TalaPala.Library.Transition
import Mathlib.Data.List.Nodup

namespace TalaPala.Forecast

open Library.Transition

structure Pair where
  symbol : String
  horizon : String
  deriving DecidableEq

/-- A row of `model_versions`. -/
structure ModelVersion where
  id : ℕ
  pair : Pair
  modelName : String
  version : String
  isActive : Bool

structure Pass where
  pair : Pair
  version : String
  candidates : List String
  winner : String
  winner_mem : winner ∈ candidates

/-- Where the transaction of a pass stands: the rows its first `UPDATE` still has
to lock and those it has struck, the candidates to insert, and the row of the
winner. -/
structure Progress where
  waiting : List ℕ
  struck : List ℕ
  rest : List String
  winnerId : Option ℕ
  activated : Bool

inductive Phase
  | ready
  | running (p : Progress)
  | committed
  | aborted

variable {ι : Type*} [DecidableEq ι]

structure Registry (ι : Type*) where
  rows : List ModelVersion
  uncommitted : List (ι × ModelVersion)
  lock : ℕ → Option ι
  nextId : ℕ
  phase : ι → Phase

namespace Registry

def move (s : Registry ι) (t : ι) (phase : Phase) : Registry ι :=
  { s with phase := Function.update s.phase t phase }

def visible (s : Registry ι) (pair : Pair) : List ℕ :=
  (s.rows.filter (fun r ↦ r.pair = pair)).map ModelVersion.id

def own (s : Registry ι) (t : ι) : List ModelVersion :=
  (s.uncommitted.filter (fun w ↦ w.1 = t)).map Prod.snd

def keyTaken (s : Registry ι) (pair : Pair) (modelName version : String) : Bool :=
  (s.rows ++ s.uncommitted.map Prod.snd).any (fun r ↦
    r.pair = pair ∧ r.modelName = modelName ∧ r.version = version)

def release (s : Registry ι) (t : ι) (phase : Phase) : Registry ι :=
  { s with
    uncommitted := s.uncommitted.filter (fun w ↦ w.1 ≠ t)
    lock := fun id ↦ if s.lock id = some t then none else s.lock id
    phase := Function.update s.phase t phase }

end Registry

def ModelVersion.strike (struck : List ℕ) (r : ModelVersion) : ModelVersion :=
  if r.id ∈ struck then { r with isActive := false } else r

inductive Action (ι : Type*)
  | snapshot (t : ι)
  | strike (t : ι) (id : ℕ)
  | insert (t : ι)
  | activate (t : ι)
  | commit (t : ι)
  | abort (t : ι)

variable (plan : ι → Pass)

/-- The first `UPDATE` under way: it takes the rows of its start's snapshot when no other
transaction holds them. One changed meanwhile still belongs to the pair and is struck
anew. -/
def Progress.strike (s : Registry ι) (t : ι) (p : Progress) (id : ℕ) : Option (Registry ι) :=
  if id ∈ p.waiting ∧ s.lock id = none then
    some
      { s with
        lock := Function.update s.lock id (some t)
        phase := Function.update s.phase t
          (.running { p with waiting := p.waiting.erase id, struck := id :: p.struck }) }
  else none

def Progress.insert (s : Registry ι) (t : ι) (p : Progress) : Option (Registry ι) :=
  match p.waiting, p.rest with
  | [], name :: rest =>
    if s.keyTaken (plan t).pair name (plan t).version then none
    else
      some
        { s with
          uncommitted :=
            s.uncommitted ++ [(t, ⟨s.nextId, (plan t).pair, name, (plan t).version, false⟩)]
          nextId := s.nextId + 1
          phase := Function.update s.phase t
            (.running
              { p with
                rest := rest
                winnerId := if name = (plan t).winner then some s.nextId else p.winnerId }) }
  | _, _ => none

def Progress.activate (s : Registry ι) (t : ι) (p : Progress) : Option (Registry ι) :=
  match p.waiting, p.rest, p.winnerId with
  | [], [], some id =>
    some
      { s with
        uncommitted := s.uncommitted.map (fun w ↦
          if w.1 = t ∧ w.2.id = id then (w.1, { w.2 with isActive := true }) else w)
        phase := Function.update s.phase t (.running { p with activated := true }) }
  | _, _, _ => none

def Progress.commit (s : Registry ι) (t : ι) (p : Progress) : Option (Registry ι) :=
  if p.waiting = [] ∧ p.rest = [] ∧ p.activated = p.winnerId.isSome then
    some
      { s.release t .committed with
        rows := s.rows.map (ModelVersion.strike p.struck) ++ s.own t }
  else none

def Registry.running (s : Registry ι) (t : ι) (f : Progress → Option (Registry ι)) :
    Option (Registry ι) :=
  match s.phase t with
  | .running p => f p
  | _ => none

def next (s : Registry ι) : Action ι → Option (Registry ι)
  | .snapshot t =>
    match s.phase t with
    | .ready =>
      some (s.move t (.running ⟨s.visible (plan t).pair, [], (plan t).candidates, none, false⟩))
    | _ => none
  | .strike t id => s.running t (fun p ↦ p.strike s t id)
  | .insert t => s.running t (fun p ↦ p.insert plan s t)
  | .activate t => s.running t (fun p ↦ p.activate s t)
  | .commit t => s.running t (fun p ↦ p.commit s t)
  | .abort t => s.running t (fun _ ↦ some (s.release t .aborted))

abbrev Runs (s : Registry ι) (actions : List (Action ι)) (t : Registry ι) : Prop :=
  Run (next plan) (fun _ _ ↦ True) s actions t

structure Registry.Initial (s : Registry ι) : Prop where
  ready : ∀ t, s.phase t = .ready
  uncommitted : s.uncommitted = []
  unlocked : ∀ id, s.lock id = none
  nodup : (s.rows.map ModelVersion.id).Nodup
  fresh : ∀ r ∈ s.rows, r.id < s.nextId

def Registry.active (s : Registry ι) (pair : Pair) : List ModelVersion :=
  s.rows.filter (fun r ↦ r.pair = pair ∧ r.isActive)

def lastCommitted (pair : Pair) (history : List (Action ι)) : Option ι :=
  history.foldl (fun last action ↦
    match action with
    | .commit t => if (plan t).pair = pair then some t else last
    | _ => last) none

/-- Whether a pass of the same pair has committed since the deactivation of `t`
began. -/
def overtaken (t : ι) (history : List (Action ι)) : Bool :=
  history.foldl (fun flag action ↦
    match action with
    | .snapshot u => if u = t then false else flag
    | .commit u => flag || (plan u).pair = (plan t).pair
    | _ => flag) false

def Pass.Wins (pass : Pass) (r : ModelVersion) : Prop :=
  r.pair = pass.pair ∧ r.modelName = pass.winner ∧ r.version = pass.version

def OneActive (history : List (Action ι)) (s : Registry ι) : Prop :=
  ∀ pair, (s.active pair).length ≤ 1 ∧
    ∀ t, lastCommitted plan pair history = some t → ∃ r, s.active pair = [r] ∧ (plan t).Wins r

def InTurn (actions : List (Action ι)) : Prop :=
  ∀ front t back, actions = front ++ .commit t :: back → overtaken plan t front = false

end TalaPala.Forecast
