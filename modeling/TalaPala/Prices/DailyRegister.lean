import TalaPala.Clock
import TalaPala.Library.Transition
import Mathlib.Order.Basic

namespace TalaPala.Prices

open Library.Transition

section Entries

inductive FetchMode
  | full
  | recent
  deriving DecidableEq

structure GapFillStats where
  days : ℕ
  first : Option Date
  last : Option Date
  deriving DecidableEq

structure RegisterEntry where
  slug : String
  gapFillRole : Bool
  lastPassAt : Instant
  lastMode : FetchMode
  newestBarSeen : Date
  fullPassAt : Option Instant
  recordsTotal : Option ℕ
  gapFill : Option GapFillStats
  deriving DecidableEq

abbrev Register := String → Option RegisterEntry

structure DailyPass where
  symbol : String
  slug : String
  gapFill : Bool
  now : Instant
  mode : FetchMode
  lastDay : Date
  recordsTotal : Option ℕ
  inserted : ℕ
  firstWritten : Option Date
  lastWritten : Option Date

def mergeDates (better : Date → Date → Date) : Option Date → Option Date → Option Date
  | some a, some b => some (better a b)
  | a, b => a.or b

def DailyPass.stats (pass : DailyPass) (old : Option GapFillStats) : Option GapFillStats :=
  if pass.gapFill ∧ 0 < pass.inserted then
    some {
      days := old.elim 0 GapFillStats.days + pass.inserted
      first := mergeDates min (old.bind GapFillStats.first) pass.firstWritten
      last := mergeDates max (old.bind GapFillStats.last) pass.lastWritten }
  else old

def DailyPass.entry (pass : DailyPass) (old : Option RegisterEntry) : RegisterEntry where
  slug := pass.slug
  gapFillRole := pass.gapFill
  lastPassAt := pass.now
  lastMode := pass.mode
  newestBarSeen := old.elim pass.lastDay (fun entry ↦ max pass.lastDay entry.newestBarSeen)
  fullPassAt := if pass.mode = .full then some pass.now else old.bind RegisterEntry.fullPassAt
  recordsTotal := if pass.mode = .full then pass.recordsTotal
    else old.bind RegisterEntry.recordsTotal
  gapFill := pass.stats (old.bind RegisterEntry.gapFill)

end Entries

section Statements

inductive DailyPhase
  | ready
  | computed (view : Register) (entry : RegisterEntry)
  | inserting (view : Register) (entry : RegisterEntry)
  | wrote (entry : RegisterEntry)
  | committed (entry : RegisterEntry)
  | aborted

structure RegisterStore (ι : Type*) where
  row : Option Register
  pending : Option (ι × Register)
  phase : ι → DailyPhase

inductive RegisterAction (ι : Type*)
  | read (t : ι)
  | update (t : ι)
  | insert (t : ι)
  | commit (t : ι)
  | abort (t : ι)

variable {ι : Type*} [DecidableEq ι]

namespace RegisterStore

def start (ι : Type*) (row : Option Register) : RegisterStore ι := ⟨row, none, fun _ ↦ .ready⟩

def register (s : RegisterStore ι) : Register := s.row.getD (fun _ ↦ none)

def move (s : RegisterStore ι) (t : ι) (phase : DailyPhase) : RegisterStore ι :=
  { s with phase := Function.update s.phase t phase }

def write (s : RegisterStore ι) (t : ι) (register : Register) (entry : RegisterEntry) :
    RegisterStore ι :=
  { s.move t (.wrote entry) with pending := some (t, register) }

end RegisterStore

variable (plan : ι → DailyPass)

/-- One statement of a transaction. `UPDATE` and `INSERT` wait for the transaction that
holds the row; an `INSERT` that finds it committed fails. -/
def nextStatement (s : RegisterStore ι) : RegisterAction ι → Option (RegisterStore ι)
  | .read t =>
    match s.phase t with
    | .ready =>
      some (s.move t (.computed s.register ((plan t).entry (s.register (plan t).symbol))))
    | _ => none
  | .update t =>
    match s.phase t with
    | .computed view entry =>
      match s.row, s.pending with
      | none, _ => some (s.move t (.inserting view entry))
      | some _, none =>
        some (s.write t (Function.update view (plan t).symbol (some entry)) entry)
      | some _, some _ => none
    | _ => none
  | .insert t =>
    match s.phase t with
    | .inserting view entry =>
      match s.row, s.pending with
      | none, none =>
        some (s.write t (Function.update view (plan t).symbol (some entry)) entry)
      | some _, none => some (s.move t .aborted)
      | _, some _ => none
    | _ => none
  | .commit t =>
    match s.phase t, s.pending with
    | .wrote entry, some (owner, register) =>
      if owner = t then
        some { s.move t (.committed entry) with row := some register, pending := none }
      else none
    | _, _ => none
  | .abort t =>
    match s.phase t with
    | .committed _ => none
    | _ =>
      some { s.move t .aborted with pending := s.pending.filter (fun held ↦ held.1 ≠ t) }

def lastWriter (symbol : String) (h : List (RegisterAction ι)) : Option ι :=
  h.foldl (fun last action ↦
    match action with
    | .commit t => if (plan t).symbol = symbol then some t else last
    | _ => last) none

def HoldsLast (h : List (RegisterAction ι)) (s : RegisterStore ι) : Prop :=
  ∀ symbol t, lastWriter plan symbol h = some t →
    ∃ entry, s.phase t = .committed entry ∧ s.register symbol = some entry

def OthersAsRead (s : RegisterStore ι) : RegisterAction ι → Prop
  | .update t => ∀ view entry, s.phase t = .computed view entry →
      ∀ symbol, symbol ≠ (plan t).symbol → s.register symbol = view symbol
  | _ => True

end Statements

section Runs

variable {ι : Type*} {plan : ι → DailyPass} {s s' : RegisterStore ι} {t u : ι}
  {h : List (RegisterAction ι)} {row : Option Register} {symbol : String} {phase : DailyPhase}

theorem lastWriter_concat (action : RegisterAction ι) :
    lastWriter plan symbol (h ++ [action]) =
      match action with
      | .commit t => if (plan t).symbol = symbol then some t else lastWriter plan symbol h
      | _ => lastWriter plan symbol h := by
  rw [lastWriter, List.foldl_append]
  rfl

theorem lastWriter_commit : lastWriter plan symbol (h ++ [.commit t]) =
    if (plan t).symbol = symbol then some t else lastWriter plan symbol h :=
  lastWriter_concat _

variable (plan row) in
structure RegisterStore.Inv (h : List (RegisterAction ι)) (s : RegisterStore ι) : Prop where
  views : s.row = none → ∀ t view entry,
    s.phase t = .computed view entry ∨ s.phase t = .inserting view entry → view = fun _ ↦ none
  pending : ∀ t register, s.pending = some (t, register) → ∃ entry, s.phase t = .wrote entry ∧
    register = Function.update s.register (plan t).symbol (some entry)
  last : HoldsLast plan h s
  untouched : ∀ symbol, lastWriter plan symbol h = none →
    s.register symbol = (RegisterStore.start ι row).register symbol

theorem RegisterStore.inv_start : (start ι row).Inv plan row [] where
  views _ _ _ _ hphase := by rcases hphase with hphase | hphase <;> cases hphase
  pending _ _ hpending := by cases hpending
  last _ _ hlast := by cases hlast
  untouched _ _ := rfl

variable [DecidableEq ι]

theorem phase_move_ne (hne : u ≠ t) : (s.move t phase).phase u = s.phase u :=
  Function.update_of_ne hne _ _

@[simp] theorem phase_move : (s.move t phase).phase t = phase := Function.update_self _ _ _

theorem HoldsLast.move (hs : HoldsLast plan h s) (hopen : ∀ entry, s.phase t ≠ .committed entry)
    (hregister : s'.register = s.register) (hphase : s'.phase = (s.move t phase).phase) :
    HoldsLast plan h s' := by
  intro symbol u hlast
  obtain ⟨entry, hcommitted, hentry⟩ := hs symbol u hlast
  have hne : u ≠ t := by
    rintro rfl
    exact hopen entry hcommitted
  refine ⟨entry, ?_, hregister ▸ hentry⟩
  rw [hphase, phase_move_ne hne, hcommitted]

theorem RegisterStore.Inv.move (hs : s.Inv plan row h) (action : RegisterAction ι)
    (haction : ∀ symbol, lastWriter plan symbol (h ++ [action]) = lastWriter plan symbol h)
    (hopen : ∀ entry, s.phase t ≠ .committed entry) (hwrote : ∀ entry, s.phase t ≠ .wrote entry)
    (hviews : s.row = none → ∀ view entry,
      phase = .computed view entry ∨ phase = .inserting view entry → view = fun _ ↦ none) :
    (s.move t phase).Inv plan row (h ++ [action]) where
  views hrow u view entry hu := by
    by_cases hut : u = t
    · subst hut
      rw [phase_move] at hu
      exact hviews hrow view entry hu
    · rw [phase_move_ne hut] at hu
      exact hs.views hrow u view entry hu
  pending u register hpending := by
    obtain ⟨entry, hu, hregister⟩ := hs.pending u register hpending
    have hne : u ≠ t := by
      rintro rfl
      exact hwrote entry hu
    exact ⟨entry, (phase_move_ne hne).trans hu, hregister⟩
  last symbol u hlast := by
    rw [haction] at hlast
    have hmoved : HoldsLast plan h (s.move t phase) := hs.last.move hopen rfl rfl
    exact hmoved symbol u hlast
  untouched symbol hlast := by
    rw [haction] at hlast
    exact hs.untouched symbol hlast

theorem RegisterStore.Inv.write {view : Register} {entry : RegisterEntry}
    (hs : s.Inv plan row h) (action : RegisterAction ι)
    (haction : ∀ symbol, lastWriter plan symbol (h ++ [action]) = lastWriter plan symbol h)
    (hopen : ∀ entry, s.phase t ≠ .committed entry)
    (hothers : ∀ symbol, symbol ≠ (plan t).symbol → s.register symbol = view symbol) :
    (s.write t (Function.update view (plan t).symbol (some entry)) entry).Inv plan row
      (h ++ [action]) where
  views hrow u view' entry' hu := by
    by_cases hut : u = t
    · subst hut
      rw [RegisterStore.write, phase_move] at hu
      rcases hu with hu | hu <;> cases hu
    · rw [RegisterStore.write, phase_move_ne hut] at hu
      exact hs.views hrow u view' entry' hu
  pending u register hpending := by
    obtain ⟨rfl, rfl⟩ := Prod.mk.inj (Option.some.inj hpending)
    refine ⟨entry, phase_move, funext fun symbol ↦ ?_⟩
    by_cases hsymbol : symbol = (plan t).symbol
    · subst hsymbol
      rw [Function.update_self, Function.update_self]
    · rw [Function.update_of_ne hsymbol, Function.update_of_ne hsymbol]
      exact (hothers symbol hsymbol).symm
  last symbol u hlast := by
    rw [haction] at hlast
    have hwritten : HoldsLast plan h
        (s.write t (Function.update view (plan t).symbol (some entry)) entry) :=
      hs.last.move hopen rfl rfl
    exact hwritten symbol u hlast
  untouched symbol hlast := by
    rw [haction] at hlast
    exact hs.untouched symbol hlast

theorem RegisterStore.Inv.commit {register : Register} {entry : RegisterEntry}
    (hs : s.Inv plan row h) (hphase : s.phase t = .wrote entry)
    (hpending : s.pending = some (t, register)) :
    RegisterStore.Inv plan row (h ++ [.commit t])
      { s.move t (.committed entry) with row := some register, pending := none } where
  views hrow := by cases hrow
  pending _ _ hnone := by cases hnone
  last symbol u hlast := by
    obtain ⟨entry', hwrote, hregister⟩ := hs.pending t register hpending
    rw [hphase] at hwrote
    cases hwrote
    rw [lastWriter_commit] at hlast
    by_cases hsymbol : (plan t).symbol = symbol
    · rw [if_pos hsymbol] at hlast
      cases hlast
      refine ⟨entry, phase_move, ?_⟩
      rw [← hsymbol]
      exact (congrFun hregister _).trans (Function.update_self _ _ _)
    · rw [if_neg hsymbol] at hlast
      obtain ⟨written, hcommitted, hentry⟩ := hs.last symbol u hlast
      have hne : u ≠ t := by
        rintro rfl
        rw [hphase] at hcommitted
        cases hcommitted
      refine ⟨written, (phase_move_ne hne).trans hcommitted, ?_⟩
      rw [← hentry]
      exact (congrFun hregister _).trans (Function.update_of_ne (Ne.symm hsymbol) _ _)
  untouched symbol hlast := by
    obtain ⟨entry', -, hregister⟩ := hs.pending t register hpending
    rw [lastWriter_commit] at hlast
    by_cases hsymbol : (plan t).symbol = symbol
    · rw [if_pos hsymbol] at hlast
      cases hlast
    · rw [if_neg hsymbol] at hlast
      rw [← hs.untouched symbol hlast]
      exact (congrFun hregister _).trans (Function.update_of_ne (Ne.symm hsymbol) _ _)

theorem RegisterStore.Inv.abort (hs : s.Inv plan row h)
    (hopen : ∀ entry, s.phase t ≠ .committed entry) :
    RegisterStore.Inv plan row (h ++ [.abort t])
      { s.move t .aborted with pending := s.pending.filter (fun held ↦ held.1 ≠ t) } where
  views hrow u view entry hu := by
    by_cases hut : u = t
    · subst hut
      rw [phase_move] at hu
      rcases hu with hu | hu <;> cases hu
    · rw [phase_move_ne hut] at hu
      exact hs.views hrow u view entry hu
  pending u register hpending := by
    obtain ⟨hheld, hother⟩ := Option.filter_eq_some_iff.mp hpending
    obtain ⟨entry, hu, hregister⟩ := hs.pending u register hheld
    exact ⟨entry, (phase_move_ne (of_decide_eq_true hother)).trans hu, hregister⟩
  last symbol u hlast := by
    rw [lastWriter_concat] at hlast
    have hmoved : HoldsLast plan h (s.move t .aborted) := hs.last.move hopen rfl rfl
    exact hmoved symbol u hlast
  untouched symbol hlast := by
    rw [lastWriter_concat] at hlast
    exact hs.untouched symbol hlast

theorem RegisterStore.Inv.next {action : RegisterAction ι} (hs : s.Inv plan row h)
    (hok : OthersAsRead plan s action) (hnext : nextStatement plan s action = some s') :
    s'.Inv plan row (h ++ [action]) := by
  cases action with
  | read t =>
    rw [nextStatement] at hnext
    split at hnext
    next hphase =>
      cases hnext
      refine hs.move (.read t) (fun _ ↦ lastWriter_concat _) ?_ ?_ ?_
      · simp [hphase]
      · simp [hphase]
      · intro hrow view entry hview
        rcases hview with hview | hview
        · cases hview
          rw [RegisterStore.register, hrow]
          rfl
        · cases hview
    next => cases hnext
  | update t =>
    rw [nextStatement] at hnext
    split at hnext
    next view entry hphase =>
      split at hnext
      next hrow =>
        cases hnext
        refine hs.move (.update t) (fun _ ↦ lastWriter_concat _) ?_ ?_ ?_
        · simp [hphase]
        · simp [hphase]
        · intro _ view' entry' hview
          rcases hview with hview | hview
          · cases hview
          · cases hview
            exact hs.views hrow t view entry (.inl hphase)
      next =>
        cases hnext
        exact hs.write (.update t) (fun _ ↦ lastWriter_concat _) (by simp [hphase])
          (hok view entry hphase)
      next => cases hnext
    next => cases hnext
  | insert t =>
    rw [nextStatement] at hnext
    split at hnext
    next view entry hphase =>
      split at hnext
      next hrow hfree =>
        cases hnext
        refine hs.write (.insert t) (fun _ ↦ lastWriter_concat _) (by simp [hphase]) ?_
        intro symbol _
        rw [hs.views hrow t view entry (.inr hphase), RegisterStore.register, hrow]
        rfl
      next =>
        cases hnext
        refine hs.move (.insert t) (fun _ ↦ lastWriter_concat _) ?_ ?_ ?_
        · simp [hphase]
        · simp [hphase]
        · intro _ view' entry' hview
          rcases hview with hview | hview <;> cases hview
      next => cases hnext
    next => cases hnext
  | commit t =>
    rw [nextStatement] at hnext
    split at hnext
    next entry owner register hphase hpending =>
      split at hnext
      next howner =>
        cases hnext
        exact hs.commit hphase (howner ▸ hpending)
      next => cases hnext
    next => cases hnext
  | abort t =>
    rw [nextStatement] at hnext
    split at hnext
    next => cases hnext
    next hphase =>
      cases hnext
      exact hs.abort hphase

/-- While no pass updates the register over another symbol's entry that it has not read,
each symbol's last entry stays, and what no pass wrote is as it was. -/
theorem register_keeps_entries (plan : ι → DailyPass) (row : Option Register)
    {actions : List (RegisterAction ι)} {s : RegisterStore ι}
    (h : Run (nextStatement plan) (OthersAsRead plan) (.start ι row) actions s) :
    HoldsLast plan actions s ∧ ∀ symbol, lastWriter plan symbol actions = none →
      s.register symbol = (RegisterStore.start ι row).register symbol := by
  have hinv : s.Inv plan row ([] ++ actions) :=
    h.preserves_history (fun _ _ _ _ hs hok hnext ↦ hs.next hok hnext) RegisterStore.inv_start
  exact ⟨hinv.last, hinv.untouched⟩

end Runs

section Overlap

def recentEntry (slug : String) (day : Date) (lastPassAt : Instant) : RegisterEntry where
  slug := slug
  gapFillRole := false
  lastPassAt := lastPassAt
  lastMode := .recent
  newestBarSeen := day
  fullPassAt := some 0
  recordsTotal := some 4284
  gapFill := none

def yesterdaysRegister : Register
  | "IR_SILVER_999" => some (recentEntry "silver_999" 20724 1790640000000000)
  | "IR_COIN_BAHAR" => some (recentEntry "sekeb" 20724 1790640000000000)
  | _ => none

def todaysPasses (manual : Bool) : DailyPass where
  symbol := if manual then "IR_COIN_BAHAR" else "IR_SILVER_999"
  slug := if manual then "sekeb" else "silver_999"
  gapFill := false
  now := 1790726400000000
  mode := .recent
  lastDay := 20725
  recordsTotal := none
  inserted := 1
  firstWritten := some 20725
  lastWritten := some 20725

theorem silver_pass_alone : ∃ s,
    Run (nextStatement todaysPasses) (OthersAsRead todaysPasses)
        (.start Bool (some yesterdaysRegister)) [.read false, .update false, .commit false] s ∧
      HoldsLast todaysPasses [.read false, .update false, .commit false] s := by
  obtain ⟨s, hrun⟩ : ∃ s, Run (nextStatement todaysPasses) (OthersAsRead todaysPasses)
      (.start Bool (some yesterdaysRegister)) [.read false, .update false, .commit false] s := by
    refine ⟨_, .cons trivial rfl (.cons ?_ rfl (.cons trivial rfl (.nil _)))⟩
    intro view entry hphase symbol _
    cases hphase
    rfl
  exact ⟨_, hrun, (register_keeps_entries todaysPasses (some yesterdaysRegister) hrun).1⟩

def overlappingReads : List (RegisterAction Bool) :=
  [.read false, .read true, .update false, .commit false, .update true, .commit true]

/-- The second commit puts yesterday's entry of the first one's symbol back. -/
theorem second_update_restores : ∃ s,
    Run (nextStatement todaysPasses) (fun _ _ ↦ True) (.start Bool (some yesterdaysRegister))
        overlappingReads s ∧
      (∀ t, ∃ entry, s.phase t = .committed entry) ∧
      ¬HoldsLast todaysPasses overlappingReads s := by
  refine ⟨_, .cons trivial rfl (.cons trivial rfl (.cons trivial rfl (.cons trivial rfl
    (.cons trivial rfl (.cons trivial rfl (.nil _)))))), ?_, fun hlast ↦ ?_⟩
  · intro t
    cases t <;> exact ⟨_, rfl⟩
  · obtain ⟨entry, hphase, hentry⟩ := hlast "IR_SILVER_999" false (by decide)
    cases hphase
    exact absurd hentry (by decide)

end Overlap

end TalaPala.Prices
