import TalaPala.Economic.SciCpi
import TalaPala.News.Urls
import TalaPala.Prices.Collect

namespace TalaPala.Prices

open Economic MarketHours News List

section FetchTimes

def intDigits : Text → Option (List ℕ)
  | [] => none
  | [c] => (decimalDigit c).map ([·])
  | c :: '_' :: rest => do return (← decimalDigit c) :: (← intDigits rest)
  | c :: rest => do return (← decimalDigit c) :: (← intDigits rest)

/-- The most digits that `int` takes. -/
def maxIntDigits : ℕ := 4300

def intOfDigits (s : Text) : Option ℤ :=
  ((intDigits s).filter (fun digits ↦ digits.length ≤ maxIntDigits)).map decimalNumber

/-- `int(s)`. -/
def pythonInt (s : Text) : Option ℤ :=
  match strip s with
  | '-' :: rest => (intOfDigits rest).map Neg.neg
  | '+' :: rest => intOfDigits rest
  | rest => intOfDigits rest

inductive FetchTimeError
  | value
  | overflow

def FetchTimeError.raised : Except FetchTimeError HHMM → Bool
  | .error .overflow => true
  | _ => false

def fitsCInt (n : ℤ) : Prop := -2147483648 ≤ n ∧ n ≤ 2147483647

instance (n : ℤ) : Decidable (fitsCInt n) := instDecidableAnd

/-- `time(hour, minute)`. -/
def timeOfDay (hour minute : ℤ) : Except FetchTimeError HHMM :=
  if ¬(fitsCInt hour ∧ fitsCInt minute) then .error .overflow
  else if h : (0 ≤ hour ∧ hour < 24) ∧ 0 ≤ minute ∧ minute < 60 then
    .ok ⟨hour.toNat, minute.toNat, by omega, by omega⟩
  else .error .value

def parseFetchTime (part : Text) : Except FetchTimeError HHMM :=
  match (strip part).splitOn ':' with
  | [hh, mm] =>
    match pythonInt hh, pythonInt mm with
    | some hour, some minute => timeOfDay hour minute
    | _, _ => .error .value
  | _ => .error .value

def defaultFetchTimes : List HHMM :=
  [⟨12, 0, tseOpen.hour_lt, tseOpen.minute_lt⟩, ⟨15, 0, by decide, tseOpen.minute_lt⟩,
    ⟨18, 0, tseClose.hour_lt, tseClose.minute_lt⟩]

/-- A part that is no time is skipped; without any the defaults stand. A number that is
too large for `time` is not caught. -/
def parseFetchTimes (raw : Text) : Option (List HHMM) :=
  let parts := (raw.splitOn ',').map parseFetchTime
  if parts.any FetchTimeError.raised then none
  else
    let out := parts.filterMap Except.toOption
    if out = [] then some defaultFetchTimes
    else some (out.insertionSort (fun a b ↦ a.minutes ≤ b.minutes))

example : (parseFetchTimes "18:00, 9:3_0,25:00,noon,12:00:00".toList).map
    (List.map HHMM.minutes) = some [570, 1080] := by decide +kernel

end FetchTimes

section Due

structure FundsMarks where
  collectedAt : List Instant
  attempt : Option Instant

def tehranDate (at' : Instant) : ℤ := (at' + Python.tehran) / Python.day

def slotUtc (date minutes : ℤ) : Instant :=
  date * Python.day + minutes * Python.minute - Python.tehran

def lastSlot (slots : List HHMM) (at' : Instant) : Option ℤ :=
  ((slots.map HHMM.minutes).filter
    (fun minutes ↦ minutes * Python.minute ≤ (at' + Python.tehran) % Python.day)).max?

def FundsMarks.all (marks : FundsMarks) : List Instant :=
  marks.collectedAt.max?.toList ++ marks.attempt.toList

def fundsJobDue (fetchTimes : Text) (marks : FundsMarks) (at' : Instant) : Option Bool :=
  if Python.isOffDay (tehranDate at') then some false
  else
    (parseFetchTimes fetchTimes).map fun slots ↦
      match lastSlot slots at' with
      | none => false
      | some slot => marks.all.max?.all (fun mark ↦ mark < slotUtc (tehranDate at') slot)

def markFundsAttempt (marks : FundsMarks) (at' : Instant) : FundsMarks :=
  { marks with attempt := some at' }

structure CollectTick where
  dueAt : Instant
  markAt : Instant
  stored : List Instant
  ordered : dueAt ≤ markAt

def collectFunds (fetchTimes : Text) (marks : FundsMarks) (tick : CollectTick) : FundsMarks :=
  if fundsJobDue fetchTimes marks tick.dueAt = some true then
    let marked := markFundsAttempt marks tick.markAt
    { marked with collectedAt := marked.collectedAt ++ tick.stored }
  else marks

def spentTicks (fetchTimes : Text) : FundsMarks → List CollectTick → List CollectTick
  | _, [] => []
  | marks, tick :: ticks =>
    let rest := spentTicks fetchTimes (collectFunds fetchTimes marks tick) ticks
    if fundsJobDue fetchTimes marks tick.dueAt = some true then tick :: rest else rest

end Due

section Quota

variable {fetchTimes : Text} {marks : FundsMarks} {at' mark : Instant} {tick : CollectTick}
  {ticks : List CollectTick}

theorem slot_of_due (h : fundsJobDue fetchTimes marks at' = some true) :
    Python.isOffDay (tehranDate at') = false ∧ ∃ slots, parseFetchTimes fetchTimes = some slots ∧
      ∃ slot ∈ slots, lastSlot slots at' = some slot.minutes ∧
        slotUtc (tehranDate at') slot.minutes ≤ at' ∧
        ∀ mark, marks.attempt = some mark → mark < slotUtc (tehranDate at') slot.minutes := by
  rw [fundsJobDue] at h
  split at h
  next => cases h
  next hday =>
    refine ⟨Bool.eq_false_of_not_eq_true hday, ?_⟩
    obtain ⟨slots, hslots, hdue⟩ := Option.map_eq_some_iff.mp h
    refine ⟨slots, hslots, ?_⟩
    split at hdue
    next => cases hdue
    next minutes hlast =>
      have hmem := max?_mem hlast
      obtain ⟨hmem, hpassed⟩ := mem_filter.mp hmem
      obtain ⟨slot, hslot, rfl⟩ := mem_map.mp hmem
      refine ⟨slot, hslot, hlast, ?_, fun mark hmark ↦ ?_⟩
      · have hsplit := Int.emod_add_mul_ediv (at' + Python.tehran) Python.day
        rw [decide_eq_true_eq] at hpassed
        rw [slotUtc, tehranDate]
        linarith
      · have hin : mark ∈ marks.all := by simp [FundsMarks.all, hmark]
        obtain ⟨newest, hnewest⟩ := Option.ne_none_iff_exists'.mp
          (mt max?_eq_none_iff.mp (ne_nil_of_mem hin))
        rw [hnewest, Option.all_some, decide_eq_true_eq] at hdue
        exact ((max?_le_iff hnewest).mp le_rfl mark hin).trans_lt hdue

def tickSlot (fetchTimes : Text) (tick : CollectTick) : Option ℤ :=
  (parseFetchTimes fetchTimes).bind (fun slots ↦ lastSlot slots tick.dueAt)

def tickSlotUtc (fetchTimes : Text) (tick : CollectTick) : Instant :=
  slotUtc (tehranDate tick.dueAt) ((tickSlot fetchTimes tick).getD 0)

theorem tickSlot_of_due (h : fundsJobDue fetchTimes marks tick.dueAt = some true) :
    Python.isOffDay (tehranDate tick.dueAt) = false ∧
      (∃ slot ∈ (parseFetchTimes fetchTimes).getD [],
        tickSlot fetchTimes tick = some slot.minutes) ∧
      tickSlotUtc fetchTimes tick ≤ tick.dueAt ∧
      ∀ mark, marks.attempt = some mark → mark < tickSlotUtc fetchTimes tick := by
  obtain ⟨hday, slots, hslots, slot, hslot, hlast, hpassed, hmarks⟩ := slot_of_due h
  have htick : tickSlot fetchTimes tick = some slot.minutes := by
    rw [tickSlot, hslots]
    exact hlast
  rw [tickSlotUtc, htick, hslots]
  exact ⟨hday, ⟨slot, hslot, rfl⟩, hpassed, hmarks⟩

theorem due_of_spent (h : tick ∈ spentTicks fetchTimes marks ticks) :
    ∃ marks', fundsJobDue fetchTimes marks' tick.dueAt = some true := by
  induction ticks generalizing marks with
  | nil => cases h
  | cons first ticks ih =>
    rw [spentTicks] at h
    split at h
    next hdue =>
      rcases mem_cons.mp h with rfl | hrest
      · exact ⟨marks, hdue⟩
      · exact ih hrest
    next => exact ih h

theorem spent_ascending :
    (∀ tick ∈ spentTicks fetchTimes marks ticks, ∀ mark, marks.attempt = some mark →
      mark < tickSlotUtc fetchTimes tick) ∧
    (spentTicks fetchTimes marks ticks).Pairwise
      (fun tick later ↦ tickSlotUtc fetchTimes tick < tickSlotUtc fetchTimes later) := by
  induction ticks generalizing marks with
  | nil => exact ⟨fun _ h ↦ absurd h not_mem_nil, List.Pairwise.nil⟩
  | cons first ticks ih =>
    rw [spentTicks]
    split
    next hdue =>
      obtain ⟨-, -, hpassed, hmarks⟩ := tickSlot_of_due hdue
      obtain ⟨hbehind, hascending⟩ := @ih (collectFunds fetchTimes marks first)
      have hmarked : (collectFunds fetchTimes marks first).attempt = some first.markAt := by
        rw [collectFunds, if_pos hdue]
        rfl
      have hlater : ∀ tick ∈ spentTicks fetchTimes (collectFunds fetchTimes marks first) ticks,
          tickSlotUtc fetchTimes first < tickSlotUtc fetchTimes tick := fun tick htick ↦
        (hpassed.trans first.ordered).trans_lt (hbehind tick htick _ hmarked)
      refine ⟨fun tick htick mark hmark ↦ ?_, pairwise_cons.mpr ⟨hlater, hascending⟩⟩
      rcases mem_cons.mp htick with rfl | hrest
      · exact hmarks mark hmark
      · exact (hmarks mark hmark).trans (hlater tick hrest)
    next hnot =>
      rw [collectFunds, if_neg hnot]
      exact ih

theorem spent_slots_nodup (date : ℤ) :
    (((spentTicks fetchTimes marks ticks).filter (fun tick ↦ tehranDate tick.dueAt = date)).map
      (tickSlot fetchTimes)).Nodup := by
  refine pairwise_map.mpr ?_
  refine (spent_ascending.2.filter _).imp_of_mem ?_
  intro tick later htick hlater hless heq
  have hdate := of_decide_eq_true (mem_filter.mp htick).2
  have hdate' := of_decide_eq_true (mem_filter.mp hlater).2
  rw [tickSlotUtc, tickSlotUtc, hdate, hdate', heq] at hless
  exact lt_irrefl _ hless

/-- On a date the budget is spent at most once for a slot, so at most as often as there
are slots, and on a day off not at all. -/
theorem funds_quota (fetchTimes : Text) (marks : FundsMarks) (ticks : List CollectTick)
    (date : ℤ) :
    let spent := (spentTicks fetchTimes marks ticks).filter
      (fun tick ↦ tehranDate tick.dueAt = date)
    spent.length ≤ ((parseFetchTimes fetchTimes).getD []).length ∧
      (∀ tick ∈ spent, ∃ slot ∈ (parseFetchTimes fetchTimes).getD [],
        tickSlot fetchTimes tick = some slot.minutes) ∧
      (∀ slot : HHMM, spent.countP (fun tick ↦ tickSlot fetchTimes tick = some slot.minutes) ≤ 1) ∧
      (Python.weekday date = 3 ∨ Python.weekday date = 4 → spent = []) := by
  intro spent
  have hnodup : (spent.map (tickSlot fetchTimes)).Nodup := spent_slots_nodup date
  have hspent : ∀ tick ∈ spent, tehranDate tick.dueAt = date ∧
      Python.isOffDay (tehranDate tick.dueAt) = false ∧
      ∃ slot ∈ (parseFetchTimes fetchTimes).getD [],
        tickSlot fetchTimes tick = some slot.minutes := by
    intro tick htick
    obtain ⟨htick, hdate⟩ := mem_filter.mp htick
    obtain ⟨_, hdue⟩ := due_of_spent htick
    have hslot := tickSlot_of_due hdue
    exact ⟨of_decide_eq_true hdate, hslot.1, hslot.2.1⟩
  refine ⟨?_, fun tick htick ↦ (hspent tick htick).2.2, fun slot ↦ ?_, fun hoff ↦ ?_⟩
  · have hsub : spent.map (tickSlot fetchTimes) ⊆
        ((parseFetchTimes fetchTimes).getD []).map (fun slot ↦ some slot.minutes) := by
      intro slot hslot
      obtain ⟨tick, htick, rfl⟩ := mem_map.mp hslot
      obtain ⟨configured, hconfigured, heq⟩ := (hspent tick htick).2.2
      exact heq ▸ mem_map_of_mem hconfigured
    have hlength := (subperm_of_subset hnodup hsub).length_le
    rwa [length_map, length_map] at hlength
  · have hcount := nodup_iff_count_le_one.mp hnodup (some slot.minutes)
    rw [count_eq_countP, countP_map] at hcount
    simpa only [Function.comp_def, Bool.beq_eq_decide_eq] using hcount
  · refine eq_nil_iff_forall_not_mem.mpr fun tick htick ↦ ?_
    obtain ⟨hdate, hopen, -⟩ := hspent tick htick
    rw [hdate, Python.isOffDay] at hopen
    rcases hoff with h | h <;> simp [h] at hopen

end Quota

end TalaPala.Prices
