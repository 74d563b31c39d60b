import TalaPala.Auth.Lockout

namespace TalaPala.Auth

open Library Transition List

section Held

variable {s t : Lockout} {events : List LoginEvent} {event : LoginEvent} {email : String}
  {now until' : ℕ}

def Timely (s : Lockout) : Prop :=
  ∀ email, ∀ e ∈ s.entries.lookup email, e.firstFailAt ≤ s.clock

def Held (email : String) (until' : ℕ) (s : Lockout) : Prop :=
  ∃ e, s.entries.lookup email = some e ∧ until' ≤ e.lockedUntil

theorem firstFailAt_failedEntry (entry : Option LockoutEntry) (now : ℕ) :
    (failedEntry entry now).1.firstFailAt = now ∨
      ∃ e ∈ entry, (failedEntry entry now).1.firstFailAt = e.firstFailAt := by
  cases entry with
  | none => exact .inl rfl
  | some e =>
    rw [failedEntry]
    split_ifs
    · exact .inl rfl
    · exact .inl rfl
    · exact .inr ⟨e, rfl, rfl⟩

theorem Timely.next (hs : Timely s) (hnext : Auth.next s event = some t) : Timely t := by
  obtain ⟨hclock, rfl⟩ := next_eq_some.mp hnext
  intro email e (he : (apply s.entries event).lookup email = some e)
  change e.firstFailAt ≤ event.now
  cases event with
  | locked email' now => exact (hs email e he).trans hclock
  | fail email' now =>
    dsimp only [LoginEvent.now] at hclock ⊢
    by_cases h : email = email'
    · subst h
      rw [apply, lookup_fail_self] at he
      obtain rfl := Option.some.inj he
      rcases firstFailAt_failedEntry (s.entries.lookup email) now with h | ⟨e, hmem, h⟩
      · exact h.le
      · rw [h]
        exact (hs email e hmem).trans hclock
    · rw [apply, lookup_fail_ne h] at he
      rcases lookup_cleaned s.entries now email with hsame | hlive
      · exact (hs email e (hsame ▸ he)).trans hclock
      · rw [hlive, live_eq_some] at he
        exact (hs email e he.1).trans hclock
  | success email' now =>
    dsimp only [LoginEvent.now] at hclock ⊢
    by_cases h : email = email'
    · subst h
      rw [apply, success, AList.lookup_erase] at he
      cases he
    · rw [apply, success, AList.lookup_erase_ne h] at he
      exact (hs email e he).trans hclock

theorem timely_of_run (hrun : Run Auth.next (fun _ _ ↦ True) .start events s) : Timely s :=
  hrun.preserves (fun _ _ _ hs _ hnext ↦ hs.next hnext) (fun _ _ he ↦ nomatch he)

theorem failedEntry_of_locked {e : LockoutEntry} (hlock : until' ≤ e.lockedUntil)
    (hfirst : e.firstFailAt ≤ now) (hnow : now < until') :
    until' ≤ (failedEntry (some e) now).1.lockedUntil := by
  have hspan := e.lock_le
  have hsame : lockDuration = failWindow := rfl
  rw [failedEntry, if_neg (by omega)]
  split_ifs
  · exact (hlock.trans hspan).trans (Nat.add_le_add_right hfirst _)
  · exact hlock

theorem Held.next (h : Held email until' s) (hs : Timely s) (hnext : Auth.next s event = some t)
    (hsuccess : event.isSuccess email = false) (hnow : event.now < until') :
    Held email until' t := by
  obtain ⟨hclock, rfl⟩ := next_eq_some.mp hnext
  obtain ⟨e, he, hlock⟩ := h
  cases event with
  | locked email' now => exact ⟨e, he, hlock⟩
  | fail email' now =>
    dsimp only [LoginEvent.now] at hclock hnow
    by_cases h : email = email'
    · subst h
      refine ⟨_, lookup_fail_self .., ?_⟩
      rw [he]
      exact failedEntry_of_locked hlock ((hs email e he).trans hclock) hnow
    · have hlive : e.expired now = false := by
        rw [LockoutEntry.expired, decide_eq_false (p := e.lockedUntil < now) (by omega),
          Bool.and_false]
      exact ⟨e, lookup_fail_of_unexpired h he hlive, hlock⟩
  | success email' now =>
    have h : email ≠ email' := fun h ↦ by simp [LoginEvent.isSuccess, h] at hsuccess
    exact ⟨e, by rwa [apply, success, AList.lookup_erase_ne h], hlock⟩

theorem Held.locked (h : Held email until' s) (hnow : now < until') :
    locked s.entries email now = true := by
  obtain ⟨e, he, hlock⟩ := h
  rw [Auth.locked, he]
  exact decide_eq_true (hnow.trans_le hlock)

theorem held_of_locked (h : locked s.entries email now = true) : Held email (now + 1) s := by
  obtain ⟨e, he, hlock⟩ := (Option.any_eq_true _ _).mp h
  exact ⟨e, he, of_decide_eq_true hlock⟩

def LockedUntil (email : String) (until' : ℕ) (s : Lockout) : Prop :=
  ∀ events t, Run Auth.next (fun _ event ↦ event.isSuccess email = false) s events t →
    ∀ now, t.clock ≤ now → now < until' → Auth.locked t.entries email now = true

theorem Held.lockedUntil (h : Held email until' s) (hs : Timely s) :
    LockedUntil email until' s := by
  intro events t hrun now hclock hnow
  have hinv : Timely t ∧ (t.clock < until' → Held email until' t) := by
    refine hrun.preserves (I := fun t ↦ Timely t ∧ (t.clock < until' → Held email until' t))
      (fun s event t hs hsuccess hnext ↦ ⟨hs.1.next hnext, fun hlt ↦ ?_⟩) ⟨hs, fun _ ↦ h⟩
    obtain ⟨hle, rfl⟩ := next_eq_some.mp hnext
    exact (hs.2 (hle.trans_lt hlt)).next hs.1 hnext hsuccess hlt
  exact (hinv.2 (hclock.trans_lt hnow)).locked hnow

end Held

section Cleanup

variable {s t : Lockout} {events : List LoginEvent} {email : String} {now : ℕ}

def answers (email : String) : Entries → List LoginEvent → List Bool
  | _, [] => []
  | entries, event :: events =>
    (if event.email = email then (answer entries event).toList else []) ++
      answers email (apply entries event) events

theorem any_locked_live (entry : Option LockoutEntry) (now : ℕ) :
    (live LockoutEntry.expired entry now).any (fun e ↦ now < e.lockedUntil) =
      entry.any (fun e ↦ now < e.lockedUntil) := by
  cases entry with
  | none => rfl
  | some e =>
    cases he : e.expired now with
    | false => rw [live_some_of_unexpired LockoutEntry.expired he]
    | true =>
      have hover : ¬ now < e.lockedUntil := by
        simp only [LockoutEntry.expired, Bool.and_eq_true, decide_eq_true_eq] at he
        omega
      rw [live_some_of_expired LockoutEntry.expired he]
      simp [hover]

theorem answer_congr {entries entries' : Entries} {event : LoginEvent}
    (h : live LockoutEntry.expired (entries.lookup event.email) event.now =
      live LockoutEntry.expired (entries'.lookup event.email) event.now) :
    answer entries event = answer entries' event ∧
      live LockoutEntry.expired ((apply entries event).lookup event.email) event.now =
        live LockoutEntry.expired ((apply entries' event).lookup event.email) event.now := by
  cases event with
  | locked email now =>
    dsimp only [LoginEvent.email, LoginEvent.now] at h
    refine ⟨?_, h⟩
    rw [answer, answer, locked, locked, ← any_locked_live, h, any_locked_live]
  | fail email now =>
    dsimp only [LoginEvent.email, LoginEvent.now] at h ⊢
    have hentry : failedEntry (entries.lookup email) now =
        failedEntry (entries'.lookup email) now := by
      rw [← failedEntry_live, h, failedEntry_live]
    rw [answer, answer, fail_snd, fail_snd, apply, apply, lookup_fail_self, lookup_fail_self,
      hentry]
    exact ⟨rfl, rfl⟩
  | success email now =>
    dsimp only [LoginEvent.email, LoginEvent.now]
    rw [apply, apply, success, success, AList.lookup_erase, AList.lookup_erase]
    exact ⟨rfl, rfl⟩

theorem answers_filter {ok : Lockout → LoginEvent → Prop} (hrun : Run next ok s events t)
    {entries' : Entries} (h : live LockoutEntry.expired (s.entries.lookup email) s.clock =
      live LockoutEntry.expired (entries'.lookup email) s.clock) :
    answers email s.entries events =
      answers email entries' (events.filter (fun event ↦ event.email = email)) := by
  induction hrun generalizing entries' with
  | nil => rfl
  | @cons s t u event events _ hnext _ ih =>
    obtain ⟨hclock, rfl⟩ := next_eq_some.mp hnext
    have hnow := live_eq_of_le LockoutEntry.expired expired_mono hclock h
    rw [answers]
    by_cases hemail : event.email = email
    · subst hemail
      obtain ⟨hanswer, hafter⟩ := answer_congr hnow
      rw [if_pos rfl, filter_cons_of_pos (by simp), answers, if_pos rfl, hanswer, ih hafter]
    · have hkept : live LockoutEntry.expired ((Auth.apply s.entries event).lookup email) event.now =
          live LockoutEntry.expired (s.entries.lookup email) event.now :=
        live_apply_ne (Ne.symm hemail)
      rw [if_neg hemail, filter_cons_of_neg (by simpa using hemail), nil_append]
      exact ih (hkept.trans hnow)

theorem unexpired_failedEntry (entry : Option LockoutEntry) (now : ℕ) :
    (failedEntry entry now).1.expired now = false := by
  have hwindow : (failedEntry entry now).1.firstFailAt = now ∨
      ¬ failWindow < now - (failedEntry entry now).1.firstFailAt := by
    cases entry with
    | none => exact .inl rfl
    | some e =>
      rw [failedEntry]
      split_ifs with hopen
      · exact .inl rfl
      · exact .inl rfl
      · exact .inr hopen
  have hsmall : ¬ failWindow < now - (failedEntry entry now).1.firstFailAt := by
    rcases hwindow with h | h
    · rw [h, Nat.sub_self]
      exact Nat.not_lt_zero _
    · exact h
  rw [LockoutEntry.expired, decide_eq_false hsmall, Bool.false_and]

theorem unexpired_of_overfull (hnext : next s (.fail email now) = some t)
    (hfull : lockoutMaxEntries < t.entries.entries.length) :
    ∀ x ∈ t.entries.entries, x.2.expired now = false := by
  obtain ⟨-, rfl⟩ := next_eq_some.mp hnext
  intro x (hx : x ∈ (fail s.entries email now).1.entries)
  change lockoutMaxEntries < (fail s.entries email now).1.entries.length at hfull
  rw [fail, AList.entries_insert] at hx hfull
  have herase := kerase_sublist email (cleaned s.entries now).entries
  have hpruned : cleaned s.entries now = prune LockoutEntry.expired s.entries now := by
    rw [cleaned]
    split_ifs with h
    · rfl
    · rw [length_cons, cleaned, if_neg h] at hfull
      rw [cleaned, if_neg h] at herase
      have := herase.length_le
      omega
  rcases mem_cons.mp hx with rfl | hx
  · exact unexpired_failedEntry _ _
  · have hmem := herase.subset hx
    rw [hpruned] at hmem
    exact unexpired_of_mem_prune LockoutEntry.expired hmem

/-- The clean-up changes no answer, only the account's own success shortens a lock, and an
overfull table holds nothing the clean-up could drop. -/
theorem cleanup_invisible (hrun : Run next (fun _ _ ↦ True) .start events s) :
    (∀ email, answers email ∅ events =
      answers email ∅ (events.filter (fun event ↦ event.email = email))) ∧
    (∀ event t email now, next s event = some t → event.isSuccess email = false →
      t.clock ≤ now → locked s.entries email now = true → locked t.entries email now = true) ∧
    ∀ email now t, next s (.fail email now) = some t →
      lockoutMaxEntries < t.entries.entries.length →
        ∀ x ∈ t.entries.entries, x.2.expired now = false := by
  refine ⟨fun email ↦ answers_filter hrun rfl, fun event t email now hnext hsuccess hclock hlock ↦ ?_,
    fun email now t hnext hfull ↦ unexpired_of_overfull hnext hfull⟩
  have htimely := timely_of_run hrun
  obtain ⟨-, rfl⟩ := next_eq_some.mp hnext
  exact ((held_of_locked hlock).next htimely hnext hsuccess (Nat.lt_succ_of_le hclock)).locked
    (Nat.lt_succ_self now)

end Cleanup

section Bound

def emailOf (i : ℕ) : String := String.ofList (List.replicate i 'a')

theorem emailOf_injective : Function.Injective emailOf := by
  intro i j h
  have hlists := String.ofList_injective h
  simpa using congrArg List.length hlists

def failOnce (i : ℕ) : LoginEvent := .fail (emailOf i) 0

theorem run_failOnce (n : ℕ) : ∃ s, Run next (fun _ _ ↦ True) .start ((List.range n).map failOnce) s ∧
    s.clock = 0 ∧ s.entries.entries.length = n ∧
      (∀ x ∈ s.entries.entries, x.2.expired 0 = false) ∧
      ∀ email ∈ s.entries, ∃ i < n, email = emailOf i := by
  induction n with
  | zero => exact ⟨.start, .nil _, rfl, rfl, fun _ hx ↦ absurd hx not_mem_nil,
      fun _ hemail ↦ absurd hemail (AList.notMem_empty _)⟩
  | succ n ih =>
    obtain ⟨s, hrun, hclock, hlength, hfresh, hemails⟩ := ih
    have hcleaned : cleaned s.entries 0 = s.entries := by
      rw [cleaned]
      split_ifs
      · exact AList.ext (filter_eq_self.mpr (fun x hx ↦ by rw [hfresh x hx]; rfl))
      · rfl
    have hnew : emailOf n ∉ s.entries := by
      intro hmem
      obtain ⟨i, hi, heq⟩ := hemails _ hmem
      exact hi.ne (emailOf_injective heq).symm
    have hnone : s.entries.lookup (emailOf n) = none := AList.lookup_eq_none.mpr hnew
    have happly : apply s.entries (failOnce n) = s.entries.insert (emailOf n) (.opened 0) := by
      rw [failOnce, apply, fail, hcleaned, hnone]
      rfl
    have hentries : (apply s.entries (failOnce n)).entries =
        ⟨emailOf n, .opened 0⟩ :: s.entries.entries := by
      rw [happly, AList.entries_insert_of_notMem hnew]
    refine ⟨⟨apply s.entries (failOnce n), 0⟩, ?_, rfl, ?_, ?_, ?_⟩
    · rw [range_succ, map_append]
      exact hrun.trans (.cons trivial (next_eq_some.mpr ⟨hclock.le, rfl⟩) (.nil _))
    · rw [hentries, length_cons, hlength]
    · intro x (hx : x ∈ (apply s.entries (failOnce n)).entries)
      rw [hentries] at hx
      rcases mem_cons.mp hx with rfl | hx
      · rfl
      · exact hfresh x hx
    · intro email (hemail : email ∈ apply s.entries (failOnce n))
      rw [happly, AList.mem_insert] at hemail
      rcases hemail with rfl | hemail
      · exact ⟨n, Nat.lt_succ_self n, rfl⟩
      · obtain ⟨i, hi, rfl⟩ := hemails _ hemail
        exact ⟨i, hi.trans (Nat.lt_succ_self n), rfl⟩

def fiveFails : List LoginEvent := List.replicate 5 (.fail "a@b.c" 0)

def fiveFailed : Lockout := ⟨fiveFails.foldl apply ∅, 0⟩

theorem run_fiveFails : Run next (fun _ _ ↦ True) .start fiveFails fiveFailed :=
  .cons trivial rfl (.cons trivial rfl (.cons trivial rfl (.cons trivial rfl
    (.cons trivial rfl (.nil _)))))

theorem cleanup_invisible_fiveFails : answers "a@b.c" ∅ fiveFails =
    answers "a@b.c" ∅ (fiveFails.filter (fun event ↦ event.email = "a@b.c")) :=
  (cleanup_invisible run_fiveFails).1 "a@b.c"

/-- More accounts than the bound stand in the table, and a success lifts a lock. -/
theorem lockout_overfull_and_lifted :
    (∃ events s, Run next (fun _ _ ↦ True) .start events s ∧
      lockoutMaxEntries < s.entries.entries.length) ∧
    ∃ s event t email now, Run next (fun _ _ ↦ True) .start fiveFails s ∧
      next s event = some t ∧ t.clock ≤ now ∧ locked s.entries email now = true ∧
        locked t.entries email now = false := by
  constructor
  · obtain ⟨s, hrun, -, hlength, -⟩ := run_failOnce (lockoutMaxEntries + 1)
    exact ⟨_, s, hrun, by rw [hlength]; exact Nat.lt_succ_self _⟩
  · exact ⟨fiveFailed, .success "a@b.c" 0, ⟨success fiveFailed.entries "a@b.c", 0⟩, "a@b.c", 0,
      run_fiveFails, rfl, le_rfl, by decide, by decide⟩

end Bound

section Window

variable {s t u : Lockout} {mid : List LoginEvent} {event : LoginEvent} {email : String}
  {first fifth : ℕ}

def Quiet (email : String) (s : Lockout) (event : LoginEvent) : Prop :=
  event.isSuccess email = false ∧
    (event.isFail email = true → answer s.entries event ≠ some true)

def WindowHolds (entry : Option LockoutEntry) (first fifth : ℕ) : Prop :=
  ∀ e ∈ entry, first ≤ e.firstFailAt + failWindow → fifth ≤ e.firstFailAt + failWindow

def Counts (email : String) (opened fails : ℕ) (s : Lockout) : Prop :=
  ∃ e, s.entries.lookup email = some e ∧ e.firstFailAt = opened ∧ fails ≤ e.fails

def Short (email : String) (opened fails : ℕ) (s : Lockout) : Prop :=
  ∀ e ∈ s.entries.lookup email,
    e.firstFailAt = opened ∨ (e.lockedUntil = 0 ∧ e.fails < fails)

theorem failedEntry_open {e : LockoutEntry} {now : ℕ} (hopen : now ≤ e.firstFailAt + failWindow) :
    (maxLoginFails ≤ e.fails + 1 ∧ failedEntry (some e) now = (.locking now, true)) ∨
      ((failedEntry (some e) now).2 = false ∧
        (failedEntry (some e) now).1.firstFailAt = e.firstFailAt ∧
        (failedEntry (some e) now).1.lockedUntil = e.lockedUntil ∧
        (failedEntry (some e) now).1.fails = e.fails + 1) := by
  rw [failedEntry, if_neg (by omega)]
  split_ifs with h
  · exact .inl ⟨h, rfl⟩
  · exact .inr ⟨rfl, rfl, rfl, rfl⟩

theorem failedEntry_closed {e : LockoutEntry} {now : ℕ} (hclosed : e.firstFailAt + failWindow < now) :
    failedEntry (some e) now = (.opened now, false) := by
  rw [failedEntry, if_pos (by omega)]

theorem not_locks_of_quiet {now : ℕ} (h : Quiet email s (.fail email now)) :
    (failedEntry (s.entries.lookup email) now).2 = false := by
  have hanswer := h.2 (decide_eq_true rfl)
  rw [answer, fail_snd] at hanswer
  simpa using hanswer

theorem Counts.next {opened fails : ℕ} (h : Counts email opened fails s)
    (hquiet : Quiet email s event) (hnext : Auth.next s event = some t)
    (hopen : t.clock ≤ opened + failWindow) :
    Counts email opened (fails + [event].countP (LoginEvent.isFail email)) t := by
  obtain ⟨-, rfl⟩ := next_eq_some.mp hnext
  obtain ⟨e, he, rfl, hfails⟩ := h
  change event.now ≤ e.firstFailAt + failWindow at hopen
  cases event with
  | locked email' now => exact ⟨e, he, rfl, hfails⟩
  | fail email' now =>
    dsimp only [LoginEvent.now] at hopen
    by_cases h : email' = email
    · subst h
      have hquiet := not_locks_of_quiet hquiet
      rw [he] at hquiet
      rcases failedEntry_open hopen with ⟨-, hlock⟩ | ⟨-, hfirst, -, hcount⟩
      · rw [hlock] at hquiet
        cases hquiet
      · refine ⟨_, lookup_fail_self .., ?_, ?_⟩
        · rw [he, hfirst]
        · rw [he, hcount]
          simpa [LoginEvent.isFail] using hfails
    · have hlive : e.expired now = false := by
        rw [LockoutEntry.expired, decide_eq_false (p := failWindow < _) (by omega),
          Bool.false_and]
      exact ⟨e, lookup_fail_of_unexpired (Ne.symm h) he hlive, rfl,
        by simpa [LoginEvent.isFail, h] using hfails⟩
  | success email' now =>
    have hne : email ≠ email' := fun h ↦ by simp [Quiet, LoginEvent.isSuccess, h] at hquiet
    refine ⟨e, ?_, rfl, hfails⟩
    change (success s.entries email').lookup email = some e
    rwa [success, AList.lookup_erase_ne hne]

theorem Short.next {opened fails : ℕ} (h : Short email opened fails s) (hfails : 0 < fails)
    (hquiet : Quiet email s event) (hnext : Auth.next s event = some t) :
    Short email opened (fails + [event].countP (LoginEvent.isFail email)) t := by
  obtain ⟨-, rfl⟩ := next_eq_some.mp hnext
  intro e' (he' : (apply s.entries event).lookup email = some e')
  cases event with
  | locked email' now => exact h e' he'
  | fail email' now =>
    by_cases hemail : email' = email
    · subst hemail
      have hcount : [LoginEvent.fail email' now].countP (LoginEvent.isFail email') = 1 := by
        simp [LoginEvent.isFail]
      have hquiet := not_locks_of_quiet hquiet
      rw [hcount]
      rw [apply, lookup_fail_self] at he'
      obtain rfl := Option.some.inj he'
      have hopened : ((LockoutEntry.opened now).lockedUntil = 0) ∧
          (LockoutEntry.opened now).fails < fails + 1 := ⟨rfl, Nat.succ_lt_succ hfails⟩
      cases he : s.entries.lookup email' with
      | none => exact .inr hopened
      | some e =>
        rw [he] at hquiet
        rcases le_or_gt now (e.firstFailAt + failWindow) with hopen | hclosed
        · rcases failedEntry_open hopen with ⟨-, hlock⟩ | ⟨-, hfirst, huntil, hcounted⟩
          · rw [hlock] at hquiet
            cases hquiet
          · rw [hfirst, huntil, hcounted]
            exact (h e he).imp_right (fun h ↦ ⟨h.1, Nat.succ_lt_succ h.2⟩)
        · rw [failedEntry_closed hclosed]
          exact .inr hopened
    · have hcount : [LoginEvent.fail email' now].countP (LoginEvent.isFail email) = 0 := by
        simp [LoginEvent.isFail, hemail]
      rw [apply, lookup_fail_ne (Ne.symm hemail)] at he'
      rw [hcount]
      rcases lookup_cleaned s.entries now email with hsame | hsame
      · exact h e' (hsame ▸ he')
      · rw [hsame, live_eq_some] at he'
        exact h e' he'.1
  | success email' now =>
    have hne : email ≠ email' := fun h ↦ by simp [Quiet, LoginEvent.isSuccess, h] at hquiet
    rw [apply, success, AList.lookup_erase_ne hne] at he'
    exact h e' he'

theorem clock_le_of_run {ok : Lockout → LoginEvent → Prop} {events : List LoginEvent}
    (hrun : Run next ok s events t) : s.clock ≤ t.clock := by
  refine hrun.climbs (R := fun s t ↦ s.clock ≤ t.clock) (fun _ ↦ le_rfl)
    (fun _ _ _ h h' ↦ h.trans h') (fun s event t _ hnext ↦ ?_)
  obtain ⟨hclock, rfl⟩ := next_eq_some.mp hnext
  exact hclock

theorem Counts.run {opened fails : ℕ} (hrun : Run Auth.next (Quiet email) s mid t)
    (h : Counts email opened fails s) (hopen : t.clock ≤ opened + failWindow) :
    Counts email opened (fails + mid.countP (LoginEvent.isFail email)) t := by
  induction hrun generalizing fails with
  | nil => simpa using h
  | cons hquiet hnext hrest ih =>
    have hstep := h.next hquiet hnext ((clock_le_of_run hrest).trans hopen)
    have hend := ih hstep hopen
    rwa [Nat.add_assoc, ← countP_append, singleton_append] at hend

theorem Short.run {opened fails : ℕ} (hrun : Run Auth.next (Quiet email) s mid t)
    (h : Short email opened fails s) (hfails : 0 < fails) :
    Short email opened (fails + mid.countP (LoginEvent.isFail email)) t := by
  induction hrun generalizing fails with
  | nil => simpa using h
  | cons hquiet hnext hrest ih =>
    have hend := ih (h.next hfails hquiet hnext) (Nat.add_pos_left hfails _)
    rwa [Nat.add_assoc, ← countP_append, singleton_append] at hend

theorem counts_first (hwindow : WindowHolds (s.entries.lookup email) first fifth)
    (hspan : fifth ≤ first + failWindow) (hquiet : Quiet email s (.fail email first))
    (hnext : Auth.next s (.fail email first) = some t) :
    ∃ opened, fifth ≤ opened + failWindow ∧ Counts email opened 1 t := by
  obtain ⟨-, rfl⟩ := next_eq_some.mp hnext
  have hlookup := lookup_fail_self s.entries email first
  have hquiet := not_locks_of_quiet hquiet
  cases he : s.entries.lookup email with
  | none =>
    rw [he] at hlookup
    exact ⟨first, hspan, _, hlookup, rfl, le_rfl⟩
  | some e =>
    rw [he] at hquiet hlookup
    rcases le_or_gt first (e.firstFailAt + failWindow) with hopen | hclosed
    · rcases failedEntry_open hopen with ⟨-, hlock⟩ | ⟨-, hfirst, -, hcount⟩
      · rw [hlock] at hquiet
        cases hquiet
      · exact ⟨e.firstFailAt, hwindow e he hopen, _, hlookup, hfirst, by rw [hcount]; omega⟩
    · rw [failedEntry_closed hclosed] at hlookup
      exact ⟨first, hspan, _, hlookup, rfl, le_rfl⟩

theorem short_first (hwindow : ¬ WindowHolds (s.entries.lookup email) first fifth)
    (hquiet : Quiet email s (.fail email first))
    (hnext : Auth.next s (.fail email first) = some t) :
    ∃ opened, opened + failWindow < fifth ∧ Short email opened 1 t := by
  obtain ⟨-, rfl⟩ := next_eq_some.mp hnext
  simp only [WindowHolds, not_forall, not_le] at hwindow
  obtain ⟨e, he, hopen, hclosed⟩ := hwindow
  have hlookup := lookup_fail_self s.entries email first
  have hquiet := not_locks_of_quiet hquiet
  rw [Option.mem_def.mp he] at hlookup hquiet
  rcases failedEntry_open hopen with ⟨-, hlock⟩ | ⟨-, hfirst, -⟩
  · rw [hlock] at hquiet
    cases hquiet
  · refine ⟨e.firstFailAt, hclosed, fun e' he' ↦ .inl ?_⟩
    rw [← hfirst, ← Option.some.inj (hlookup.symm.trans he')]

theorem Counts.locks {opened : ℕ} (h : Counts email opened 4 s)
    (hopen : fifth ≤ opened + failWindow) (hnext : Auth.next s (.fail email fifth) = some t) :
    Held email (fifth + lockDuration) t := by
  obtain ⟨-, rfl⟩ := next_eq_some.mp hnext
  obtain ⟨e, he, rfl, hfails⟩ := h
  refine ⟨_, lookup_fail_self .., ?_⟩
  rw [he]
  rcases failedEntry_open hopen with ⟨-, hlock⟩ | ⟨-, -, -, hcount⟩
  · rw [hlock]
    exact le_rfl
  · have := (failedEntry (some e) fifth).1.fails_lt
    rw [hcount, maxLoginFails] at this
    omega

theorem Short.not_locked {opened : ℕ} (h : Short email opened 4 s)
    (hclosed : opened + failWindow < fifth) (hnext : Auth.next s (.fail email fifth) = some t) :
    locked t.entries email fifth = false := by
  obtain ⟨-, rfl⟩ := next_eq_some.mp hnext
  have hzero : (failedEntry (s.entries.lookup email) fifth).1.lockedUntil = 0 := by
    cases he : s.entries.lookup email with
    | none => rfl
    | some e =>
      rcases le_or_gt fifth (e.firstFailAt + failWindow) with hopen | hlate
      · rcases h e he with rfl | ⟨huntil, hfails⟩
        · omega
        · rcases failedEntry_open hopen with ⟨hmax, -⟩ | ⟨-, -, hsame, -⟩
          · rw [maxLoginFails] at hmax
            omega
          · rw [hsame, huntil]
      · rw [failedEntry_closed hlate]
        rfl
  change locked (fail s.entries email fifth).1 email fifth = false
  rw [locked, lookup_fail_self]
  simp [hzero]

/-- Five failures inside the window lock the account exactly when no earlier window
runs out between the first and the fifth of them. -/
theorem five_fails_lock_iff {front : List LoginEvent}
    (hfront : Run next (fun _ _ ↦ True) .start front s)
    (hmid : Run next (Quiet email) s (.fail email first :: mid) t)
    (hthree : mid.countP (LoginEvent.isFail email) = 3) (hspan : fifth ≤ first + failWindow)
    (hlast : next t (.fail email fifth) = some u) :
    LockedUntil email (fifth + lockDuration) u ↔
      WindowHolds (s.entries.lookup email) first fifth := by
  have hclock := (next_eq_some.mp hlast).1
  have htimely : Timely u := by
    have hmid' : Run next (fun _ _ ↦ True) s (.fail email first :: mid) t :=
      hmid.mono (fun _ _ _ ↦ trivial)
    exact timely_of_run ((hfront.trans hmid').trans (.cons trivial hlast (.nil _)))
  cases hmid with
  | cons hquiet hnext hrest =>
    constructor
    · intro hlocked
      by_contra hwindow
      obtain ⟨opened, hclosed, hshort⟩ := short_first hwindow hquiet hnext
      have hend := hshort.run hrest Nat.one_pos
      rw [hthree] at hend
      have hfree := hend.not_locked hclosed hlast
      obtain ⟨-, rfl⟩ := next_eq_some.mp hlast
      have hheld := hlocked [] _ (.nil _) fifth le_rfl (Nat.lt_add_of_pos_right (by decide))
      rw [hfree] at hheld
      cases hheld
    · intro hwindow
      obtain ⟨opened, hopen, hcounts⟩ := counts_first hwindow hspan hquiet hnext
      have hend := hcounts.run hrest (hclock.trans hopen)
      rw [hthree] at hend
      exact (hend.locks hopen hlast).lockedUntil htimely

def failAt (minute : ℕ) : LoginEvent := .fail "a@b.c" (minute * 60000000000)

def afterFails (minutes : List ℕ) : Lockout :=
  ⟨(minutes.map failAt).foldl apply ∅, (minutes.getLast?.getD 0) * 60000000000⟩

theorem five_fails_in_a_row_lock :
    LockedUntil "a@b.c" (14 * 60000000000 + lockDuration) (afterFails [0, 1, 2, 3, 14]) := by
  have hmid : Run next (Quiet "a@b.c") .start [failAt 0, failAt 1, failAt 2, failAt 3]
      (afterFails [0, 1, 2, 3]) :=
    .cons ⟨rfl, fun _ ↦ by decide⟩ rfl (.cons ⟨rfl, fun _ ↦ by decide⟩ rfl
      (.cons ⟨rfl, fun _ ↦ by decide⟩ rfl (.cons ⟨rfl, fun _ ↦ by decide⟩ rfl (.nil _))))
  exact (five_fails_lock_iff (.nil _) hmid (by decide) (by decide) rfl).mpr
    (fun _ he ↦ nomatch he)

/-- A failure ten minutes before the five opens the window that they are counted in. -/
theorem recent_fails_unlocked :
    ¬ ∀ front s email first mid t fifth u, Run next (fun _ _ ↦ True) .start front s →
      Run next (Quiet email) s (.fail email first :: mid) t →
        mid.countP (LoginEvent.isFail email) = 3 → fifth ≤ first + failWindow →
          next t (.fail email fifth) = some u → LockedUntil email (fifth + lockDuration) u := by
  intro hall
  have hfront : Run next (fun _ _ ↦ True) .start [failAt 0] (afterFails [0]) :=
    .cons trivial rfl (.nil _)
  have hmid : Run next (Quiet "a@b.c") (afterFails [0])
      [failAt 10, failAt 11, failAt 12, failAt 16] (afterFails [0, 10, 11, 12, 16]) :=
    .cons ⟨rfl, fun _ ↦ by decide⟩ rfl (.cons ⟨rfl, fun _ ↦ by decide⟩ rfl
      (.cons ⟨rfl, fun _ ↦ by decide⟩ rfl (.cons ⟨rfl, fun _ ↦ by decide⟩ rfl (.nil _))))
  have hlocked := hall _ _ _ _ _ _ (17 * 60000000000) (afterFails [0, 10, 11, 12, 16, 17]) hfront
    hmid (by decide) (by decide) rfl
  have hfree : locked (afterFails [0, 10, 11, 12, 16, 17]).entries "a@b.c" (17 * 60000000000) =
      false := by decide
  have hheld := hlocked [] _ (.nil _) (17 * 60000000000) le_rfl (by decide)
  rw [hfree] at hheld
  cases hheld

end Window

end TalaPala.Auth
