import TalaPala.Library.TokenBucket
import TalaPala.Library.Transition

namespace TalaPala.Auth

open Library Transition

/-! Instants are nanoseconds from the zero `time.Time`, durations nanoseconds. -/

def maxLoginFails : ℕ := 5

def failWindow : ℕ := 15 * 60 * 1000000000

def lockDuration : ℕ := 15 * 60 * 1000000000

def lockoutMaxEntries : ℕ := 10000

structure LockoutEntry where
  fails : ℕ
  firstFailAt : ℕ
  lockedUntil : ℕ
  fails_lt : fails < maxLoginFails
  lock_le : lockedUntil ≤ firstFailAt + lockDuration

/-- The entries of a `loginLockout`, by email. -/
abbrev Entries := AList (fun _ : String ↦ LockoutEntry)

def LockoutEntry.expired (e : LockoutEntry) (now : ℕ) : Bool :=
  decide (failWindow < now - e.firstFailAt) && decide (e.lockedUntil < now)

def LockoutEntry.opened (now : ℕ) : LockoutEntry := ⟨1, now, 0, by decide, Nat.zero_le _⟩

def LockoutEntry.locking (now : ℕ) : LockoutEntry :=
  ⟨0, now, now + lockDuration, by decide, le_rfl⟩

def failedEntry (entry : Option LockoutEntry) (now : ℕ) : LockoutEntry × Bool :=
  match entry with
  | none => (.opened now, false)
  | some e =>
    if failWindow < now - e.firstFailAt then (.opened now, false)
    else if h : maxLoginFails ≤ e.fails + 1 then (.locking now, true)
    else ({ e with fails := e.fails + 1, fails_lt := not_le.mp h }, false)

def locked (entries : Entries) (email : String) (now : ℕ) : Bool :=
  (entries.lookup email).any (fun e ↦ now < e.lockedUntil)

def cleaned (entries : Entries) (now : ℕ) : Entries :=
  if lockoutMaxEntries ≤ entries.entries.length then prune LockoutEntry.expired entries now
  else entries

def fail (entries : Entries) (email : String) (now : ℕ) : Entries × Bool :=
  let found := cleaned entries now
  let (e, locks) := failedEntry (found.lookup email) now
  (found.insert email e, locks)

def success (entries : Entries) (email : String) : Entries := entries.erase email

inductive LoginEvent
  | locked (email : String) (now : ℕ)
  | fail (email : String) (now : ℕ)
  | success (email : String) (now : ℕ)

def LoginEvent.email : LoginEvent → String
  | .locked email _ | .fail email _ | .success email _ => email

def LoginEvent.now : LoginEvent → ℕ
  | .locked _ now | .fail _ now | .success _ now => now

def LoginEvent.isFail (email : String) : LoginEvent → Bool
  | .fail email' _ => email' = email
  | _ => false

def LoginEvent.isSuccess (email : String) : LoginEvent → Bool
  | .success email' _ => email' = email
  | _ => false

def apply (entries : Entries) : LoginEvent → Entries
  | .locked _ _ => entries
  | .fail email now => (fail entries email now).1
  | .success email _ => success entries email

/-- What the call returns; `success` returns nothing. -/
def answer (entries : Entries) : LoginEvent → Option Bool
  | .locked email now => some (locked entries email now)
  | .fail email now => some (fail entries email now).2
  | .success _ _ => none

structure Lockout where
  entries : Entries
  clock : ℕ

def Lockout.start : Lockout := ⟨∅, 0⟩

def next (s : Lockout) (event : LoginEvent) : Option Lockout :=
  if s.clock ≤ event.now then some ⟨apply s.entries event, event.now⟩ else none

theorem next_eq_some {s t : Lockout} {event : LoginEvent} :
    next s event = some t ↔ s.clock ≤ event.now ∧ t = ⟨apply s.entries event, event.now⟩ := by
  rw [next]
  split_ifs with h
  · simp [h, eq_comm]
  · simp [h]

section Entry

variable {entries : Entries} {email email' : String} {now now' : ℕ} {e : LockoutEntry}

theorem expired_mono (e : LockoutEntry) (now now' : ℕ) (h : now ≤ now')
    (he : e.expired now = true) : e.expired now' = true := by
  simp only [LockoutEntry.expired, Bool.and_eq_true, decide_eq_true_eq] at he ⊢
  omega

theorem failedEntry_live (entry : Option LockoutEntry) (now : ℕ) :
    failedEntry (live LockoutEntry.expired entry now) now = failedEntry entry now := by
  cases entry with
  | none => rfl
  | some e =>
    cases he : e.expired now with
    | false => rw [live_some_of_unexpired LockoutEntry.expired he]
    | true =>
      have hwindow : failWindow < now - e.firstFailAt := by
        simp only [LockoutEntry.expired, Bool.and_eq_true, decide_eq_true_eq] at he
        exact he.1
      rw [live_some_of_expired LockoutEntry.expired he, failedEntry, failedEntry, if_pos hwindow]

theorem lookup_cleaned (entries : Entries) (now : ℕ) (email : String) :
    (cleaned entries now).lookup email = entries.lookup email ∨
      (cleaned entries now).lookup email =
        live LockoutEntry.expired (entries.lookup email) now := by
  rw [cleaned]
  split_ifs
  · exact .inr (lookup_prune ..)
  · exact .inl rfl

theorem live_cleaned (entries : Entries) (now : ℕ) (email : String) :
    live LockoutEntry.expired ((cleaned entries now).lookup email) now =
      live LockoutEntry.expired (entries.lookup email) now := by
  rcases lookup_cleaned entries now email with h | h
  · rw [h]
  · rw [h, live_live LockoutEntry.expired expired_mono _ le_rfl]

theorem failedEntry_cleaned (entries : Entries) (now : ℕ) (email : String) :
    failedEntry ((cleaned entries now).lookup email) now =
      failedEntry (entries.lookup email) now := by
  rw [← failedEntry_live, live_cleaned, failedEntry_live]

theorem fail_snd (entries : Entries) (email : String) (now : ℕ) :
    (fail entries email now).2 = (failedEntry (entries.lookup email) now).2 := by
  rw [← failedEntry_cleaned]
  rfl

theorem lookup_fail_self (entries : Entries) (email : String) (now : ℕ) :
    (fail entries email now).1.lookup email =
      some (failedEntry (entries.lookup email) now).1 := by
  rw [← failedEntry_cleaned]
  exact AList.lookup_insert _

theorem lookup_fail_ne (h : email ≠ email') :
    (fail entries email' now).1.lookup email = (cleaned entries now).lookup email :=
  AList.lookup_insert_ne h

theorem lookup_fail_of_unexpired (h : email ≠ email') (he : entries.lookup email = some e)
    (hlive : e.expired now = false) : (fail entries email' now).1.lookup email = some e := by
  rw [lookup_fail_ne h]
  rcases lookup_cleaned entries now email with hsame | hsame
  · rw [hsame, he]
  · rw [hsame, live_eq_some]
    exact ⟨he, hlive⟩

theorem live_apply_ne {event : LoginEvent} (h : email ≠ event.email) :
    live LockoutEntry.expired ((apply entries event).lookup email) event.now =
      live LockoutEntry.expired (entries.lookup email) event.now := by
  cases event with
  | locked email' now => rfl
  | fail email' now =>
    dsimp only [LoginEvent.email, LoginEvent.now] at h ⊢
    rw [apply, lookup_fail_ne h, live_cleaned]
  | success email' now =>
    dsimp only [LoginEvent.email] at h
    rw [apply, success, AList.lookup_erase_ne h]

end Entry

end TalaPala.Auth
