import TalaPala.Library.Rounding
import TalaPala.Library.TokenBucket
import Mathlib.Logic.Function.Basic
import Mathlib.Data.Int.ConditionallyCompleteOrder
import Mathlib.Data.Set.Finite.List

namespace TalaPala.Httpserver

open Library Library.TokenBucket List

/-! Times are whole nanoseconds of one clock, the unit of a Go duration. -/

structure RateLimiter where
  buckets : String → Option (Bucket ℤ ℚ)
  ratePerSec : ℚ
  burst : ℚ

def newRateLimiter (ratePerMin : ℤ) : RateLimiter where
  buckets _ := none
  ratePerSec := ratePerMin / 60
  burst := ratePerMin

def seconds (nanoseconds : ℤ) : ℚ := nanoseconds / 1000000000

/-- `now.Sub(last).Seconds()`, where a duration that does not fit is cut off. -/
def elapsedSeconds (now last : ℤ) : ℚ := seconds (saturate64 (now - last))

def RateLimiter.allow (rl : RateLimiter) (key : String) (now : ℤ) : Bool × RateLimiter :=
  let b := (rl.buckets key).getD ⟨rl.burst, now⟩
  let elapsed := elapsedSeconds now b.lastFill
  let b : Bucket ℤ ℚ := if 0 < elapsed then
    ⟨min rl.burst (b.tokens + elapsed * rl.ratePerSec), now⟩ else b
  if 1 ≤ b.tokens then
    (true, { rl with
      buckets := Function.update rl.buckets key (some { b with tokens := b.tokens - 1 }) })
  else (false, { rl with buckets := Function.update rl.buckets key (some b) })

/-- One tick of `cleanupLoop`, whose clock was read at `now`. -/
def RateLimiter.cleanup (rl : RateLimiter) (now : ℤ) : RateLimiter :=
  let cutoff := now - 10 * 60 * 1000000000
  { rl with buckets := fun key ↦ (rl.buckets key).filter (fun b ↦ !decide (b.lastFill < cutoff)) }

inductive LimiterEvent
  | allow (key : String) (now : ℤ)
  | cleanup (now : ℤ)

namespace LimiterEvent

def at_ : LimiterEvent → ℤ
  | allow _ now | cleanup now => now

def isCall : LimiterEvent → Bool
  | allow _ _ => true
  | cleanup _ => false

def isCallIn (keep : String → Bool) : LimiterEvent → Bool
  | allow key _ => keep key
  | cleanup _ => false

end LimiterEvent

def Timely (events : List LimiterEvent) : Prop :=
  events.Pairwise (fun e e' ↦ e'.isCall → e.at_ ≤ e'.at_)

structure LimiterAnswer where
  key : String
  now : ℤ
  allowed : Bool

namespace RateLimiter

def step (rl : RateLimiter) : LimiterEvent → RateLimiter
  | .allow key now => (rl.allow key now).2
  | .cleanup now => rl.cleanup now

def after (rl : RateLimiter) (events : List LimiterEvent) : RateLimiter := events.foldl step rl

def answers (rl : RateLimiter) : List LimiterEvent → List LimiterAnswer
  | [] => []
  | .allow key now :: rest =>
    ⟨key, now, (rl.allow key now).1⟩ :: (rl.allow key now).2.answers rest
  | .cleanup now :: rest => (rl.cleanup now).answers rest

/-- The tokens handed out to a bucket that is never full. -/
def supply (rl : RateLimiter) (now : ℤ) : ℚ := seconds now * rl.ratePerSec

/-- The terms of `newRateLimiter`, and buckets as they can stand at `now`. -/
structure Ready (rl : RateLimiter) (now : ℤ) : Prop where
  rate_nonneg : 0 ≤ rl.ratePerSec
  burst_eq : rl.burst = 60 * rl.ratePerSec
  sound : ∀ key, Sound rl.burst now (rl.buckets key)

variable {rl rl' : RateLimiter} {now t : ℤ} {key : String} {b : Bucket ℤ ℚ}

theorem ready_new {ratePerMin : ℤ} (h : 0 ≤ ratePerMin) (now : ℤ) :
    (newRateLimiter ratePerMin).Ready now where
  rate_nonneg := div_nonneg (Int.cast_nonneg h) (by norm_num)
  burst_eq := by
    rw [newRateLimiter]
    ring
  sound _ := sound_none

theorem Ready.burst_nonneg (h : rl.Ready now) : 0 ≤ rl.burst := by
  have := h.rate_nonneg
  rw [h.burst_eq]
  positivity

theorem Ready.monotone_supply (h : rl.Ready now) : Monotone rl.supply := by
  intro t u htu
  have hcast : (t : ℚ) ≤ u := Int.cast_le.mpr htu
  exact mul_le_mul_of_nonneg_right (div_le_div_of_nonneg_right hcast (by norm_num))
    h.rate_nonneg

theorem Ready.mono (h : rl.Ready now) (ht : now ≤ t) : rl.Ready t :=
  ⟨h.rate_nonneg, h.burst_eq, fun key ↦ (h.sound key).mono ht⟩

theorem Ready.full_supply (h : rl.Ready now) {last : ℤ} (hminute : last + 60 * 1000000000 ≤ t) :
    rl.burst ≤ rl.supply t - rl.supply last := by
  have hcast : (last : ℚ) + 60 * 1000000000 ≤ t := by exact_mod_cast hminute
  rw [h.burst_eq, supply, supply, ← sub_mul, seconds, seconds]
  refine mul_le_mul_of_nonneg_right ?_ h.rate_nonneg
  linarith

theorem elapsedSeconds_self (t : ℤ) : elapsedSeconds t t = 0 := by
  rw [elapsedSeconds, sub_self, saturate64_of_mem (by decide) (by decide), seconds, Int.cast_zero,
    zero_div]

theorem elapsedSeconds_of_lt {last : ℤ} (h : last < t) :
    elapsedSeconds t last = seconds (t - last) ∨
      seconds (t - last) ≥ 60 ∧ elapsedSeconds t last ≥ 60 := by
  by_cases hfits : t - last ≤ maxInt64
  · rw [elapsedSeconds, saturate64_of_mem (le_trans (by decide) (sub_pos.mpr h).le) hfits]
    exact .inl rfl
  · have hcut : saturate64 (t - last) = maxInt64 := by
      rw [saturate64, min_eq_left (not_le.mp hfits).le]
      decide
    have hmany : (maxInt64 : ℚ) ≤ (t - last : ℤ) := Int.cast_le.mpr (not_le.mp hfits).le
    rw [elapsedSeconds, hcut]
    rw [maxInt64] at *
    norm_num [seconds] at hmany ⊢
    exact .inr (by linarith)

theorem Ready.refill_eq (h : rl.Ready now) (hsound : Sound rl.burst now (some b)) :
    (if 0 < elapsedSeconds now b.lastFill then
      ⟨min rl.burst (b.tokens + elapsedSeconds now b.lastFill * rl.ratePerSec), now⟩ else b) =
      (⟨level rl.supply rl.burst (some b) now, now⟩ : Bucket ℤ ℚ) := by
  obtain ⟨hnonneg, hburst, hfill⟩ := sound_some.mp hsound
  have hsupply : rl.supply now - rl.supply b.lastFill =
      seconds (now - b.lastFill) * rl.ratePerSec := by
    simp only [supply, seconds, Int.cast_sub]
    ring
  rw [level, Option.elim, hsupply]
  rcases hfill.eq_or_lt with heq | hlt
  · rw [heq, elapsedSeconds_self, if_neg (lt_irrefl _), sub_self, seconds, Int.cast_zero,
      zero_div, zero_mul, add_zero, min_eq_right hburst, ← heq]
  · have hpos : 0 < seconds (now - b.lastFill) :=
      div_pos (Int.cast_pos.mpr (sub_pos.mpr hlt)) (by norm_num)
    rcases elapsedSeconds_of_lt hlt with heq | ⟨hreal, hcut⟩
    · rw [heq, if_pos hpos]
    · have hfull : ∀ s : ℚ, s ≥ 60 → min rl.burst (b.tokens + s * rl.ratePerSec) = rl.burst := by
        intro s hs
        have := mul_le_mul_of_nonneg_right hs h.rate_nonneg
        rw [h.burst_eq]
        exact min_eq_left (by linarith)
      rw [if_pos (by linarith), hfull _ hcut, hfull _ hreal]

theorem Ready.allow_eq (h : rl.Ready now) (key : String) :
    rl.allow key now = ((spend rl.supply rl.burst (rl.buckets key) now).1, { rl with
      buckets := Function.update rl.buckets key
        (some (spend rl.supply rl.burst (rl.buckets key) now).2) }) := by
  have hrefill : ∀ b, Sound rl.burst now (some b) →
      level rl.supply rl.burst (some b) now = level rl.supply rl.burst (rl.buckets key) now →
      (rl.buckets key).getD ⟨rl.burst, now⟩ = b → rl.allow key now =
        ((spend rl.supply rl.burst (rl.buckets key) now).1, { rl with
          buckets := Function.update rl.buckets key
            (some (spend rl.supply rl.burst (rl.buckets key) now).2) }) := by
    intro b hsound hlevel hb
    simp only [allow, hb, h.refill_eq hsound, hlevel, spend]
    split_ifs <;> rfl
  cases hb : rl.buckets key with
  | some b =>
    rw [← hb]
    exact hrefill b (hb ▸ h.sound key) (by rw [hb]) (by rw [hb]; rfl)
  | none =>
    rw [← hb]
    refine hrefill ⟨rl.burst, now⟩ (sound_some.mpr ⟨h.burst_nonneg, le_rfl, le_rfl⟩) ?_
      (by rw [hb]; rfl)
    rw [hb, level, level, Option.elim, Option.elim, sub_self, add_zero, min_self]

theorem Ready.allow (h : rl.Ready now) (key : String) : (rl.allow key now).2.Ready now := by
  rw [h.allow_eq]
  refine ⟨h.rate_nonneg, h.burst_eq, fun k ↦ ?_⟩
  by_cases hk : k = key
  · subst hk
    dsimp only
    rw [Function.update_self]
    exact sound_spend h.monotone_supply h.burst_nonneg (h.sound k)
  · dsimp only
    rw [Function.update_of_ne hk]
    exact h.sound k

theorem mem_cleanup : b ∈ (rl.cleanup t).buckets key →
    b ∈ rl.buckets key := by
  intro hb
  exact (Option.mem_filter_iff.mp hb).1

theorem Ready.cleanup (h : rl.Ready now) (t : ℤ) : (rl.cleanup t).Ready now where
  rate_nonneg := h.rate_nonneg
  burst_eq := h.burst_eq
  sound key :=
    ⟨fun b hb ↦ (h.sound key).nonneg b (mem_cleanup hb),
      fun b hb ↦ (h.sound key).le_burst b (mem_cleanup hb),
      fun b hb ↦ (h.sound key).lastFill_le b (mem_cleanup hb)⟩

/-- No call from `now` on tells the buckets of some keys apart. -/
structure AlikeOn (keep : String → Bool) (now : ℤ) (rl rl' : RateLimiter) : Prop where
  left : rl.Ready now
  right : rl'.Ready now
  rate_eq : rl'.ratePerSec = rl.ratePerSec
  alike : ∀ key, keep key = true →
    Alike rl.supply rl.burst now (rl.buckets key) (rl'.buckets key)

namespace AlikeOn

variable {keep : String → Bool}

theorem refl (h : rl.Ready now) : AlikeOn keep now rl rl :=
  ⟨h, h, rfl, fun key _ ↦ .refl (h.sound key)⟩

theorem mono (h : AlikeOn keep now rl rl') (ht : now ≤ t) : AlikeOn keep t rl rl' :=
  ⟨h.left.mono ht, h.right.mono ht, h.rate_eq, fun key hkey ↦ (h.alike key hkey).mono ht⟩

theorem supply_eq (h : AlikeOn keep now rl rl') : rl'.supply = rl.supply := by
  funext u
  rw [supply, supply, h.rate_eq]

theorem burst_eq (h : AlikeOn keep now rl rl') : rl'.burst = rl.burst := by
  rw [h.right.burst_eq, h.rate_eq, h.left.burst_eq]

theorem spend_eq (h : AlikeOn keep now rl rl') (hkey : keep key = true) :
    spend rl'.supply rl'.burst (rl'.buckets key) now =
      spend rl.supply rl.burst (rl.buckets key) now := by
  rw [h.supply_eq, h.burst_eq]
  exact ((h.alike key hkey).spend_eq le_rfl).symm

theorem allow_fst (h : AlikeOn keep now rl rl') (hkey : keep key = true) :
    (rl'.allow key now).1 = (rl.allow key now).1 := by
  rw [h.left.allow_eq, h.right.allow_eq, h.spend_eq hkey]

theorem allow (h : AlikeOn keep now rl rl') (hkey : keep key = true) :
    AlikeOn keep now (rl.allow key now).2 (rl'.allow key now).2 := by
  refine ⟨h.left.allow key, h.right.allow key, ?_, fun k hk ↦ ?_⟩
  · rw [h.left.allow_eq, h.right.allow_eq]
    exact h.rate_eq
  · rw [h.left.allow_eq, h.right.allow_eq, h.spend_eq hkey]
    dsimp only
    by_cases hk' : k = key
    · subst hk'
      rw [Function.update_self, Function.update_self]
      exact .refl (sound_spend h.left.monotone_supply h.left.burst_nonneg (h.left.sound k))
    · rw [Function.update_of_ne hk', Function.update_of_ne hk']
      exact h.alike k hk

theorem allow_other (h : AlikeOn keep now rl rl') (hkey : keep key = false) :
    AlikeOn keep now (rl.allow key now).2 rl' := by
  refine ⟨h.left.allow key, h.right, ?_, fun k hk ↦ ?_⟩
  · rw [h.left.allow_eq]
    exact h.rate_eq
  · have hne : k ≠ key := by
      rintro rfl
      exact Bool.false_ne_true (hkey.symm.trans hk)
    rw [h.left.allow_eq]
    dsimp only
    rw [Function.update_of_ne hne]
    exact h.alike k hk

theorem cleanup (h : AlikeOn keep now rl rl') (ht : t ≤ now) :
    AlikeOn keep now (rl.cleanup t) rl' := by
  refine ⟨h.left.cleanup t, h.right, h.rate_eq, fun k hk ↦ ?_⟩
  have hswept : Alike rl.supply rl.burst now ((rl.cleanup t).buckets k) (rl.buckets k) := by
    cases hb : rl.buckets k with
    | none =>
      rw [RateLimiter.cleanup]
      dsimp only
      rw [hb]
      exact .refl sound_none
    | some b =>
      have hsound := hb ▸ h.left.sound k
      rw [RateLimiter.cleanup]
      dsimp only
      rw [hb]
      by_cases hidle : b.lastFill < t - 10 * 60 * 1000000000
      · rw [Option.filter_some, decide_eq_true hidle, Bool.not_true, if_neg Bool.false_ne_true]
        refine Alike.symm (.of_idle h.left.monotone_supply hsound (fun b' hb' ↦ ?_))
        obtain rfl := Option.mem_some_iff.mp hb'
        exact h.left.full_supply (by omega)
      · rw [Option.filter_some, decide_eq_false hidle, Bool.not_false, if_pos rfl]
        exact .refl hsound
  exact hswept.trans (h.alike k hk)

end AlikeOn

section Runs

variable {events : List LimiterEvent} {keep : String → Bool}

theorem answers_filter (h : AlikeOn keep now rl rl') (hnow : ∀ e ∈ events, e.isCall → now ≤ e.at_)
    (htimely : Timely events) :
    (rl.answers events).filter (fun a ↦ keep a.key) =
      rl'.answers (events.filter (fun e ↦ e.isCallIn keep)) := by
  induction events generalizing rl rl' now with
  | nil => rfl
  | cons e rest ih =>
    obtain ⟨hfirst, hrest⟩ := pairwise_cons.mp htimely
    have hlater : ∀ e' ∈ rest, e'.isCall → now ≤ e'.at_ :=
      fun e' he' ↦ hnow e' (mem_cons_of_mem e he')
    cases e with
    | allow key t =>
      have halike : AlikeOn keep t rl rl' := h.mono (hnow _ mem_cons_self rfl)
      have hcall : (LimiterEvent.allow key t).isCallIn keep = keep key := rfl
      cases hkey : keep key with
      | true =>
        simp only [answers, filter_cons, hcall, hkey, if_true]
        rw [ih (halike.allow hkey) hfirst hrest, ← halike.allow_fst hkey]
      | false =>
        simp only [answers, filter_cons, hcall, hkey, Bool.false_eq_true, if_false]
        exact ih (halike.allow_other hkey) hfirst hrest
    | cleanup t =>
      have hmax : ∀ e' ∈ rest, e'.isCall → max now t ≤ e'.at_ :=
        fun e' he' hcall ↦ max_le (hlater e' he' hcall) (hfirst e' he' hcall)
      rw [answers, filter_cons_of_neg (Bool.false_ne_true)]
      exact ih ((h.mono (le_max_left now t)).cleanup (le_max_right now t)) hmax hrest

theorem answers_isCall (h : AlikeOn (fun _ ↦ true) now rl rl')
    (hnow : ∀ e ∈ events, e.isCall → now ≤ e.at_) (htimely : Timely events) :
    rl.answers events = rl'.answers (events.filter (fun e ↦ e.isCall)) := by
  have hcalls : (fun e : LimiterEvent ↦ e.isCall) = fun e ↦ e.isCallIn (fun _ ↦ true) := by
    funext e
    cases e <;> rfl
  have hall := answers_filter h hnow htimely
  rwa [filter_true, ← hcalls] at hall

theorem answers_append (front back : List LimiterEvent) :
    rl.answers (front ++ back) = rl.answers front ++ (rl.after front).answers back := by
  induction front generalizing rl with
  | nil => rfl
  | cons e rest ih =>
    cases e with
    | allow key t => exact congrArg _ ih
    | cleanup t => exact ih

theorem Ready.allow_supply (h : rl.Ready now) (key : String) :
    (rl.allow key now).2.supply = rl.supply := by
  rw [h.allow_eq]
  rfl

theorem answers_calls {times : List ℤ} (h : rl.Ready now) (hnow : ∀ t ∈ times, now ≤ t)
    (hsorted : times.Pairwise (· ≤ ·)) :
    (rl.answers (times.map (.allow key))).map (fun a ↦ (a.now, a.allowed)) =
      TokenBucket.answers rl.supply rl.burst (rl.buckets key) times := by
  induction times generalizing rl now with
  | nil => rfl
  | cons t rest ih =>
    obtain ⟨hfirst, hrest⟩ := pairwise_cons.mp hsorted
    have ht := h.mono (hnow t mem_cons_self)
    have htail := ih (ht.allow key) hfirst hrest
    rw [ht.allow_supply] at htail
    rw [map_cons, answers, map_cons, htail, TokenBucket.answers, ht.allow_eq]
    dsimp only
    rw [Function.update_self]

theorem exists_times (htimely : Timely events) (key : String) : ∃ times : List ℤ,
    events.filter (fun e ↦ e.isCallIn (· = key)) = times.map (.allow key) ∧
      times.Pairwise (· ≤ ·) := by
  induction events with
  | nil => exact ⟨[], rfl, .nil⟩
  | cons e rest ih =>
    obtain ⟨hfirst, hrest⟩ := pairwise_cons.mp htimely
    obtain ⟨times, htimes, hsorted⟩ := ih hrest
    cases e with
    | cleanup t => exact ⟨times, htimes, hsorted⟩
    | allow k t =>
      by_cases hk : k = key
      · subst hk
        refine ⟨t :: times, ?_, pairwise_cons.mpr ⟨fun u hu ↦ ?_, hsorted⟩⟩
        · rw [filter_cons_of_pos (by simp [LimiterEvent.isCallIn]), htimes, map_cons]
        · have hmem : LimiterEvent.allow k u ∈ times.map (.allow k) := mem_map_of_mem hu
          rw [← htimes] at hmem
          exact hfirst _ (mem_filter.mp hmem).1 rfl
      · refine ⟨times, ?_, hsorted⟩
        rw [filter_cons_of_neg (by simp [LimiterEvent.isCallIn, hk]), htimes]

theorem countP_window (h : rl.Ready now) (hnow : ∀ e ∈ events, e.isCall → now ≤ e.at_)
    (htimely : Timely events) (key : String) (start : ℚ) {length : ℚ} (hlength : 0 ≤ length) :
    ((rl.answers events).countP (fun a ↦ a.allowed &&
        decide (start ≤ seconds a.now ∧ seconds a.now ≤ start + length) &&
        decide (a.key = key)) : ℚ) ≤
      rl.burst + rl.ratePerSec * length := by
  obtain ⟨times, htimes, hsorted⟩ := exists_times htimely key
  have hfrom : ∀ t ∈ times, now ≤ t := by
    intro t ht
    have hmem : LimiterEvent.allow key t ∈ times.map (.allow key) := mem_map_of_mem ht
    rw [← htimes] at hmem
    exact hnow _ (mem_filter.mp hmem).1 rfl
  have hself : AlikeOn (· = key) now rl rl := .refl h
  have hinside : ∀ t : ℤ, start ≤ seconds t ∧ seconds t ≤ start + length ↔
      ⌈start * 1000000000⌉ ≤ t ∧ t ≤ ⌊(start + length) * 1000000000⌋ := by
    intro t
    rw [Int.ceil_le, Int.le_floor, seconds, le_div_iff₀ (by norm_num), div_le_iff₀ (by norm_num)]
  rw [← countP_filter, answers_filter hself hnow htimely, htimes]
  have hcounted : (fun a : LimiterAnswer ↦ a.allowed &&
        decide (start ≤ seconds a.now ∧ seconds a.now ≤ start + length)) =
      (fun a : ℤ × Bool ↦ a.2 && decide (⌈start * 1000000000⌉ ≤ a.1 ∧
        a.1 ≤ ⌊(start + length) * 1000000000⌋)) ∘ fun a ↦ (a.now, a.allowed) := by
    funext a
    simp only [Function.comp_apply, hinside]
  rw [hcounted, ← countP_map, answers_calls h hfrom hsorted]
  by_cases hsome : ⌈start * 1000000000⌉ ≤ ⌊(start + length) * 1000000000⌋
  · refine (countP_window_le h.monotone_supply h.burst_nonneg (h.sound key) hfrom hsorted
      hsome).trans ?_
    have hlow : start ≤ seconds ⌈start * 1000000000⌉ := ((hinside _).mpr ⟨le_rfl, hsome⟩).1
    have hhigh : seconds ⌊(start + length) * 1000000000⌋ ≤ start + length :=
      ((hinside _).mpr ⟨hsome, le_rfl⟩).2
    have hrate := mul_le_mul_of_nonneg_right (sub_le_sub hhigh hlow) h.rate_nonneg
    rw [sub_mul, add_sub_cancel_left, mul_comm length] at hrate
    exact add_le_add_right hrate rl.burst
  · have hnone : (TokenBucket.answers rl.supply rl.burst (rl.buckets key) times).countP
        (fun a ↦ a.2 && decide (⌈start * 1000000000⌉ ≤ a.1 ∧
          a.1 ≤ ⌊(start + length) * 1000000000⌋)) = 0 := by
      rw [countP_eq_zero]
      intro a _ hcount
      rw [Bool.and_eq_true, decide_eq_true_eq] at hcount
      exact hsome (hcount.2.1.trans hcount.2.2)
    rw [hnone, Nat.cast_zero]
    exact add_nonneg h.burst_nonneg (mul_nonneg h.rate_nonneg hlength)

theorem AlikeOn.of_refused {keep : String → Bool} (h : rl.Ready now)
    (hrefused : (rl.allow key now).1 = false) : AlikeOn keep now (rl.allow key now).2 rl := by
  rw [h.allow_eq] at hrefused
  refine ⟨h.allow key, h, ?_, fun k _ ↦ ?_⟩
  · rw [h.allow_eq]
  · rw [h.allow_supply, h.allow_eq]
    dsimp only
    by_cases hk : k = key
    · subst hk
      rw [Function.update_self]
      exact .of_refused h.monotone_supply h.burst_nonneg (h.sound k) hrefused
    · rw [Function.update_of_ne hk]
      exact .refl (h.sound k)

theorem Ready.step (h : rl.Ready now) {e : LimiterEvent} (he : e.isCall → now ≤ e.at_) :
    (rl.step e).Ready (max now e.at_) := by
  cases e with
  | allow key t => exact ((h.mono (he rfl)).allow key).mono (le_max_right now t)
  | cleanup t => exact (h.cleanup t).mono (le_max_left now t)

theorem Ready.after (h : rl.Ready now) (hnow : ∀ e ∈ events, e.isCall → now ≤ e.at_)
    (htimely : Timely events) (ht : now ≤ t) (hlast : ∀ e ∈ events, e.at_ ≤ t) :
    (rl.after events).Ready t := by
  induction events generalizing rl now with
  | nil => exact h.mono ht
  | cons e rest ih =>
    obtain ⟨hfirst, hrest⟩ := pairwise_cons.mp htimely
    refine ih (h.step (hnow e mem_cons_self)) (fun e' he' hcall ↦ ?_) hrest ?_ ?_
    · exact max_le (hnow e' (mem_cons_of_mem e he') hcall) (hfirst e' he' hcall)
    · exact max_le ht (hlast e mem_cons_self)
    · exact fun e' he' ↦ hlast e' (mem_cons_of_mem e he')

end Runs

end RateLimiter

/-- A key is held to its burst and its rate in every window, whatever other keys
do and whatever is swept out, and a refused call counts for nothing. -/
theorem allowed_at_rate_alone {ratePerMin : ℤ} (hrate : 0 ≤ ratePerMin)
    {events : List LimiterEvent} (htimely : Timely events) :
    let rl := newRateLimiter ratePerMin
    (∀ key start length, 0 ≤ length →
      ((rl.answers events).countP (fun a ↦ a.allowed &&
          decide (start ≤ seconds a.now ∧ seconds a.now ≤ start + length) &&
          decide (a.key = key)) : ℚ) ≤ rl.burst + rl.ratePerSec * length) ∧
    (∀ key, (rl.answers events).filter (fun a ↦ a.key = key) =
      rl.answers (events.filter (fun e ↦ e.isCallIn (· = key)))) ∧
    rl.answers (events.filter (fun e ↦ e.isCall)) = rl.answers events ∧
    ∀ front key now back, events = front ++ .allow key now :: back →
      ((rl.after front).allow key now).1 = false →
        rl.answers (front ++ back) =
          rl.answers front ++ ((rl.after front).allow key now).2.answers back := by
  intro rl
  obtain ⟨first, hfirst⟩ : ∃ first, ∀ e ∈ events, first ≤ e.at_ := by
    induction events with
    | nil => exact ⟨0, fun e he ↦ (not_mem_nil he).elim⟩
    | cons e rest ih =>
      obtain ⟨first, hfirst⟩ := ih (pairwise_cons.mp htimely).2
      refine ⟨min first e.at_, fun e' he' ↦ ?_⟩
      rcases mem_cons.mp he' with rfl | he'
      · exact min_le_right _ _
      · exact (min_le_left _ _).trans (hfirst e' he')
  have hready : rl.Ready first := RateLimiter.ready_new hrate first
  have hnow : ∀ e ∈ events, e.isCall → first ≤ e.at_ := fun e he _ ↦ hfirst e he
  refine ⟨fun key start length hlength ↦ ?_, fun key ↦ ?_, ?_, ?_⟩
  · exact RateLimiter.countP_window hready hnow htimely key start hlength
  · have hself : RateLimiter.AlikeOn (· = key) first rl rl := .refl hready
    exact RateLimiter.answers_filter hself hnow htimely
  · exact (RateLimiter.answers_isCall (.refl hready) hnow htimely).symm
  · rintro front key now back rfl hrefused
    obtain ⟨hfront, hback, hacross⟩ := pairwise_append.mp htimely
    obtain ⟨hlater, hrest⟩ := pairwise_cons.mp hback
    have hthen : (rl.after front).Ready now := by
      refine hready.after (fun e he ↦ hnow e (mem_append_left _ he)) hfront ?_ ?_
      · exact hnow (.allow key now) (mem_append_right _ mem_cons_self) rfl
      · exact fun e he ↦ hacross e he (.allow key now) mem_cons_self rfl
    rw [RateLimiter.answers_append,
      RateLimiter.answers_isCall (.of_refused hthen hrefused) hlater hrest,
      RateLimiter.answers_isCall (.refl hthen) hlater hrest]

def hourApart : List LimiterEvent :=
  [.allow "a" 0, .allow "a" 0, .allow "b" 1, .allow "a" 1, .cleanup 3600000000000,
    .allow "a" 3600000000000]

theorem hour_apart_alone :
    (newRateLimiter 2).answers (hourApart.filter (fun e ↦ e.isCall)) =
        (newRateLimiter 2).answers hourApart ∧
      ((newRateLimiter 2).answers hourApart).map LimiterAnswer.allowed =
        [true, true, true, false, true] := by
  refine ⟨(@allowed_at_rate_alone 2 (by decide) hourApart ?_).2.2.1, by decide +kernel⟩
  simp [Timely, hourApart, LimiterEvent.isCall, LimiterEvent.at_]

/-- A key whose calls keep to the rate is never refused, whatever other keys do and
whatever is swept out. -/
theorem steady_key_allowed {ratePerMin : ℤ} (hrate : 0 < ratePerMin)
    {events : List LimiterEvent} (htimely : Timely events) {key : String}
    (hsteady : (events.filter (fun e ↦ e.isCallIn (· = key))).Pairwise (fun e e' ↦
      60 * 1000000000 ≤ ratePerMin * (e'.at_ - e.at_))) :
    ∀ a ∈ (newRateLimiter ratePerMin).answers events, a.key = key → a.allowed = true := by
  intro a ha hkey
  obtain ⟨first, hfirst⟩ := ((events.map LimiterEvent.at_).finite_toSet).bddBelow
  have hnow : ∀ e ∈ events, first ≤ e.at_ := fun e he ↦ hfirst (mem_map_of_mem he)
  have hready := RateLimiter.ready_new hrate.le first
  obtain ⟨times, htimes, hsorted⟩ := RateLimiter.exists_times htimely key
  have hcalls : ∀ t ∈ times, .allow key t ∈ events := by
    intro t ht
    exact (mem_filter.mp (htimes ▸ mem_map_of_mem ht)).1
  have hmem : (a.now, a.allowed) ∈ TokenBucket.answers (newRateLimiter ratePerMin).supply
      ratePerMin none times := by
    have hself : RateLimiter.AlikeOn (· = key) first _ _ := .refl hready
    have hown := @RateLimiter.answers_calls _ _ key _ hready
      (fun t ht ↦ hnow _ (hcalls t ht)) hsorted
    rw [← htimes, ← RateLimiter.answers_filter hself (fun e he _ ↦ hnow e he) htimely] at hown
    exact hown ▸ mem_map_of_mem (mem_filter.mpr ⟨ha, decide_eq_true hkey⟩)
  have hone : (1 : ℚ) ≤ ratePerMin := by exact_mod_cast hrate
  refine answers_spaced (o := none) hone ?_ (fun _ _ ↦ hone) _ hmem
  rw [htimes, pairwise_map] at hsteady
  refine hsteady.imp (fun {t u} htu ↦ ?_)
  have hcast : 60 * 1000000000 ≤ (ratePerMin * (u - t) : ℚ) := by exact_mod_cast htu
  simp only [RateLimiter.supply, newRateLimiter, seconds]
  linarith

theorem two_a_minute_allowed : ((newRateLimiter 2).answers
    [.allow "a" 0, .allow "b" 0, .allow "b" 0, .allow "b" 0, .allow "a" 30000000000]).all
      (fun a ↦ a.key ≠ "a" || a.allowed) = true := by
  refine all_eq_true.mpr (fun a ha ↦ ?_)
  have hallowed := @steady_key_allowed 2 (by decide) _ (by simp [Timely, LimiterEvent.at_]) "a"
    (by simp [LimiterEvent.isCallIn, LimiterEvent.at_]) a ha
  by_cases hkey : a.key = "a"
  · simp [hallowed hkey]
  · simp [hkey]

end TalaPala.Httpserver
