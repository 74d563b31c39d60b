import TalaPala.News.FetchSafety
import Mathlib.Algebra.Order.Field.Basic
import Mathlib.Data.List.Chain

namespace TalaPala.News

open List

/-- How long things take around one `_request`, in seconds: until it reads the clock, a
sleep's overrun, from the throttle or the last hop to each request, and until it returns. -/
structure Durations where
  before : ℚ≥0
  overrun : ℚ≥0
  toWire : ℕ → ℚ≥0
  toReturn : ℚ≥0

structure Sent where
  wireAt : ℚ
  call : ℕ
  entered : ℚ
  stamp : ℚ
  overrun : ℚ
  interval : ℚ
  status : Option ℕ

structure Process where
  now : ℚ
  lastRequestAt : Option ℚ
  calls : ℕ
  trace : List Sent

def Process.start (now : ℚ) : Process := ⟨now, none, 0, []⟩

/-- One call of `_request`, as the network answers it. -/
structure Call where
  durations : Durations
  resolve : Resolver
  world : ℕ → Exchange

structure QueryRun where
  requestUrl : Text
  calls : ℕ → Call
  /-- A write of its result raises, which ends the pass. -/
  raises : Bool

structure Pass where
  gdeltMinIntervalSeconds : ℚ
  /-- `poll_gate` gives a reason not to run. -/
  gated : Bool
  queries : List QueryRun

def minRequestIntervalSeconds : ℚ := 5

def minIntervalSeconds (configured : ℚ) : ℚ := max configured minRequestIntervalSeconds

def gdeltHosts : List Text := ["api.gdeltproject.org".toList]

/-- `safe_get` takes one attempt. -/
def gdeltPolicy : FetchPolicy :=
  { defaultPolicy with maxBytes := 8000000, maxDecompressedBytes := 16 * 1024 * 1024,
                       maxAttempts := 1 }

def maxAttemptsPerQuery : ℕ := 2

def retryStatuses : List ℕ := [500, 502, 503, 504]

def throttleStatuses : List ℕ := [429]

/-- What the throttle lets `wait` return with: the stamp, and by how much a sleep
overran. -/
def waitUntil (lastRequestAt : Option ℚ) (minInterval entered : ℚ) (overrun : ℚ≥0) : ℚ × ℚ :=
  match lastRequestAt with
  | none => (entered, 0)
  | some last =>
    let remaining := minInterval - (entered - last)
    if 0 < remaining then (entered + remaining + overrun, overrun) else (entered, 0)

def Exchange.status (exchange : Exchange) : Option ℕ :=
  match exchange.answer with
  | .fails _ => none
  | .response r => some r.status

def Process.sent (p : Process) (c : Call) (mark : Sent) (hop : ℕ) : Sent :=
  { mark with wireAt := p.now + c.durations.toWire hop, status := (c.world hop).status }

def Process.put (p : Process) (c : Call) (mark : Sent) (hop : ℕ) : Process :=
  { p with now := p.now + c.durations.toWire hop, trace := p.sent c mark hop :: p.trace }

def Process.send (p : Process) (c : Call) (mark : Sent) : ℕ → ℕ → Process
  | 0, _ => p
  | remaining + 1, hop => Process.send (p.put c mark hop) c mark remaining (hop + 1)

def Ending.status : Ending → Option ℕ
  | .result status => some status
  | .http status _ => some status
  | _ => none

section Collector

variable (lib : Platform)

/-- `_request`: the throttle, and one `safe_get`. No status stands for an exception. -/
def Process.request (p : Process) (interval : ℚ) (url : Text) (c : Call) :
    Process × Option ℕ :=
  let entered := p.now + c.durations.before
  let (stamp, overrun) := waitUntil p.lastRequestAt interval entered c.durations.overrun
  let attempts := fetch lib gdeltHosts gdeltPolicy [] (fun _ ↦ c.resolve) (fun _ ↦ c.world) url
  let requests := attempts.flatMap Attempt.requests
  let mark : Sent := ⟨stamp, p.calls + 1, entered, stamp, overrun, interval, none⟩
  let stamped : Process := { p with
    now := stamp + gdeltPolicy.courtesyDelay, lastRequestAt := some stamp, calls := p.calls + 1 }
  let done := stamped.send c mark requests.length 0
  ({ done with now := done.now + c.durations.toReturn },
    attempts.getLast?.bind (fun attempt ↦ attempt.ending.status))

/-- The attempts of `_run_query`, and whether the host asked to stop. -/
def Process.runQuery (p : Process) (interval : ℚ) (query : QueryRun) : ℕ → ℕ → Process × Bool
  | 0, _ => (p, false)
  | remaining + 1, i =>
    let (p, status) := p.request lib interval query.requestUrl (query.calls i)
    match status with
    | none => Process.runQuery p interval query remaining (i + 1)
    | some status =>
      if status ∈ throttleStatuses then (p, true)
      else if status ∈ retryStatuses then Process.runQuery p interval query remaining (i + 1)
      else (p, false)

def Process.runQueries (p : Process) (interval : ℚ) : List QueryRun → Process
  | [] => p
  | query :: rest =>
    let (p, throttled) := p.runQuery lib interval query maxAttemptsPerQuery 0
    if throttled || query.raises then p else Process.runQueries p interval rest

def Process.collect (p : Process) (pass : Pass) : Process :=
  if pass.gated then p
  else p.runQueries lib (minIntervalSeconds pass.gdeltMinIntervalSeconds) pass.queries

end Collector

inductive Linked (later earlier : Sent) : Prop
  | hop : later.call = earlier.call → Linked later earlier
  | next (overrun : ℚ≥0) : later.call = earlier.call + 1 →
      waitUntil (some earlier.stamp) later.interval later.entered overrun =
        (later.stamp, later.overrun) →
      earlier.stamp ≤ earlier.wireAt → earlier.wireAt ≤ later.entered →
      later.stamp ≤ later.wireAt → Linked later earlier
  | skip (last : ℚ) : earlier.call + 1 < later.call → earlier.wireAt ≤ last →
      last + later.interval ≤ later.stamp → later.stamp ≤ later.wireAt → Linked later earlier

def Spaced (later earlier : Sent) : Prop := later.interval ≤ later.wireAt - earlier.wireAt

instance : DecidableRel Spaced := fun _ _ ↦ inferInstanceAs (Decidable (_ ≤ _))

def Unhurried (later earlier : Sent) : Prop :=
  (later.call = earlier.call → later.interval ≤ later.wireAt - earlier.wireAt) ∧
  (later.call = earlier.call + 1 →
    earlier.wireAt - earlier.stamp ≤ later.overrun + (later.wireAt - later.stamp) ∨
      later.interval ≤ (later.entered - earlier.wireAt) + (later.wireAt - later.stamp))

section Throttle

theorem waitUntil_some (last interval entered : ℚ) (overrun : ℚ≥0) :
    (0 < interval - (entered - last) ∧
      waitUntil (some last) interval entered overrun =
        (last + interval + overrun, (overrun : ℚ))) ∨
    (interval - (entered - last) ≤ 0 ∧
      waitUntil (some last) interval entered overrun = (entered, 0)) := by
  by_cases h : 0 < interval - (entered - last)
  · refine .inl ⟨h, ?_⟩
    simp only [waitUntil, if_pos h]
    congr 1
    ring
  · exact .inr ⟨not_lt.mp h, by simp only [waitUntil, if_neg h]⟩

theorem waitUntil_spaced (last interval entered : ℚ) (overrun : ℚ≥0) :
    last + interval ≤ (waitUntil (some last) interval entered overrun).1 := by
  have hoverrun := overrun.coe_nonneg
  obtain ⟨-, h⟩ | ⟨hle, h⟩ := waitUntil_some last interval entered overrun <;> rw [h]
  · linarith
  · linarith

theorem le_waitUntil (last : Option ℚ) (interval entered : ℚ) (overrun : ℚ≥0) :
    entered ≤ (waitUntil last interval entered overrun).1 := by
  cases last with
  | none => exact le_rfl
  | some last =>
    have hoverrun := overrun.coe_nonneg
    obtain ⟨hlt, h⟩ | ⟨-, h⟩ := waitUntil_some last interval entered overrun <;> rw [h]
    linarith

theorem Linked.spaced_iff {later earlier : Sent} (h : Linked later earlier) :
    Spaced later earlier ↔ Unhurried later earlier := by
  rw [Spaced, Unhurried]
  cases h with
  | hop hcall =>
    exact ⟨fun h ↦ ⟨fun _ ↦ h, fun hnext ↦ absurd hnext (by omega)⟩, fun h ↦ h.1 hcall⟩
  | next overrun hcall hwait hstamp hentered hwire =>
    have hoverrun := overrun.coe_nonneg
    refine ⟨fun h ↦ ⟨fun hsame ↦ absurd hsame (by omega), fun _ ↦ ?_⟩, fun h ↦ ?_⟩
    · obtain ⟨hlt, heq⟩ | ⟨hle, heq⟩ :=
        waitUntil_some earlier.stamp later.interval later.entered overrun
      · obtain ⟨hs, ho⟩ := Prod.mk.inj (heq.symm.trans hwait)
        left
        linarith
      · obtain ⟨hs, ho⟩ := Prod.mk.inj (heq.symm.trans hwait)
        right
        linarith
    · obtain ⟨hlt, heq⟩ | ⟨hle, heq⟩ :=
        waitUntil_some earlier.stamp later.interval later.entered overrun
      · obtain ⟨hs, ho⟩ := Prod.mk.inj (heq.symm.trans hwait)
        rcases h.2 hcall with h | h <;> linarith
      · obtain ⟨hs, ho⟩ := Prod.mk.inj (heq.symm.trans hwait)
        rcases h.2 hcall with h | h <;> linarith
  | skip last hcall hlast hstamp hwire =>
    refine ⟨fun _ ↦ ⟨fun hsame ↦ absurd hsame (by omega), fun hnext ↦ absurd hnext (by omega)⟩,
      fun _ ↦ ?_⟩
    linarith

end Throttle

structure Process.Timed (p : Process) : Prop where
  chain : p.trace.IsChain Linked
  newest : ∀ r ∈ p.trace.head?, r.stamp ≤ r.wireAt ∧ r.wireAt ≤ p.now ∧ ∃ last,
    p.lastRequestAt = some last ∧ (r.call = p.calls ∧ r.stamp = last ∨
      r.call < p.calls ∧ r.wireAt ≤ last)

section Calls

variable {p : Process} {c : Call} {mark : Sent}

variable (mark) in
theorem send_spec (remaining hop : ℕ) (hchain : p.trace.IsChain Linked)
    (hlink : ∀ r ∈ p.trace.head?, ∀ wireAt status, mark.stamp ≤ wireAt →
      Linked { mark with wireAt := wireAt, status := status } r)
    (hstamp : mark.stamp ≤ p.now) :
    let done := p.send c mark remaining hop
    done.lastRequestAt = p.lastRequestAt ∧ done.calls = p.calls ∧ p.now ≤ done.now ∧
      done.trace.IsChain Linked ∧ ∃ new, done.trace = new ++ p.trace ∧
        new.map Sent.status = ((List.range' hop remaining).map
          (fun j ↦ (c.world j).status)).reverse ∧
        ∀ r ∈ new, r.call = mark.call ∧ r.stamp = mark.stamp ∧ r.stamp ≤ r.wireAt ∧
          r.wireAt ≤ done.now := by
  induction remaining generalizing p hop with
  | zero =>
    exact ⟨rfl, rfl, le_rfl, hchain, [], rfl, rfl, fun _ hr ↦ nomatch hr⟩
  | succ remaining ih =>
    have hle : p.now ≤ (p.put c mark hop).now :=
      le_add_of_nonneg_right (c.durations.toWire hop).coe_nonneg
    have hnow : mark.stamp ≤ (p.put c mark hop).now := hstamp.trans hle
    have hchain' : (p.put c mark hop).trace.IsChain Linked :=
      isChain_cons.mpr ⟨fun r hr ↦ hlink r hr _ _ hnow, hchain⟩
    have hlink' : ∀ r ∈ (p.put c mark hop).trace.head?, ∀ wireAt status, mark.stamp ≤ wireAt →
        Linked { mark with wireAt := wireAt, status := status } r := by
      intro r hr wireAt status _
      obtain rfl := Option.some.inj hr
      exact .hop rfl
    obtain ⟨hlast, hcalls, hdone, hdoneChain, new, htrace, hstatus, hnew⟩ :=
      ih (hop + 1) hchain' hlink' hnow
    refine ⟨hlast, hcalls, hle.trans hdone, hdoneChain, new ++ [p.sent c mark hop], ?_, ?_, ?_⟩
    · rw [append_assoc]
      exact htrace
    · simp only [map_append, hstatus, range'_succ, map_cons, reverse_cons]
      rfl
    · intro r hr
      rcases mem_append.mp hr with hr | hr
      · exact hnew r hr
      · obtain rfl := mem_singleton.mp hr
        exact ⟨rfl, rfl, hnow, hdone⟩

theorem Process.Timed.link (h : p.Timed) {interval entered : ℚ} {overrun : ℚ≥0}
    (hentered : p.now ≤ entered) (hmark : mark.call = p.calls + 1)
    (hinterval : mark.interval = interval) (hsame : mark.entered = entered)
    (hwait : waitUntil p.lastRequestAt interval entered overrun = (mark.stamp, mark.overrun)) :
    ∀ r ∈ p.trace.head?, ∀ wireAt status, mark.stamp ≤ wireAt →
      Linked { mark with wireAt := wireAt, status := status } r := by
  intro r hr wireAt status hwire
  obtain ⟨hstamp, hnow, last, hlast, ⟨hcall, heq⟩ | ⟨hcall, hbefore⟩⟩ := h.newest r hr
  · refine .next overrun ?_ ?_ hstamp ?_ hwire
    · rw [hmark, hcall]
    · rw [heq, hinterval, hsame, ← hlast]
      exact hwait
    · exact hnow.trans (hsame ▸ hentered)
  · have hspaced := waitUntil_spaced last interval entered overrun
    rw [← hlast, hwait] at hspaced
    refine .skip last ?_ hbefore ?_ hwire
    · rw [hmark]
      omega
    · rw [hinterval]
      exact hspaced

theorem Process.Timed.request (h : p.Timed) (lib : Platform) (interval : ℚ) (url : Text)
    (c : Call) : (p.request lib interval url c).1.Timed ∧
      ∃ new, (p.request lib interval url c).1.trace = new ++ p.trace ∧
        new.map Sent.status = ((List.range' 0 ((fetch lib gdeltHosts gdeltPolicy []
          (fun _ ↦ c.resolve) (fun _ ↦ c.world) url).flatMap Attempt.requests).length).map
            (fun j ↦ (c.world j).status)).reverse := by
  have hentered : p.now ≤ p.now + c.durations.before :=
    le_add_of_nonneg_right c.durations.before.coe_nonneg
  have hstamp := le_waitUntil p.lastRequestAt interval (p.now + c.durations.before)
    c.durations.overrun
  rw [Process.request]
  generalize hwait : waitUntil p.lastRequestAt interval (p.now + c.durations.before)
    c.durations.overrun = waited at hstamp
  obtain ⟨stamp, overrun⟩ := waited
  have hcourtesy : stamp ≤ stamp + gdeltPolicy.courtesyDelay := by
    rw [gdeltPolicy, defaultPolicy]
    linarith
  generalize fetch lib gdeltHosts gdeltPolicy [] (fun _ ↦ c.resolve) (fun _ ↦ c.world) url =
    attempts
  obtain ⟨hlast, hcalls, hdone, hchain, new, htrace, hstatus, hnew⟩ :=
    send_spec (p := ⟨stamp + gdeltPolicy.courtesyDelay, some stamp, p.calls + 1, p.trace⟩) (c := c)
      ⟨stamp, p.calls + 1, p.now + c.durations.before, stamp, overrun, interval, none⟩
      (attempts.flatMap Attempt.requests).length 0 h.chain
      (h.link hentered rfl rfl rfl hwait) hcourtesy
  have hreturn := c.durations.toReturn.coe_nonneg
  refine ⟨⟨hchain, fun r hr ↦ ?_⟩, new, htrace, hstatus⟩
  rw [htrace] at hr
  simp only [hlast, hcalls, Option.some.injEq, exists_eq_left']
  cases new with
  | nil =>
    obtain ⟨hwire, hnow, last, -, hcall⟩ := h.newest r hr
    have hbefore : r.wireAt ≤ stamp := hnow.trans (hentered.trans hstamp)
    refine ⟨hwire, ?_, .inr ⟨?_, hbefore⟩⟩
    · have hsent := hbefore.trans (hcourtesy.trans hdone)
      linarith
    · rcases hcall with ⟨hcall, -⟩ | ⟨hcall, -⟩ <;> omega
  | cons newest rest =>
    obtain rfl := Option.some.inj hr
    obtain ⟨hcall, hsame, hwire, hnow⟩ := hnew newest mem_cons_self
    exact ⟨hwire, by linarith, .inl ⟨hcall, hsame⟩⟩

end Calls

section Statuses

variable {lib : Platform} {allowedHosts : List Text} {policy : FetchPolicy}

theorem status_of_react_ok {w next : Walk} {r : Response} {resolve : Resolver}
    (h : react lib allowedHosts policy w r resolve = .ok next) : r.status ∈ redirectStatuses := by
  rw [react] at h
  split_ifs at h
  assumption

theorem react_429 {w : Walk} {r : Response} {resolve : Resolver} (h : r.status = 429) :
    react lib allowedHosts policy w r resolve = .error (.http 429 true) := by
  simp [react, h, redirectStatuses, neverRetryStatuses]

theorem hops_statuses (world : ℕ → Exchange) (remaining hop : ℕ) (w : Walk) :
    ∀ j, (world (hop + j)).status = some 429 →
      j < (hops lib allowedHosts policy world remaining hop w).requests.length →
        j + 1 = (hops lib allowedHosts policy world remaining hop w).requests.length ∧
          (hops lib allowedHosts policy world remaining hop w).ending.status = some 429 := by
  induction remaining generalizing hop w with
  | zero => exact fun _ _ hlt ↦ absurd hlt (Nat.not_lt_zero _)
  | succ remaining ih =>
    intro j hj
    rw [hops]
    split
    · split <;> exact fun hlt ↦ absurd hlt (Nat.not_lt_zero _)
    split
    · rename_i hanswer
      intro hlt
      obtain rfl := Nat.lt_one_iff.mp hlt
      rw [Nat.add_zero, Exchange.status, hanswer] at hj
      cases hj
    · rename_i r hanswer
      have hstatus : (world hop).status = some r.status := by
        rw [Exchange.status, hanswer]
      split
      · rename_i ending hreact
        intro hlt
        obtain rfl := Nat.lt_one_iff.mp hlt
        rw [Nat.add_zero, hstatus, Option.some.injEq] at hj
        rw [react_429 hj] at hreact
        cases hreact
        exact ⟨rfl, rfl⟩
      · rename_i next hreact
        cases j with
        | zero =>
          rw [Nat.add_zero, hstatus, Option.some.injEq] at hj
          have hredirect := status_of_react_ok hreact
          rw [hj] at hredirect
          exact absurd hredirect (by decide)
        | succ j =>
          intro hlt
          rw [show hop + (j + 1) = hop + 1 + j by omega] at hj
          obtain ⟨hlen, hending⟩ := ih (hop + 1) next j hj (Nat.lt_of_succ_lt_succ hlt)
          exact ⟨by rw [length_cons, ← hlen], hending⟩

variable {resolve : Resolver} {world : ℕ → Exchange} {url : Text}

theorem attempt_statuses (headers : Headers) :
    ∀ j, (world j).status = some 429 →
      j < (attempt lib allowedHosts policy headers resolve world url).requests.length →
        j + 1 = (attempt lib allowedHosts policy headers resolve world url).requests.length ∧
          (attempt lib allowedHosts policy headers resolve world url).ending.status = some 429 := by
  intro j hj
  rw [attempt]
  split
  · exact fun hlt ↦ absurd hlt (Nat.not_lt_zero _)
  · exact hops_statuses world _ 0 _ j (by rwa [Nat.zero_add])

theorem fetch_gdelt : fetch lib gdeltHosts gdeltPolicy [] (fun _ ↦ resolve) (fun _ ↦ world) url =
    [attempt lib gdeltHosts gdeltPolicy (requestHeaders gdeltPolicy []) resolve world url] := by
  have hone : (max 1 gdeltPolicy.maxAttempts).toNat = 1 := rfl
  have hhosts : gdeltHosts ≠ [] := cons_ne_nil _ _
  rw [fetch, if_neg hhosts, hone, attempts, attempts]
  simp

end Statuses

/-- What a stretch of a pass puts on the wire: a 429 is the last answer in it, and
where the pass goes on there is none. -/
def Heeds (p p' : Process) (stopped : Bool) : Prop :=
  ∃ new, p'.trace = new ++ p.trace ∧ (∀ r ∈ new.tail, r.status ≠ some 429) ∧
    (stopped = false → ∀ r ∈ new, r.status ≠ some 429)

section Stretches

variable {p p' p'' : Process} {stopped : Bool}

theorem Heeds.refl (p : Process) (stopped : Bool) : Heeds p p stopped :=
  ⟨[], rfl, by simp, by simp⟩

theorem Heeds.trans (h : Heeds p p' false) (h' : Heeds p' p'' stopped) : Heeds p p'' stopped := by
  obtain ⟨new, htrace, -, hnone⟩ := h
  obtain ⟨new', htrace', htail, hnone'⟩ := h'
  refine ⟨new' ++ new, by rw [htrace', htrace, append_assoc], fun r hr ↦ ?_,
    fun hstopped r hr ↦ ?_⟩
  · cases new' with
    | nil => exact hnone rfl r (mem_of_mem_tail hr)
    | cons newest rest =>
      rcases mem_append.mp hr with hr | hr
      · exact htail r hr
      · exact hnone rfl r hr
  · rcases mem_append.mp hr with hr | hr
    · exact hnone' hstopped r hr
    · exact hnone rfl r hr

theorem Heeds.mono (h : Heeds p p' false) (stopped : Bool) : Heeds p p' stopped := by
  obtain ⟨new, htrace, htail, hnone⟩ := h
  exact ⟨new, htrace, htail, fun _ ↦ hnone rfl⟩

variable (lib : Platform) (interval : ℚ) (url : Text) (c : Call)

theorem Process.Timed.request_heeds (h : p.Timed) : (p.request lib interval url c).1.Timed ∧
    Heeds p (p.request lib interval url c).1
      (decide ((p.request lib interval url c).2 = some 429)) := by
  obtain ⟨htimed, new, htrace, hstatus⟩ := h.request lib interval url c
  have hresult : (p.request lib interval url c).2 = (fetch lib gdeltHosts gdeltPolicy []
      (fun _ ↦ c.resolve) (fun _ ↦ c.world) url).getLast?.bind
        (fun attempt ↦ attempt.ending.status) := rfl
  rw [fetch_gdelt, getLast?_singleton, Option.bind_some] at hresult
  rw [fetch_gdelt, flatMap_singleton] at hstatus
  have hlast : ∀ j, (c.world j).status = some 429 → j < (attempt lib gdeltHosts gdeltPolicy
      (requestHeaders gdeltPolicy []) c.resolve c.world url).requests.length → _ :=
    attempt_statuses _
  refine ⟨htimed, new, htrace, fun r hr h429 ↦ ?_, fun hno r hr h429 ↦ ?_⟩
  · have hmem : some 429 ∈ (new.map Sent.status).tail := by
      rw [← map_tail]
      exact mem_map.mpr ⟨r, hr, h429⟩
    cases hn : (attempt lib gdeltHosts gdeltPolicy (requestHeaders gdeltPolicy []) c.resolve
        c.world url).requests.length with
    | zero =>
      rw [hstatus, hn] at hmem
      cases hmem
    | succ n =>
      rw [hstatus, hn, range'_1_concat, map_append, reverse_append] at hmem
      obtain ⟨j, hj, hworld⟩ := mem_map.mp (mem_reverse.mp hmem)
      have hlt : j < n := by simpa using (mem_range'_1.mp hj).2
      obtain ⟨hend, -⟩ := hlast j hworld (by omega)
      omega
  · have hmem : some 429 ∈ new.map Sent.status := mem_map.mpr ⟨r, hr, h429⟩
    rw [hstatus, mem_reverse] at hmem
    obtain ⟨j, hj, hworld⟩ := mem_map.mp hmem
    obtain ⟨-, hending⟩ := hlast j hworld (by simpa using (mem_range'_1.mp hj).2)
    rw [hresult, hending] at hno
    cases hno

theorem Process.Timed.runQuery (h : p.Timed) (query : QueryRun) (remaining i : ℕ) :
    (p.runQuery lib interval query remaining i).1.Timed ∧
      Heeds p (p.runQuery lib interval query remaining i).1
        (p.runQuery lib interval query remaining i).2 := by
  induction remaining generalizing p i with
  | zero => exact ⟨h, .refl p false⟩
  | succ remaining ih =>
    have hrequest := h.request_heeds lib interval query.requestUrl (query.calls i)
    rw [Process.runQuery]
    generalize p.request lib interval query.requestUrl (query.calls i) = result at hrequest
    obtain ⟨p', status⟩ := result
    obtain ⟨htimed, hheeds⟩ := hrequest
    obtain ⟨hrest, hagain⟩ := ih htimed (i + 1)
    cases status with
    | none => exact ⟨hrest, Heeds.trans hheeds hagain⟩
    | some status =>
      by_cases hthrottle : status ∈ throttleStatuses
      · obtain rfl := mem_singleton.mp hthrottle
        exact ⟨htimed, hheeds⟩
      · have hgoes : decide (some status = some 429) = false := by
          simpa [throttleStatuses] using hthrottle
        rw [hgoes] at hheeds
        simp only [if_neg hthrottle]
        split
        · exact ⟨hrest, hheeds.trans hagain⟩
        · exact ⟨htimed, hheeds⟩

theorem Process.Timed.runQueries (h : p.Timed) (queries : List QueryRun) :
    (p.runQueries lib interval queries).Timed ∧
      Heeds p (p.runQueries lib interval queries) true := by
  induction queries generalizing p with
  | nil => exact ⟨h, .refl p true⟩
  | cons query rest ih =>
    have hquery := h.runQuery lib interval query maxAttemptsPerQuery 0
    rw [Process.runQueries]
    generalize p.runQuery lib interval query maxAttemptsPerQuery 0 = result at hquery
    obtain ⟨p', throttled⟩ := result
    obtain ⟨htimed, hheeds⟩ := hquery
    obtain ⟨hrest, hagain⟩ := ih htimed
    cases throttled with
    | true => exact ⟨htimed, hheeds⟩
    | false =>
      by_cases hraises : query.raises
      · simp only [hraises, Bool.or_true, if_true]
        exact ⟨htimed, hheeds.mono true⟩
      · simp only [hraises, Bool.or_false, Bool.false_eq_true, if_false]
        exact ⟨hrest, hheeds.trans hagain⟩

theorem Process.Timed.collect (h : p.Timed) (pass : Pass) :
    (p.collect lib pass).Timed ∧ Heeds p (p.collect lib pass) true := by
  rw [Process.collect]
  split
  · exact ⟨h, .refl p true⟩
  · exact h.runQueries lib _ pass.queries

theorem Process.Timed.passes (h : p.Timed) (passes : List Pass) :
    (passes.foldl (Process.collect lib) p).Timed := by
  induction passes generalizing p with
  | nil => exact h
  | cons pass rest ih => exact ih (h.collect lib pass).1

end Stretches

theorem isChain_iff_of_linked {l : List Sent} (h : l.IsChain Linked) :
    l.IsChain Spaced ↔ l.IsChain Unhurried := by
  rw [isChain_iff_forall_rel_of_append_cons_cons] at h ⊢
  rw [isChain_iff_forall_rel_of_append_cons_cons]
  constructor
  · intro hspaced a b l₁ l₂ heq
    exact (h heq).spaced_iff.mp (hspaced heq)
  · intro hunhurried a b l₁ l₂ heq
    exact (h heq).spaced_iff.mpr (hunhurried heq)

theorem timed_start (now : ℚ) : (Process.start now).Timed := ⟨.nil, fun _ hr ↦ nomatch hr⟩

/-- Requests on the wire are the interval apart exactly as far as no redirect comes sooner
and no call hurries more than the one before it. After a 429, on whatever hop, a pass
makes none. -/
theorem gdelt_spaced_iff (lib : Platform) (now : ℚ) (passes : List Pass) :
    ((passes.foldl (Process.collect lib) (.start now)).trace.IsChain Spaced ↔
      (passes.foldl (Process.collect lib) (.start now)).trace.IsChain Unhurried) ∧
    ∀ pass, ∃ new,
      ((passes.foldl (Process.collect lib) (.start now)).collect lib pass).trace =
          new ++ (passes.foldl (Process.collect lib) (.start now)).trace ∧
        ∀ r ∈ new.tail, r.status ≠ some 429 := by
  have htimed := (timed_start now).passes lib passes
  refine ⟨isChain_iff_of_linked htimed.chain, fun pass ↦ ?_⟩
  obtain ⟨new, htrace, htail, -⟩ := (htimed.collect lib pass).2
  exact ⟨new, htrace, htail⟩

section Redirect

def gdeltUrl : Text := "https://api.gdeltproject.org/api".toList

def redirectedCall : Call where
  durations := ⟨0, 0, fun _ ↦ 1, 0⟩
  resolve := oneAddress
  world j := if j = 0 then ⟨.response ⟨302, gdeltUrl, none, [], [], none, true⟩, oneAddress⟩
    else unchanged

def redirectedPass : Pass := ⟨5, false, [⟨gdeltUrl, fun _ ↦ redirectedCall, false⟩]⟩

theorem redirect_unthrottled :
    ((Process.start 0).collect asciiPlatform redirectedPass).trace.map Sent.wireAt = [3, 2] ∧
      ¬ ((Process.start 0).collect asciiPlatform redirectedPass).trace.IsChain Spaced := by
  decide +kernel

end Redirect

end TalaPala.News
