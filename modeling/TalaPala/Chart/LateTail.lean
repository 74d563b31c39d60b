import TalaPala.Chart.StoreRuns

namespace TalaPala.Chart

open Library Library.Transition

section Late

def Settled (s : System) : Prop :=
  Ascending s.store.candles ∧
    ∃ r, times s.store.candles <:+: times (s.server.series s.store.key r).bars ∧
      ∀ c ∈ s.store.candles, c.origin = (s.store.key, r)

def LateUnmoved (s : System) : Event → Prop
  | .arrive id => ∀ q reply, s.answered id = some (q, reply) → q.load < s.store.loads →
      (s.arrive q reply).store = s.store
  | _ => True

/-- A late page that nobody aborted has nothing new: not its revision, not its time, and
no bar past the newest or unlike the one that is held. -/
def Quiet (s : System) : Event → Prop
  | .arrive id => ∀ q p, s.answered id = some (q, .page p) → q.load < s.store.loads →
      q.aborted = false →
        differs p.revision s.store.revision = false ∧ s.store.info.asOf = some p.asOf ∧
          ∀ bar ∈ p.candles, ¬Brings s.store.candles bar
  | _ => True

theorem Sound.settled {s : System} (h : Sound s) : Settled s :=
  ⟨ascending_times.mp h.store.slice.ascending, s.store.revision,
    h.store.slice.isInfix (Series.ascending _), h.store.origin⟩

theorem loads_reload (s : System) : s.reload.store.loads = s.store.loads + 1 := by
  have hrestart : ((s.store.selected s.store.key).restart s.nextId).loads = s.store.loads + 1 := by
    rw [Store.selected_self]
    rfl
  exact hrestart

theorem Store.refreshed_iff (st : Store) (asOf : Option String) (candles : List ChartCandle) :
    { st with info := { st.info with asOf := asOf }, candles := candles } = st ↔
      st.info.asOf = asOf ∧ candles = st.candles := by
  constructor
  · intro h
    exact ⟨(congrArg (fun st : Store ↦ st.info.asOf) h).symm, congrArg Store.candles h⟩
  · rintro ⟨rfl, rfl⟩
    rfl

theorem brings_of_gap {interval : IntervalId} {held fresh : List ChartCandle}
    (h : System.gap interval held fresh = true) : ∃ bar ∈ fresh, Brings held bar := by
  have hpos := intervalSeconds_pos interval
  cases hlast : held.getLast? with
  | none => simp [System.gap, hlast] at h
  | some last =>
    cases fresh with
    | nil => simp [System.gap, hlast] at h
    | cons first rest =>
      have hwide : first.t - last.t > intervalSeconds interval := by
        simpa [System.gap, hlast] using h
      refine ⟨first, List.mem_cons_self, .inl (fun l hl ↦ ?_)⟩
      rw [hlast] at hl
      obtain rfl := Option.some.inj hl
      omega

theorem arriveTail_unmoved_iff {s : System} {p : Page} (hp : Ascending p.candles)
    (h : Ascending s.store.candles) :
    (s.arriveTail (.page p)).store = s.store ↔
      differs p.revision s.store.revision = false ∧ s.store.info.asOf = some p.asOf ∧
        ∀ bar ∈ p.candles, ¬Brings s.store.candles bar := by
  have hreload : ∀ s' : System, s'.store.loads = s.store.loads → s'.reload.store ≠ s.store := by
    intro s' hloads heq
    have hmore := (loads_reload s').symm.trans (congrArg Store.loads heq)
    omega
  rw [System.arriveTail]
  cases hdiffers : differs p.revision s.store.revision with
  | true => simpa using hreload s rfl
  | false =>
    simp only [Bool.false_eq_true, if_false, true_and, sortedByTime_of_ascending hp]
    split
    · rename_i hnil
      have hkept := Store.refreshed_iff s.store (some p.asOf) s.store.candles
      simpa [hnil] using hkept
    · split
      · rename_i hgap
        obtain ⟨bar, hbar, hbrings⟩ := brings_of_gap hgap
        exact iff_of_false (hreload _ rfl) (fun hno ↦ hno.2 bar hbar hbrings)
      · rw [← patchTail_eq_iff hp h]
        exact Store.refreshed_iff s.store (some p.asOf) _

theorem store_arriveTail (s : System) (inFlight : List Request) (reply : Reply) :
    ({ s with inFlight := inFlight }.arriveTail reply).store = (s.arriveTail reply).store := by
  cases reply with
  | page p =>
    rw [System.arriveTail, System.arriveTail]
    dsimp only
    split
    · rfl
    · split
      · rfl
      · split <;> rfl
  | failed message status => rfl

theorem Sound.late_tail {s : System} (h : Sound s) {q : Request} (hq : q ∈ s.inFlight)
    (hload : q.load < s.store.loads) (ha : q.aborted = false) : q.kind = .tail := by
  obtain ⟨-, hlive⟩ := (h.requests q hq).live ha
  cases hkind : q.kind with
  | main =>
    rw [hkind] at hlive
    exact absurd hlive.2.2 hload.ne
  | older cursor =>
    rw [hkind] at hlive
    exact absurd hlive.2.2.2.1 hload.ne
  | tail => rfl

theorem quiet_iff {s : System} (h : Sound s) (e : Event) : Quiet s e ↔ LateUnmoved s e := by
  cases e with
  | arrive id =>
    have harrive : ∀ q reply, s.answered id = some (q, reply) → q.load < s.store.loads →
        q.aborted = false → (s.arrive q reply).store = (s.arriveTail reply).store := by
      intro q reply hq hload ha
      rw [System.arrive, ha, if_neg (by decide), h.late_tail (mem_of_answered hq).1 hload ha]
      exact store_arriveTail s _ reply
    have hiff : ∀ q p, s.answered id = some (q, .page p) →
        ((s.arriveTail (.page p)).store = s.store ↔
          differs p.revision s.store.revision = false ∧ s.store.info.asOf = some p.asOf ∧
            ∀ bar ∈ p.candles, ¬Brings s.store.candles bar) := by
      intro q p hq
      obtain ⟨hmem, -, hreply⟩ := mem_of_answered hq
      exact arriveTail_unmoved_iff ((h.requests q hmem).served p hreply).ascending
        (ascending_times.mp h.store.slice.ascending)
    constructor
    · intro hquiet q reply hq hload
      cases ha : q.aborted with
      | true => rw [System.arrive, ha, if_pos rfl]
      | false =>
        rw [harrive q reply hq hload ha]
        cases reply with
        | page p => exact (hiff q p hq).mpr (hquiet q p hq hload ha)
        | failed message status => rfl
    · intro hstays q p hq hload ha
      have hsame := hstays q _ hq hload
      rw [harrive q _ hq hload ha] at hsame
      exact (hiff q p hq).mp hsame
  | _ => exact Iff.rfl

/-- Every run keeps its candles one contiguous part of one series, and late responses
change nothing exactly when those not aborted have nothing new. -/
theorem candle_store_run {server : Server} {key : ChartKey} {events : List Event} {s : System}
    (h : Run next Allowed (System.start server key) events s) :
    Settled s ∧
      (Run next (fun s e ↦ Allowed s e ∧ Quiet s e) (System.start server key) events s ↔
        Run next (fun s e ↦ Allowed s e ∧ LateUnmoved s e) (System.start server key) events s) := by
  have hstart := start_sound server key
  refine ⟨(run_sound h).settled, fun hrun ↦ ?_, fun hrun ↦ ?_⟩
  · exact hrun.refine (fun s e t hs hok hstep ↦
      ⟨⟨hok.1, (quiet_iff hs e).mp hok.2⟩, next_sound hs hok.1 hstep⟩) hstart
  · exact hrun.refine (fun s e t hs hok hstep ↦
      ⟨⟨hok.1, (quiet_iff hs e).mpr hok.2⟩, next_sound hs hok.1 hstep⟩) hstart

end Late

section Rewrite

def gold : ChartKey := ⟨"XAUUSD", .hours1⟩

def forming (close : ℚ) : Server where
  revision _ := none
  series k r :=
    { bars := [⟨0, some 2400, some close, some 2400, close, some 3, some false, none, none, (k, r)⟩]
      spaced := List.pairwise_singleton _ _
      origin := fun _ hc ↦ by rw [List.mem_singleton.mp hc] }

theorem forming_moves (close close' : ℚ) : (forming close).Moves (forming close') :=
  ⟨fun _ _ ↦ List.prefix_rfl, fun _ ↦ rfl⟩

def unserved (_ : System) : Event → Bool
  | .server _ => false
  | _ => true

theorem allowed_of_unserved (s : System) (e : Event) (h : unserved s e = true) : Allowed s e := by
  cases e with
  | server server => cases h
  | _ => trivial

def polled : Option System :=
  execute next unserved (System.start (forming 2405) gold)
    [.answer 0 "10:00:00", .arrive 0, .tick, .answer 1 "10:01:00", .reload]

def reloaded : Option System :=
  (polled.map (fun s ↦ { s with server := forming 2410 })).bind (fun s ↦
    execute next unserved s [.answer 2 "10:01:01", .arrive 2])

theorem polled_server : polled.map System.server = some (forming 2405) := rfl

theorem reloaded_run {s : System} (h : reloaded = some s) :
    ∃ events, Run next Allowed (System.start (forming 2405) gold) events s := by
  obtain ⟨u, hu, hrest⟩ := Option.bind_eq_some_iff.mp h
  obtain ⟨t, ht, rfl⟩ := Option.map_eq_some_iff.mp hu
  have hserver : t.server = forming 2405 := by
    have hmap := polled_server
    rw [ht] at hmap
    exact Option.some.inj hmap
  have hmoves : Allowed t (.server (forming 2410)) := by
    rw [Allowed, hserver]
    exact forming_moves _ _
  have hbefore := (run_of_execute ht).mono allowed_of_unserved
  have hafter := (run_of_execute hrest).mono allowed_of_unserved
  exact ⟨_, hbefore.trans (.cons hmoves rfl hafter)⟩

/-- The tail that was cut before the reload puts the old price back. -/
theorem late_tail_overwrites : ∃ events s s',
    Run next Allowed (System.start (forming 2405) gold) events s ∧
      next s (.arrive 1) = some s' ∧ s.store.candles.map ChartCandle.close = [2410] ∧
      s'.store.candles.map ChartCandle.close = [2405] ∧ ¬LateUnmoved s (.arrive 1) := by
  have hshown : (reloaded.bind (fun s ↦ (s.answered 1).bind (fun a ↦
      (next s (.arrive 1)).map (fun s' ↦ (s.store.candles.map ChartCandle.close,
        s'.store.candles.map ChartCandle.close, decide (a.1.load < s.store.loads)))))) =
      some ([2410], [2405], true) := by decide
  obtain ⟨s, hs, hshown⟩ := Option.bind_eq_some_iff.mp hshown
  obtain ⟨⟨q, reply⟩, ha, hshown⟩ := Option.bind_eq_some_iff.mp hshown
  obtain ⟨s', hs', hshown⟩ := Option.map_eq_some_iff.mp hshown
  obtain ⟨hbefore, hrest⟩ := Prod.mk.inj hshown
  obtain ⟨hafter, hlate⟩ := Prod.mk.inj hrest
  obtain ⟨events, hrun⟩ := reloaded_run hs
  refine ⟨events, s, s', hrun, hs', hbefore, hafter, fun hstays ↦ ?_⟩
  have harrive : s.arrive q reply = s' := by
    rw [next, ha] at hs'
    exact Option.some.inj hs'
  have hsame := hstays q reply ha (of_decide_eq_true hlate)
  rw [harrive] at hsame
  rw [hsame, hbefore] at hafter
  exact absurd hafter (by decide)

theorem reloaded_settled : ∃ events s, reloaded = some s ∧ Settled s ∧
    (Run next (fun s e ↦ Allowed s e ∧ Quiet s e) (System.start (forming 2405) gold) events s ↔
      Run next (fun s e ↦ Allowed s e ∧ LateUnmoved s e)
        (System.start (forming 2405) gold) events s) := by
  have hsome : reloaded.isSome = true := by decide
  obtain ⟨s, hs⟩ := Option.isSome_iff_exists.mp hsome
  obtain ⟨events, hrun⟩ := reloaded_run hs
  exact ⟨events, s, hs, candle_store_run hrun⟩

end Rewrite

end TalaPala.Chart
