import TalaPala.Chart.StoreInvariant

namespace TalaPala.Chart

open Library Library.Transition List

section Responses

theorem Sound.setReply {s : System} (h : Sound s) {id : ℕ} {reply : Reply}
    (hserved : ∀ q ∈ s.inFlight, q.id = id → ∀ p, reply = .page p → Served s.server q.key p)
    (hbefore : ∀ q ∈ s.inFlight, q.id = id → q.aborted = false → ∀ cursor, q.kind = .older cursor →
      ∀ p, reply = .page p → p.revision = s.store.revision →
        Slice (times p.candles ++ [cursor]) (s.store.buckets s.server)) :
    Sound (s.setReply id reply) where
  fresh q hq := by
    obtain ⟨q₀, hq₀, rfl⟩ := mem_map.mp hq
    split <;> exact h.fresh q₀ hq₀
  nodup := by
    have hids : (s.setReply id reply).inFlight.map Request.id = s.inFlight.map Request.id := by
      rw [System.setReply, map_map]
      refine map_congr_left (fun q _ ↦ ?_)
      rw [Function.comp_apply]
      split <;> rfl
    rw [hids]
    exact h.nodup
  store := h.store
  requests q hq := by
    obtain ⟨q₀, hq₀, rfl⟩ := mem_map.mp hq
    split
    · rename_i hid
      refine ⟨fun p hp ↦ hserved q₀ hq₀ hid p (Option.some.inj hp), fun ha ↦ ?_⟩
      obtain ⟨hqkey, hlive⟩ := (h.requests q₀ hq₀).live ha
      refine ⟨hqkey, ?_⟩
      have hcut := hbefore q₀ hq₀ hid ha
      cases hkind : q₀.kind with
      | main =>
        rw [hkind] at hlive
        exact hlive
      | older cursor =>
        rw [hkind] at hlive
        obtain ⟨hctrl, hready, hflight, hload, hhead, -⟩ := hlive
        exact ⟨hctrl, hready, hflight, hload, hhead,
          fun p hp ↦ hcut cursor hkind p (Option.some.inj hp)⟩
      | tail =>
        rw [hkind] at hlive
        exact hlive
    · exact h.requests q₀ hq₀

theorem respond_served (s : System) (q : Request) (asOf : String) :
    Served s.server q.key (s.respond q asOf) := by
  have hbars : 0 < defaultBars q.key.interval := by
    cases q.key.interval <;> decide
  rw [System.respond]
  cases q.kind with
  | main => exact page_served _ _ _ hbars asOf
  | older cursor => exact page_served _ _ _ hbars asOf
  | tail => exact page_served _ _ _ (by decide) asOf

theorem Sound.answer {s : System} (h : Sound s) {q : Request} (hq : q ∈ s.inFlight)
    (asOf : String) : Sound (s.setReply q.id (.page (s.respond q asOf))) := by
  refine h.setReply (fun q' hq' hid p hp ↦ ?_) (fun q' hq' hid ha cursor hkind p hp hrev ↦ ?_) <;>
    obtain rfl := h.eq_of_id hq' hq hid <;> obtain rfl := Reply.page.inj hp
  · exact respond_served s q' asOf
  · obtain ⟨hqkey, hlive⟩ := (h.requests q' hq).live ha
    rw [hkind] at hlive
    obtain ⟨-, -, -, -, hhead, -⟩ := hlive
    have hpage : s.respond q' asOf =
        s.server.page q'.key (some cursor) (defaultBars q'.key.interval) asOf := by
      rw [System.respond, hkind]
    rw [hpage] at hrev ⊢
    have hcurrent : s.server.revision s.store.key = s.store.revision := hqkey ▸ hrev
    have hcursor := h.store.slice.mem cursor (mem_of_mem_head? hhead)
    rw [Store.buckets, ← hcurrent] at hcursor ⊢
    rw [hqkey]
    exact page_before_slice s.server s.store.key hcursor _ asOf

theorem Sound.fail {s : System} (h : Sound s) (id : ℕ) (message : String) (status : Option ℕ) :
    Sound (s.setReply id (.failed message status)) :=
  h.setReply (fun _ _ _ _ hp ↦ nomatch hp) (fun _ _ _ _ _ _ _ hp ↦ nomatch hp)

theorem Sound.server {s : System} (h : Sound s) {server : Server} (hm : s.server.Moves server) :
    Sound { s with server := server } := by
  have hgrow : ∀ {l}, Slice l (s.store.buckets s.server) → Slice l (s.store.buckets server) :=
    fun hl ↦ hl.grow (hm.grows _ _) (Series.ascending _)
  have hkind := hm.kind s.store.key
  refine ⟨h.fresh, h.nodup, ⟨h.store.origin, hgrow h.store.slice,
    fun hr ↦ (h.store.kind hr).trans hkind.symm, h.store.more⟩, fun q hq ↦ ?_⟩
  refine ⟨fun p hp ↦ ((h.requests q hq).served p hp).moves hm, fun ha ↦ ?_⟩
  obtain ⟨hqkey, hlive⟩ := (h.requests q hq).live ha
  refine ⟨hqkey, ?_⟩
  cases hqkind : q.kind with
  | main =>
    rw [hqkind] at hlive
    exact hlive
  | older cursor =>
    rw [hqkind] at hlive
    obtain ⟨hctrl, hready, hflight, hload, hhead, hcut⟩ := hlive
    exact ⟨hctrl, hready, hflight, hload, hhead, fun p hp hrev ↦ hgrow (hcut p hp hrev)⟩
  | tail =>
    rw [hqkind] at hlive
    exact ⟨hlive.1, hlive.2.trans hkind.symm⟩

theorem Sound.withStore {s : System} (h : Sound s) {st : Store} (hst : StoreOk s.server st)
    (hlive : ∀ q ∈ s.inFlight, q.aborted = false →
      q.key = st.key ∧ LiveOk s.server st q q.kind) : Sound { s with store := st } :=
  ⟨h.fresh, h.nodup, hst, fun q hq ↦ ⟨(h.requests q hq).served, hlive q hq⟩⟩

theorem eq_of_not_differs {a b : Revision} (hkind : a.isSome = b.isSome)
    (h : differs a b = false) : a = b := by
  by_contra hne
  cases a with
  | none =>
    cases b with
    | none => exact hne rfl
    | some b => cases hkind
  | some a =>
    cases b with
    | none => cases hkind
    | some b => simp [differs, hne] at h

theorem Sound.arriveMain {s : System} (h : Sound s) {reply : Reply} (hready : s.store.ready = false)
    (hserved : ∀ p, reply = .page p → Served s.server s.store.key p)
    (hothers : ∀ q ∈ s.inFlight, q.aborted = false → q.kind ≠ .main) :
    Sound (s.arriveMain s.store.key reply) := by
  have htails : ∀ q ∈ s.inFlight, q.aborted = false → q.key = s.store.key ∧ q.kind = .tail ∧
      s.store.tailCtrl = some q.id ∧
      s.store.revision.isSome = (s.server.revision s.store.key).isSome := by
    intro q hq ha
    obtain ⟨hqkey, hlive⟩ := (h.requests q hq).live ha
    cases hkind : q.kind with
    | main => exact absurd hkind (hothers q hq ha)
    | older cursor =>
      rw [hkind] at hlive
      exact absurd (hready.symm.trans hlive.2.1) (by decide)
    | tail =>
      rw [hkind] at hlive
      exact ⟨hqkey, rfl, hlive⟩
  cases reply with
  | page p =>
    have hp := hserved p rfl
    rw [System.arriveMain, sortedByTime_of_ascending hp.ascending]
    refine h.withStore ⟨hp.origin, hp.slice, fun _ ↦ hp.kind,
      fun hmore ↦ ⟨rfl, hp.more hmore, hp.cursor⟩⟩ (fun q hq ha ↦ ?_)
    obtain ⟨hqkey, hkind, htail, -⟩ := htails q hq ha
    rw [hkind]
    exact ⟨hqkey, htail, hp.kind⟩
  | failed message status =>
    rw [System.arriveMain]
    refine h.withStore ⟨fun c hc ↦ absurd hc not_mem_nil, .nil _, h.store.kind,
      fun hmore ↦ ?_⟩ (fun q hq ha ↦ ?_)
    · exact absurd (hready.symm.trans (h.store.more hmore).1) (by decide)
    · obtain ⟨hqkey, hkind, hlive⟩ := htails q hq ha
      rw [hkind]
      exact ⟨hqkey, hlive⟩

theorem mergeOlder_eq {older current : List ChartCandle} {cursor : ℤ}
    (holder : (times older ++ [cursor]).Pairwise (· < ·)) (h : Ascending current)
    (hhead : (times current).head? = some cursor) : mergeOlder older current = older ++ current := by
  obtain ⟨hasc, -, hbefore⟩ := pairwise_append.mp holder
  have hmin : ∀ x ∈ times current, cursor ≤ x := by
    have hcur := ascending_times.mpr h
    obtain ⟨rest, hrest⟩ := head?_eq_some_iff.mp hhead
    rw [hrest] at hcur ⊢
    exact forall_mem_cons.mpr
      ⟨le_rfl, fun x hx ↦ (rel_of_pairwise_cons hcur hx).le⟩
  have hnew : older.filter (fun c ↦ c.t ∉ times current) = older := by
    refine filter_eq_self.mpr (fun c hc ↦ decide_eq_true (fun hheld ↦ ?_))
    have hlt := hbefore c.t (mem_times.mpr ⟨c, hc, rfl⟩) cursor (mem_singleton_self _)
    exact absurd (hmin c.t hheld) (not_le.mpr hlt)
  rw [mergeOlder, hnew, sortedByTime_of_ascending (ascending_times.mp hasc)]

theorem Sound.arriveOlder {s : System} (h : Sound s) {reply : Reply} {cursor : ℤ}
    (hready : s.store.ready = true) (hhead : (times s.store.candles).head? = some cursor)
    (hserved : ∀ p, reply = .page p → Served s.server s.store.key p)
    (hcut : ∀ p, reply = .page p → p.revision = s.store.revision →
      Slice (times p.candles ++ [cursor]) (s.store.buckets s.server))
    (hothers : ∀ q ∈ s.inFlight, q.aborted = false → q.kind = .tail) :
    Sound (s.arriveOlder reply) := by
  have htails : ∀ q ∈ s.inFlight, q.aborted = false → q.key = s.store.key ∧
      s.store.tailCtrl = some q.id ∧
      s.store.revision.isSome = (s.server.revision s.store.key).isSome := by
    intro q hq ha
    obtain ⟨hqkey, hlive⟩ := (h.requests q hq).live ha
    rw [hothers q hq ha] at hlive
    exact ⟨hqkey, hlive⟩
  cases reply with
  | page p =>
    rw [System.arriveOlder]
    dsimp only
    split
    · exact h.reload rfl rfl rfl rfl rfl rfl
    · rename_i hdiffers
      have hp := hserved p rfl
      have hrev := eq_of_not_differs (hp.kind.trans (h.store.kind hready).symm)
        (Bool.eq_false_of_not_eq_true hdiffers)
      have hslice := hcut p rfl hrev
      rw [mergeOlder_eq hslice.ascending (ascending_times.mp h.store.slice.ascending) hhead]
      refine h.withStore ⟨fun c hc ↦ ?_, ?_, h.store.kind, fun hmore ↦ ?_⟩ (fun q hq ha ↦ ?_)
      · rcases mem_append.mp hc with hc | hc
        · exact hrev ▸ hp.origin c hc
        · exact h.store.origin c hc
      · rw [times_append]
        exact hslice.prepend h.store.slice hhead
      · obtain ⟨-, hne⟩ := Bool.and_eq_true_iff.mp hmore
        have hne' : p.candles ≠ [] := by simpa using hne
        refine ⟨hready, append_ne_nil_of_left_ne_nil hne' _, hp.cursor.trans ?_⟩
        obtain ⟨c, rest, hcons⟩ := exists_cons_of_ne_nil hne'
        rw [hcons]
        rfl
      · obtain ⟨hqkey, hlive⟩ := htails q hq ha
        rw [hothers q hq ha]
        exact ⟨hqkey, hlive⟩
  | failed message status =>
    rw [System.arriveOlder]
    refine h.withStore ⟨h.store.origin, h.store.slice, h.store.kind, h.store.more⟩
      (fun q hq ha ↦ ?_)
    obtain ⟨hqkey, hlive⟩ := htails q hq ha
    rw [hothers q hq ha]
    exact ⟨hqkey, hlive⟩

theorem near_of_gap {k : ChartKey} {r : Revision} {bars : Series k r}
    {held fresh : List ChartCandle} {last : ChartCandle} (hlast : held.getLast? = some last)
    (hheld : last.t ∈ times bars.bars) (hfresh : Slice (times fresh) (times bars.bars))
    (hgap : System.gap k.interval held fresh = false) {x : ℤ} (hx : x ∈ times bars.bars)
    (hlt : last.t < x) (hb : ∃ b ∈ times fresh, x ≤ b) : ∃ a ∈ times fresh, a ≤ x := by
  obtain ⟨b, hb, -⟩ := hb
  cases hcons : fresh with
  | nil => exact absurd (hcons ▸ hb) not_mem_nil
  | cons first rest =>
    have hfirst : first.t ∈ times fresh := by
      rw [hcons]
      exact mem_cons_self
    refine ⟨first.t, mem_cons_self, ?_⟩
    by_contra hbefore
    have hnear : first.t - last.t ≤ intervalSeconds k.interval := by
      simpa [System.gap, hlast, hcons] using hgap
    have hleft := bars.apart hheld hx hlt
    have hright := bars.apart hx (hfresh.mem _ hfirst) (not_le.mp hbefore)
    have hpos := intervalSeconds_pos k.interval
    omega

theorem Sound.patch {s : System} (h : Sound s) {p : Page}
    (hp : Served s.server s.store.key p) (hrev : p.revision = s.store.revision)
    (hgap : System.gap s.store.key.interval s.store.candles p.candles = false) :
    Sound { s with store :=
      { s.store with candles := patchTail s.store.candles p.candles } } := by
  have hfresh : Slice (times p.candles) (s.store.buckets s.server) := by
    rw [Store.buckets, ← hrev]
    exact hp.slice
  have horigin : ∀ c ∈ p.candles, c.origin = (s.store.key, s.store.revision) := hrev ▸ hp.origin
  rw [patchTail, sortedByTime_of_ascending hp.ascending]
  by_cases hnil : s.store.candles = []
  · rw [if_pos hnil]
    refine h.withStore ⟨horigin, hfresh, h.store.kind,
      fun hmore ↦ absurd hnil (h.store.more hmore).2.1⟩ (fun q hq ha ↦ ?_)
    obtain ⟨hqkey, hlive⟩ := (h.requests q hq).live ha
    refine ⟨hqkey, ?_⟩
    cases hkind : q.kind with
    | main =>
      rw [hkind] at hlive
      exact hlive
    | older cursor =>
      rw [hkind] at hlive
      obtain ⟨-, -, -, -, hhead, -⟩ := hlive
      rw [hnil] at hhead
      cases hhead
    | tail =>
      rw [hkind] at hlive
      exact hlive
  · rw [if_neg hnil]
    have hlast := getLast?_eq_some_getLast hnil
    have hheld : (s.store.candles.getLast hnil).t ∈ times s.store.candles :=
      mem_times.mpr ⟨_, getLast_mem hnil, rfl⟩
    obtain ⟨-, htimes, hmem⟩ := foldl_patchBar hp.ascending
      (ascending_times.mp h.store.slice.ascending) hlast
    have hhead : (times (p.candles.foldl patchBar s.store.candles)).head? =
        (times s.store.candles).head? := by
      rw [htimes, head?_append_of_ne_nil _ (ne_nil_of_mem hheld)]
    refine h.withStore ⟨fun c hc ↦ (hmem c hc).elim (h.store.origin c) (horigin c), ?_,
      h.store.kind, fun hmore ↦ ?_⟩ (fun q hq ha ↦ ?_)
    · rw [htimes]
      refine h.store.slice.extend hfresh ?_ (fun x hx hlt hb ↦
        near_of_gap hlast (h.store.slice.mem _ hheld) hfresh hgap hx hlt hb)
      rw [times, getLast?_map, hlast, Option.map_some]
    · obtain ⟨hready, -, hnext⟩ := h.store.more hmore
      refine ⟨hready, fun hempty ↦ ?_, hnext.trans hhead.symm⟩
      have hgone : p.candles.foldl patchBar s.store.candles = [] := hempty
      rw [hgone] at hhead
      exact ne_nil_of_mem hheld (head?_eq_none_iff.mp hhead.symm)
    · obtain ⟨hqkey, hlive⟩ := (h.requests q hq).live ha
      refine ⟨hqkey, ?_⟩
      cases hkind : q.kind with
      | main =>
        rw [hkind] at hlive
        exact hlive
      | older cursor =>
        rw [hkind] at hlive
        obtain ⟨hctrl, hready, hflight, hload, hcursor, hcut⟩ := hlive
        exact ⟨hctrl, hready, hflight, hload, hhead.trans hcursor, hcut⟩
      | tail =>
        rw [hkind] at hlive
        exact hlive

theorem Sound.withInfo {s : System} (h : Sound s) (info : Info) :
    Sound { s with store := { s.store with info := info } } := by
  refine h.withStore ⟨h.store.origin, h.store.slice, h.store.kind, h.store.more⟩
    (fun q hq ha ↦ ?_)
  obtain ⟨hqkey, hlive⟩ := (h.requests q hq).live ha
  refine ⟨hqkey, ?_⟩
  cases hkind : q.kind <;> rw [hkind] at hlive <;> exact hlive

theorem Sound.arriveTail {s : System} (h : Sound s) {reply : Reply}
    (hserved : ∀ p, reply = .page p → Served s.server s.store.key p)
    (hrevision : s.store.revision.isSome = (s.server.revision s.store.key).isSome) :
    Sound (s.arriveTail reply) := by
  cases reply with
  | page p =>
    have hp := hserved p rfl
    rw [System.arriveTail]
    dsimp only
    have hinfo := h.withInfo { s.store.info with asOf := some p.asOf }
    split
    · exact h.reload rfl rfl rfl rfl rfl rfl
    · rename_i hdiffers
      have hrev := eq_of_not_differs (hp.kind.trans hrevision.symm)
        (Bool.eq_false_of_not_eq_true hdiffers)
      rw [sortedByTime_of_ascending hp.ascending]
      split
      · exact hinfo
      · split
        · exact hinfo.reload rfl rfl rfl rfl rfl rfl
        · rename_i hgap
          exact hinfo.patch hp hrev (Bool.eq_false_of_not_eq_true hgap)
  | failed message status => exact h

theorem Sound.arrive {s : System} (h : Sound s) {q : Request} {reply : Reply}
    (hq : q ∈ s.inFlight) (hreply : q.reply = some reply) : Sound (s.arrive q reply) := by
  have hdrop := h.drop q.id
  have hother : ∀ q' ∈ s.inFlight.filter (fun other ↦ other.id ≠ q.id),
      q' ∈ s.inFlight ∧ q'.id ≠ q.id := fun q' hq' ↦
    ⟨mem_of_mem_filter hq', of_decide_eq_true (mem_filter.mp hq').2⟩
  rw [System.arrive]
  cases ha : q.aborted with
  | true =>
    rw [if_pos rfl]
    exact hdrop
  | false =>
    rw [if_neg (by decide)]
    obtain ⟨hqkey, hlive⟩ := (h.requests q hq).live ha
    have hserved : ∀ p, reply = .page p → Served s.server s.store.key p := by
      rintro p rfl
      exact hqkey ▸ (h.requests q hq).served p hreply
    cases hkind : q.kind with
    | main =>
      rw [hkind] at hlive
      obtain ⟨hctrl, hready, -⟩ := hlive
      dsimp only
      rw [hqkey]
      refine hdrop.arriveMain hready hserved (fun q' hq' ha' hkind' ↦ ?_)
      obtain ⟨hmem, hne⟩ := hother q' hq'
      obtain ⟨-, hlive'⟩ := (h.requests q' hmem).live ha'
      rw [hkind'] at hlive'
      exact hne (Option.some.inj (hlive'.1.symm.trans hctrl))
    | older cursor =>
      rw [hkind] at hlive
      obtain ⟨hctrl, hready, -, -, hhead, hcut⟩ := hlive
      dsimp only
      refine hdrop.arriveOlder hready hhead hserved
        (fun p hp ↦ hcut p (hreply.trans (congrArg some hp))) (fun q' hq' ha' ↦ ?_)
      obtain ⟨hmem, hne⟩ := hother q' hq'
      obtain ⟨-, hlive'⟩ := (h.requests q' hmem).live ha'
      cases hkind' : q'.kind with
      | main =>
        rw [hkind'] at hlive'
        exact absurd (hready.symm.trans hlive'.2.1) (by decide)
      | older cursor' =>
        rw [hkind'] at hlive'
        exact absurd (Option.some.inj (hlive'.1.symm.trans hctrl)) hne
      | tail => rfl
    | tail =>
      rw [hkind] at hlive
      exact hdrop.arriveTail hserved hlive.2

theorem mem_of_pending {s : System} {id : ℕ} {q : Request} (h : s.pending id = some q) :
    q ∈ s.inFlight ∧ q.id = id := by
  refine ⟨mem_of_find?_eq_some h, ?_⟩
  have hfound := find?_some h
  simp only [decide_eq_true_eq] at hfound
  exact hfound.1

theorem mem_of_answered {s : System} {id : ℕ} {q : Request} {reply : Reply}
    (h : s.answered id = some (q, reply)) : q ∈ s.inFlight ∧ q.id = id ∧ q.reply = some reply := by
  obtain ⟨q', hfind, hmap⟩ := Option.bind_eq_some_iff.mp h
  obtain ⟨reply', hreply, heq⟩ := Option.map_eq_some_iff.mp hmap
  obtain ⟨rfl, rfl⟩ := Prod.mk.inj heq
  have hid := find?_some hfind
  exact ⟨mem_of_find?_eq_some hfind, of_decide_eq_true hid, hreply⟩

theorem next_sound {s s' : System} {e : Event} (h : Sound s) (hok : Allowed s e)
    (hstep : next s e = some s') : Sound s' := by
  cases e with
  | select key =>
    rw [next] at hstep
    split at hstep
    · cases hstep
    · exact Option.some.inj hstep ▸ h.select key
  | reload => exact Option.some.inj hstep ▸ h.reload rfl rfl rfl rfl rfl rfl
  | loadOlder => exact Option.some.inj hstep ▸ h.loadOlder
  | timer =>
    rw [next] at hstep
    split at hstep
    · exact Option.some.inj hstep ▸ h.fireTimer
    · cases hstep
  | tick => exact Option.some.inj hstep ▸ h.tick
  | answer id asOf =>
    obtain ⟨q, hq, rfl⟩ := Option.map_eq_some_iff.mp hstep
    obtain ⟨hmem, rfl⟩ := mem_of_pending hq
    exact h.answer hmem asOf
  | fail id message status =>
    obtain ⟨q, -, rfl⟩ := Option.map_eq_some_iff.mp hstep
    exact h.fail id message status
  | arrive id =>
    obtain ⟨⟨q, reply⟩, ha, rfl⟩ := Option.map_eq_some_iff.mp hstep
    obtain ⟨hmem, -, hreply⟩ := mem_of_answered ha
    exact h.arrive hmem hreply
  | server server => exact Option.some.inj hstep ▸ h.server hok

theorem run_sound {server : Server} {key : ChartKey} {s : System} {events : List Event}
    (h : Run next Allowed (System.start server key) events s) : Sound s :=
  h.preserves (fun _ _ _ hs hok hstep ↦ next_sound hs hok hstep) (start_sound server key)

end Responses

end TalaPala.Chart
