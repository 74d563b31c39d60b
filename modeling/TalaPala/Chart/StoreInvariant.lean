import TalaPala.Chart.CandleStore

namespace TalaPala.Chart

open Library Library.Transition List

section Pages

theorem Series.ascending {k : ChartKey} {r : Revision} (s : Series k r) :
    (times s.bars).Pairwise (· < ·) := by
  have hpos := intervalSeconds_pos k.interval
  exact pairwise_map.mpr (s.spaced.imp (fun {a b} h ↦ by omega))

structure Served (server : Server) (k : ChartKey) (p : Page) : Prop where
  origin : ∀ c ∈ p.candles, c.origin = (k, p.revision)
  kind : p.revision.isSome = (server.revision k).isSome
  slice : Slice (times p.candles) (times (server.series k p.revision).bars)
  cursor : p.nextBefore = (times p.candles).head?
  more : p.hasMore = true → p.candles ≠ []

theorem Served.moves {server server' : Server} {k : ChartKey} {p : Page} (h : Served server k p)
    (hm : server.Moves server') : Served server' k p :=
  { h with
    kind := h.kind.trans (hm.kind k).symm
    slice := h.slice.grow (hm.grows k p.revision) (Series.ascending _) }

theorem Served.ascending {server : Server} {k : ChartKey} {p : Page} (h : Served server k p) :
    Ascending p.candles :=
  ascending_times.mp h.slice.ascending

theorem Series.apart {k : ChartKey} {r : Revision} (s : Series k r) {a b : ℤ}
    (ha : a ∈ times s.bars) (hb : b ∈ times s.bars) (hlt : a < b) :
    a + intervalSeconds k.interval ≤ b := by
  obtain ⟨c, hc, rfl⟩ := mem_times.mp ha
  obtain ⟨d, hd, rfl⟩ := mem_times.mp hb
  have hpos := intervalSeconds_pos k.interval
  obtain ⟨i, hi, rfl⟩ := getElem_of_mem hc
  obtain ⟨j, hj, rfl⟩ := getElem_of_mem hd
  have hspaced := pairwise_iff_getElem.mp s.spaced
  rcases lt_trichotomy i j with hij | rfl | hij
  · exact hspaced i j hi hj hij
  · exact absurd hlt (lt_irrefl _)
  · have := hspaced j i hj hi hij
    omega

theorem page_served (server : Server) (k : ChartKey) (before : Option ℤ) {limit : ℕ}
    (hlimit : 0 < limit) (asOf : String) : Served server k (server.page k before limit asOf) := by
  let bars := (server.series k (server.revision k)).bars
  let all := bars.filter (fun c ↦ before.all (c.t < ·))
  have hall : Ascending all := (ascending_times.mp (Series.ascending _)).filter _
  have hsuffix : newest limit all <:+ all := newest_suffix limit all
  refine ⟨fun c hc ↦ ?_, rfl, ⟨?_, fun x hx ↦ ?_, fun x hx a ha b hb hax hxb ↦ ?_⟩, rfl,
    fun hmore hnil ↦ ?_⟩
  · exact (server.series k (server.revision k)).origin c
      (mem_of_mem_filter (hsuffix.subset hc))
  · exact ascending_times.mpr (hall.sublist hsuffix.sublist)
  · obtain ⟨c, hc, rfl⟩ := mem_times.mp hx
    exact mem_times.mpr ⟨c, mem_of_mem_filter (hsuffix.subset hc), rfl⟩
  · obtain ⟨c, hc, rfl⟩ := mem_times.mp hx
    obtain ⟨ca, hca, rfl⟩ := mem_times.mp ha
    obtain ⟨cb, hcb, rfl⟩ := mem_times.mp hb
    have hcball := (mem_filter.mp (hsuffix.subset hcb)).2
    have hcall : c ∈ all := by
      refine mem_filter.mpr ⟨hc, ?_⟩
      cases before with
      | none => rfl
      | some cursor =>
        have hcb' : cb.t < cursor := of_decide_eq_true hcball
        exact decide_eq_true (hxb.trans_lt hcb')
    have hasc : AscendingBy ChartCandle.t all := hall
    exact mem_times.mpr ⟨c, hasc.mem_of_suffix hsuffix hca hcall hax, rfl⟩
  · have hlength : (newest limit all).length = min limit all.length := length_newest _ _
    have hlt : limit < all.length := of_decide_eq_true hmore
    have hzero : (newest limit all).length = 0 := by
      rw [show newest limit all = [] from hnil]
      rfl
    omega

theorem page_before_slice (server : Server) (k : ChartKey) {cursor : ℤ}
    (hcursor : cursor ∈ times (server.series k (server.revision k)).bars) (limit : ℕ)
    (asOf : String) :
    Slice (times (server.page k (some cursor) limit asOf).candles ++ [cursor])
      (times (server.series k (server.revision k)).bars) := by
  let bars := (server.series k (server.revision k)).bars
  let all := bars.filter (fun c ↦ (some cursor).all (c.t < ·))
  have hbars : Ascending bars := ascending_times.mp (Series.ascending _)
  have hall : AscendingBy ChartCandle.t all := hbars.filter _
  have hsuffix : newest limit all <:+ all := newest_suffix limit all
  have hbefore : ∀ {c : ChartCandle}, c ∈ newest limit all → c ∈ bars ∧ c.t < cursor := fun hc ↦
    ⟨mem_of_mem_filter (hsuffix.subset hc), of_decide_eq_true (mem_filter.mp (hsuffix.subset hc)).2⟩
  have hmem : ∀ x, x ∈ times (newest limit all) ++ [cursor] →
      x = cursor ∨ ∃ c ∈ newest limit all, c.t = x := by
    intro x hx
    rcases mem_append.mp hx with hx | hx
    · exact .inr (mem_times.mp hx)
    · exact .inl (mem_singleton.mp hx)
  refine ⟨pairwise_append.mpr ⟨ascending_times.mpr (hall.sublist hsuffix.sublist),
    pairwise_singleton _ _, fun x hx y hy ↦ ?_⟩, fun x hx ↦ ?_, fun x hx a ha b hb hax hxb ↦ ?_⟩
  · obtain ⟨c, hc, rfl⟩ := mem_times.mp hx
    rw [mem_singleton.mp hy]
    exact (hbefore hc).2
  · obtain rfl | ⟨c, hc, rfl⟩ := hmem x hx
    · exact hcursor
    · exact mem_times.mpr ⟨c, (hbefore hc).1, rfl⟩
  · have hle : x ≤ cursor := by
      obtain rfl | ⟨c, hc, rfl⟩ := hmem b hb
      · exact hxb
      · exact hxb.trans (hbefore hc).2.le
    rcases hle.eq_or_lt with rfl | hlt
    · exact mem_append_right _ (mem_singleton_self _)
    · obtain ⟨c, hc, rfl⟩ := mem_times.mp hx
      have hcall : c ∈ all := mem_filter.mpr ⟨hc, decide_eq_true hlt⟩
      obtain rfl | ⟨ca, hca, rfl⟩ := hmem a ha
      · exact absurd hax (not_le.mpr hlt)
      · exact mem_append_left _
          (mem_times.mpr ⟨c, hall.mem_of_suffix hsuffix hca hcall hax, rfl⟩)

end Pages

section Invariant

def Store.buckets (st : Store) (server : Server) : List ℤ :=
  times (server.series st.key st.revision).bars

structure StoreOk (server : Server) (st : Store) : Prop where
  origin : ∀ c ∈ st.candles, c.origin = (st.key, st.revision)
  slice : Slice (times st.candles) (st.buckets server)
  kind : st.ready = true → st.revision.isSome = (server.revision st.key).isSome
  more : st.hasMore = true →
    st.ready = true ∧ st.candles ≠ [] ∧ st.nextBefore = (times st.candles).head?

def LiveOk (server : Server) (st : Store) (q : Request) : RequestKind → Prop
  | .main => st.mainCtrl = some q.id ∧ st.ready = false ∧ q.load = st.loads
  | .older cursor =>
    st.olderCtrl = some q.id ∧ st.ready = true ∧ st.olderInFlight = true ∧ q.load = st.loads ∧
      (times st.candles).head? = some cursor ∧
      ∀ p, q.reply = some (.page p) → p.revision = st.revision →
        Slice (times p.candles ++ [cursor]) (st.buckets server)
  | .tail =>
    st.tailCtrl = some q.id ∧ st.revision.isSome = (server.revision st.key).isSome

structure RequestOk (server : Server) (st : Store) (q : Request) : Prop where
  served : ∀ p, q.reply = some (.page p) → Served server q.key p
  live : q.aborted = false → q.key = st.key ∧ LiveOk server st q q.kind

structure Sound (s : System) : Prop where
  fresh : ∀ q ∈ s.inFlight, q.id < s.nextId
  nodup : (s.inFlight.map Request.id).Nodup
  store : StoreOk s.server s.store
  requests : ∀ q ∈ s.inFlight, RequestOk s.server s.store q

theorem Sound.eq_of_id {s : System} (h : Sound s) {q q' : Request} (hq : q ∈ s.inFlight)
    (hq' : q' ∈ s.inFlight) (hid : q.id = q'.id) : q = q' :=
  inj_on_of_nodup_map h.nodup hq hq' hid

theorem ids_abort (s : System) (ctrl : Option ℕ) :
    (s.abort ctrl).inFlight.map Request.id = s.inFlight.map Request.id := by
  rw [System.abort, map_map]
  refine map_congr_left (fun q _ ↦ ?_)
  rw [Function.comp_apply]
  split <;> rfl

theorem mem_abort {s : System} {ctrl : Option ℕ} {q : Request}
    (h : q ∈ (s.abort ctrl).inFlight) :
    ∃ q₀ ∈ s.inFlight, q₀.id = q.id ∧ q₀.key = q.key ∧ q₀.reply = q.reply ∧
      (q.aborted = false → q = q₀ ∧ ctrl ≠ some q.id) := by
  obtain ⟨q₀, hq₀, rfl⟩ := mem_map.mp h
  refine ⟨q₀, hq₀, ?_⟩
  split
  · exact ⟨rfl, rfl, rfl, fun ha ↦ by cases ha⟩
  · rename_i hne
    exact ⟨rfl, rfl, rfl, fun _ ↦ ⟨rfl, hne⟩⟩

theorem Sound.send {s : System} (hfresh : ∀ q ∈ s.inFlight, q.id < s.nextId)
    (hnodup : (s.inFlight.map Request.id).Nodup) (hstore : StoreOk s.server s.store)
    (hrequests : ∀ q ∈ s.inFlight, RequestOk s.server s.store q) {kind : RequestKind}
    (hlive : LiveOk s.server s.store ⟨s.nextId, kind, s.store.key, s.store.loads, false, none⟩
      kind) : Sound (s.send kind) where
  fresh q hq := by
    rcases mem_append.mp hq with hq | hq
    · exact (hfresh q hq).trans (Nat.lt_succ_self _)
    · rw [mem_singleton.mp hq]
      exact Nat.lt_succ_self _
  nodup := by
    rw [System.send, map_append, map_singleton]
    refine nodup_append.mpr ⟨hnodup, nodup_singleton _, fun x hx y hy ↦ ?_⟩
    obtain ⟨q, hq, rfl⟩ := mem_map.mp hx
    rw [mem_singleton.mp hy]
    exact (hfresh q hq).ne
  store := hstore
  requests q hq := by
    rcases mem_append.mp hq with hq | hq
    · exact hrequests q hq
    · rw [mem_singleton.mp hq]
      exact ⟨fun p hp ↦ (nomatch hp), fun _ ↦ ⟨rfl, hlive⟩⟩

structure Holds (server : Server) (st : Store) : Prop where
  origin : ∀ c ∈ st.candles, c.origin = (st.key, st.revision)
  slice : Slice (times st.candles) (st.buckets server)

theorem Holds.selected {server : Server} {st : Store} (h : Holds server st) (key : ChartKey) :
    Holds server (st.selected key) := by
  rw [Store.selected]
  split
  · exact h
  · exact ⟨fun c hc ↦ absurd hc not_mem_nil, .nil _⟩

theorem Holds.restart {server : Server} {st : Store} (h : Holds server st) (ctrl : ℕ) :
    StoreOk server (st.restart ctrl) :=
  ⟨h.origin, h.slice, fun hr ↦ (nomatch hr), fun hm ↦ (nomatch hm)⟩

theorem Sound.loadMain {s : System} (hfresh : ∀ q ∈ s.inFlight, q.id < s.nextId)
    (hnodup : (s.inFlight.map Request.id).Nodup) (hholds : Holds s.server s.store)
    (key : ChartKey)
    (hserved : ∀ q ∈ s.inFlight, ∀ p, q.reply = some (.page p) → Served s.server q.key p)
    (hlive : ∀ q ∈ s.inFlight, q.aborted = false → s.store.mainCtrl = some q.id ∨
      s.store.olderCtrl = some q.id ∨
      (q.kind = .tail ∧ q.key = s.store.key ∧ s.store.key = key ∧ s.store.tailCtrl = some q.id ∧
        s.store.revision.isSome = (s.server.revision s.store.key).isSome)) :
    Sound (s.loadMain key) := by
  let aborted := (s.abort s.store.mainCtrl).abort s.store.olderCtrl
  have hids : aborted.inFlight.map Request.id = s.inFlight.map Request.id :=
    (ids_abort _ _).trans (ids_abort _ _)
  refine Sound.send (s := { aborted with store := (s.store.selected key).restart s.nextId })
    (fun q hq ↦ ?_) (hids ▸ hnodup) ((hholds.selected key).restart s.nextId) (fun q hq ↦ ?_)
    ⟨rfl, rfl, rfl⟩
  · obtain ⟨q₁, hq₁, hid₁, -⟩ := mem_abort hq
    obtain ⟨q₀, hq₀, hid₀, -⟩ := mem_abort hq₁
    exact hid₁ ▸ hid₀ ▸ hfresh q₀ hq₀
  · obtain ⟨q₁, hq₁, hid₁, hkey₁, hreply₁, hlive₁⟩ := mem_abort hq
    obtain ⟨q₀, hq₀, hid₀, hkey₀, hreply₀, hlive₀⟩ := mem_abort hq₁
    refine ⟨fun p hp ↦ ?_, fun ha ↦ ?_⟩
    · rw [← hkey₁, ← hkey₀]
      exact hserved q₀ hq₀ p (hreply₀.trans (hreply₁.trans hp))
    · obtain ⟨rfl, hne₁⟩ := hlive₁ ha
      obtain ⟨rfl, hne₀⟩ := hlive₀ ha
      obtain hmain | holder | ⟨hkind, hqkey, rfl, htail, hrev⟩ := hlive q hq₀ ha
      · exact absurd hmain hne₀
      · exact absurd holder hne₁
      · rw [Store.selected_self, hkind]
        exact ⟨hqkey, htail, hrev⟩

theorem Sound.reload {s : System} (h : Sound s) {st : Store} (hkey : st.key = s.store.key)
    (hcandles : st.candles = s.store.candles) (hrevision : st.revision = s.store.revision)
    (hmain : st.mainCtrl = s.store.mainCtrl) (holder : st.olderCtrl = s.store.olderCtrl)
    (htail : st.tailCtrl = s.store.tailCtrl) : Sound { s with store := st }.reload := by
  refine Sound.loadMain (s := { s with store := st }) h.fresh h.nodup ⟨?_, ?_⟩ st.key
    (fun q hq ↦ (h.requests q hq).served) (fun q hq ha ↦ ?_)
  · simp only [hcandles, hkey, hrevision]
    exact h.store.origin
  · have hbuckets : st.buckets s.server = s.store.buckets s.server := by
      rw [Store.buckets, Store.buckets, hkey, hrevision]
    simp only [hcandles, hbuckets]
    exact h.store.slice
  · obtain ⟨hqkey, hlive⟩ := (h.requests q hq).live ha
    cases hkind : q.kind with
    | main =>
      rw [hkind] at hlive
      exact .inl (hmain.trans hlive.1)
    | older cursor =>
      rw [hkind] at hlive
      exact .inr (.inl (holder.trans hlive.1))
    | tail =>
      rw [hkind] at hlive
      refine .inr (.inr ⟨rfl, hqkey.trans hkey.symm, rfl, htail.trans hlive.1, ?_⟩)
      rw [hrevision, hkey]
      exact hlive.2

theorem Sound.select {s : System} (h : Sound s) (key : ChartKey) : Sound (s.select key) := by
  refine Sound.loadMain (s := { s.abort s.store.tailCtrl with
    store := { s.store with tailCtrl := none } }) (fun q hq ↦ ?_) ?_
    ⟨h.store.origin, h.store.slice⟩ key (fun q hq p hp ↦ ?_) (fun q hq ha ↦ ?_)
  · obtain ⟨q₀, hq₀, hid₀, -⟩ := mem_abort hq
    exact hid₀ ▸ h.fresh q₀ hq₀
  · rw [ids_abort]
    exact h.nodup
  · obtain ⟨q₀, hq₀, -, hkey₀, hreply₀, -⟩ := mem_abort hq
    rw [← hkey₀]
    exact (h.requests q₀ hq₀).served p (hreply₀.trans hp)
  · obtain ⟨q₀, hq₀, -, -, -, hlive₀⟩ := mem_abort hq
    obtain ⟨rfl, hne⟩ := hlive₀ ha
    obtain ⟨-, hlive⟩ := (h.requests q hq₀).live ha
    cases hkind : q.kind with
    | main =>
      rw [hkind] at hlive
      exact .inl hlive.1
    | older cursor =>
      rw [hkind] at hlive
      exact .inr (.inl hlive.1)
    | tail =>
      rw [hkind] at hlive
      exact absurd hlive.1 hne

theorem start_sound (server : Server) (key : ChartKey) : Sound (System.start server key) :=
  Sound.loadMain (s := System.initial server key) (fun _ hq ↦ absurd hq not_mem_nil)
    nodup_nil
    ⟨fun _ hc ↦ absurd hc not_mem_nil, .nil _⟩ key
    (fun _ hq ↦ absurd hq not_mem_nil) (fun _ hq ↦ absurd hq not_mem_nil)

theorem Sound.drop {s : System} (h : Sound s) (id : ℕ) :
    Sound { s with inFlight := s.inFlight.filter (fun q ↦ q.id ≠ id) } where
  fresh q hq := h.fresh q (mem_of_mem_filter hq)
  nodup := h.nodup.sublist (filter_sublist.map Request.id)
  store := h.store
  requests q hq := h.requests q (mem_of_mem_filter hq)

theorem Sound.timer {s : System} (h : Sound s) (timer : Bool) :
    Sound { s with store := { s.store with olderTimer := timer } } where
  fresh := h.fresh
  nodup := h.nodup
  store := ⟨h.store.origin, h.store.slice, h.store.kind, h.store.more⟩
  requests q hq := by
    refine ⟨(h.requests q hq).served, fun ha ↦ ?_⟩
    obtain ⟨hqkey, hlive⟩ := (h.requests q hq).live ha
    refine ⟨hqkey, ?_⟩
    cases hkind : q.kind <;> rw [hkind] at hlive <;> exact hlive

theorem Sound.loadOlder {s : System} (h : Sound s) : Sound s.loadOlder := by
  rw [System.loadOlder]
  split
  · exact h
  · exact h.timer true

theorem Sound.fireTimer {s : System} (h : Sound s) : Sound s.fireTimer := by
  rw [System.fireTimer]
  dsimp only
  split
  · exact h.timer false
  · rename_i latest hlatest
    split
    · exact h.timer false
    · rename_i hgo
      simp only [not_or, Bool.not_eq_true, Bool.not_eq_false] at hgo
      obtain ⟨hidle, hmore, -⟩ := hgo
      obtain ⟨hready, -, hnext⟩ := h.store.more hmore
      have hhead : (times s.store.candles).head? = some latest := hnext.symm.trans hlatest
      have hnew : LiveOk s.server { s.store with
          olderTimer := false, olderCtrl := some s.nextId, olderInFlight := true
          requestedCursor := some latest, loadingOlder := true }
          ⟨s.nextId, .older latest, s.store.key, s.store.loads, false, none⟩ (.older latest) :=
        ⟨rfl, hready, rfl, rfl, hhead, fun p hp ↦ nomatch hp⟩
      refine Sound.send (s := { s with store :=
          { s.store with
            olderTimer := false, olderCtrl := some s.nextId, olderInFlight := true
            requestedCursor := some latest, loadingOlder := true } }) h.fresh h.nodup
        ⟨h.store.origin, h.store.slice, h.store.kind, h.store.more⟩ (fun q hq ↦ ?_) hnew
      refine ⟨(h.requests q hq).served, fun ha ↦ ?_⟩
      obtain ⟨hqkey, hlive⟩ := (h.requests q hq).live ha
      refine ⟨hqkey, ?_⟩
      cases hkind : q.kind with
      | main =>
        rw [hkind] at hlive
        exact absurd (hready.symm.trans hlive.2.1) (by decide)
      | older cursor =>
        rw [hkind] at hlive
        exact absurd (hidle.symm.trans hlive.2.2.1) (by decide)
      | tail =>
        rw [hkind] at hlive
        exact hlive

theorem Sound.tick {s : System} (h : Sound s) : Sound s.tick := by
  rw [System.tick]
  split
  · exact h
  · rename_i hgo
    simp only [not_or, Bool.not_eq_true, Bool.not_eq_false] at hgo
    obtain ⟨hready, hidle⟩ := hgo
    refine Sound.send (s := { s.abort s.store.tailCtrl with
      store := { s.store with tailCtrl := some s.nextId } }) (fun q hq ↦ ?_) ?_
      ⟨h.store.origin, h.store.slice, h.store.kind, h.store.more⟩
      (fun q hq ↦ ?_) ⟨rfl, h.store.kind hready⟩
    · obtain ⟨q₀, hq₀, hid₀, -⟩ := mem_abort hq
      exact hid₀ ▸ h.fresh q₀ hq₀
    · rw [ids_abort]
      exact h.nodup
    · obtain ⟨q₀, hq₀, -, hkey₀, hreply₀, hlive₀⟩ := mem_abort hq
      refine ⟨fun p hp ↦ hkey₀ ▸ (h.requests q₀ hq₀).served p (hreply₀.trans hp), fun ha ↦ ?_⟩
      obtain ⟨rfl, hne⟩ := hlive₀ ha
      obtain ⟨hqkey, hlive⟩ := (h.requests q hq₀).live ha
      refine ⟨hqkey, ?_⟩
      cases hkind : q.kind with
      | main =>
        rw [hkind] at hlive
        exact hlive
      | older cursor =>
        rw [hkind] at hlive
        exact hlive
      | tail =>
        rw [hkind] at hlive
        exact absurd hlive.1 hne

end Invariant

end TalaPala.Chart
