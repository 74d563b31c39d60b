import TalaPala.Drawings.Identities

namespace TalaPala.Drawings.Api

open Library Owned List

variable {letters : Letters} {doubles : Doubles} {served : Text → Option Bool}
  {U : Type*} [DecidableEq U] {u : U} {s t : State U} {ρ : ℤ → ℤ} {request : ℕ} {now : ℤ}
  {body : Except String DrawingRequest}

section Alone

variable (u : U) (S : Finset ℤ)

/-- A run and the user's part of it, at the point where `es` is left: the set holds the
ids that the user was handed and will be handed. -/
structure Tracks (letters : Letters) (doubles : Doubles) (es : List (Event U)) (s t : State U) :
    Prop where
  mirrors : Mirrors u (renumber S) s t
  ids : ∀ y ∈ s.identities, y.1 = u → y.2.1 ∈ S
  ahead : ∀ x, s.nextId ≤ x → (x ∈ S ↔ x ∈ handedOut letters doubles u s es)
  nextId : t.nextId = 1 + rank S s.nextId

variable {u} {S} {es : List (Event U)}

omit [DecidableEq U] in
theorem nextId_le {s s' : State U} (h : Succeeds u s s') : s.nextId ≤ s'.nextId := by
  cases h with
  | kept hkept => exact hkept.nextId.ge
  | drawn symbol interval hnext hsub => exact hnext ▸ (lt_add_one _).le

theorem handedOut_cons {e : Event U} {x : ℤ} (h : x ∈ handedOut letters doubles u s (e :: es)) :
    x = s.nextId ∧ (step letters doubles s e).1.nextId ≠ s.nextId ∨
      x ∈ handedOut letters doubles u (step letters doubles s e).1 es := by
  rw [handedOut] at h
  rcases mem_append.mp h with h | h
  · split at h
    · rename_i hif
      exact .inl ⟨mem_singleton.mp h, hif.2⟩
    · cases h
  · exact .inr h

theorem nextId_le_of_handedOut {x : ℤ} (h : x ∈ handedOut letters doubles u s es) :
    s.nextId ≤ x := by
  induction es generalizing s with
  | nil => cases h
  | cons e es ih =>
    rcases handedOut_cons h with ⟨rfl, -⟩ | hlater
    · exact le_rfl
    · exact (nextId_le step_succeeds).trans (ih hlater)

theorem Mirrors.apart {s' : State U} (h : Mirrors u ρ s t) (hs : Apart u s s') :
    Mirrors u ρ s' t :=
  ⟨hs.rows ▸ h.rows, hs.counted ▸ h.counted, hs.numbered ▸ h.numbered, hs.missed ▸ h.missed⟩

theorem Tracks.other {e : Event U} (he : e.user ≠ u)
    (h : Tracks u S letters doubles (e :: es) s t) :
    Tracks u S letters doubles es (step letters doubles s e).1 t := by
  have hahead (x : ℤ) (hx : s.nextId ≤ x) :
      x ∈ S ↔ x ∈ handedOut letters doubles u (step letters doubles s e).1 es := by
    have hx' := h.ahead x hx
    rwa [handedOut, if_neg (fun hif ↦ he hif.1), nil_append] at hx'
  have hstep : Succeeds e.user s (step letters doubles s e).1 := step_succeeds
  refine ⟨h.mirrors.apart (step_apart he), ?_, fun x hx ↦ hahead x ((nextId_le hstep).trans hx), ?_⟩
  · cases hstep with
    | kept hkept => exact fun y hy ↦ h.ids y (hkept.identities hy)
    | drawn symbol interval hnext hsub =>
      intro y hy hmine
      rcases mem_cons.mp (hsub hy) with rfl | hold
      · exact absurd hmine he
      · exact h.ids y hold hmine
  · cases hstep with
    | kept hkept => rw [hkept.nextId, h.nextId]
    | drawn symbol interval hnext hsub =>
      -- The id went to another user, so that it is none of the set.
      have hother : s.nextId ∉ S := by
        intro hmem
        have hle := nextId_le_of_handedOut ((hahead _ le_rfl).mp hmem)
        omega
      rw [hnext, rank_succ_of_notMem hother, h.nextId]

theorem Tracks.mine {e : Event U} (hS : ∀ y ∈ S, 1 ≤ y) (he : e.user = u)
    (h : Tracks u S letters doubles (e :: es) s t) :
    Tracks u S letters doubles es (step letters doubles s e).1
        (step letters doubles t (e.rename (renumber S))).1 ∧
      (step letters doubles t (e.rename (renumber S))).2 =
        (step letters doubles s e).2.map (Response.rename (renumber S)) := by
  have hstep : Succeeds e.user s (step letters doubles s e).1 := step_succeeds
  have hdrawn (hne : (step letters doubles s e).1.nextId ≠ s.nextId) : s.nextId ∈ S := by
    rw [h.ahead _ le_rfl, handedOut, if_pos ⟨he, hne⟩]
    exact mem_append_left _ (mem_singleton_self _)
  have hid (hne : (step letters doubles s e).1.nextId ≠ s.nextId) :
      t.nextId = renumber S s.nextId := by
    rw [renumber_of_mem (hdrawn hne), h.nextId]
  have hids (d : DrawingDTO) (hd : d ∈ own u s.rows) : d.id ∈ S :=
    h.ids _ (identity_mem (mem_own.mp hd)) rfl
  have hmono : StrictMonoOn (renumber S) S := fun x hx y hy ↦ renumber_lt_renumber hx hy
  obtain ⟨hmirrors, hanswer⟩ := step_agrees (renumber_injective hS) hmono hids
    h.mirrors he hid
  have hnext := step_nextId h.mirrors he hid
  refine ⟨⟨hmirrors, ?_, ?_, ?_⟩, hanswer⟩
  · cases hstep with
    | kept hkept => exact fun y hy ↦ h.ids y (hkept.identities hy)
    | drawn symbol interval hnext hsub =>
      intro y hy hmine
      rcases mem_cons.mp (hsub hy) with rfl | hold
      · exact hdrawn (hnext ▸ (lt_add_one _).ne')
      · exact h.ids y hold hmine
  · intro x hx
    rw [h.ahead x ((nextId_le hstep).trans hx), handedOut, mem_append]
    refine or_iff_right (fun hmem ↦ ?_)
    split at hmem
    · rename_i hif
      have hlt := lt_of_le_of_ne (nextId_le hstep) hif.2.symm
      have heq := mem_singleton.mp hmem
      omega
    · cases hmem
  · rw [hnext, h.nextId]
    cases hstep with
    | kept hkept => rw [hkept.nextId, sub_self, add_zero]
    | drawn symbol interval hnext' hsub =>
      rw [hnext', add_sub_cancel_left, rank_succ_of_mem (hdrawn (hnext' ▸ (lt_add_one _).ne'))]
      push_cast
      ring

end Alone

section Cap

variable {symbol interval : Text}

def load (u : U) (symbol interval : Text) (s : State U) : ℕ :=
  (own u s.rows).countP (fun d ↦ d.symbol = symbol && d.interval = interval) +
    (own u s.counted).countP (fun c ↦ c.row.symbol = symbol && c.row.interval = interval) +
    (own u s.numbered).countP (fun n ↦ n.drawing.symbol = symbol && n.drawing.interval = interval)

theorem countP_eraseP_add {α : Type*} {l : List α} {p q : α → Bool} {a : α}
    (h : l.find? p = some a) :
    l.countP q = (if q a then 1 else 0) + (l.eraseP p).countP q := by
  induction l with
  | nil => cases h
  | cons b l ih =>
    by_cases hb : p b
    · rw [find?_cons_of_pos hb] at h
      cases h
      rw [eraseP_cons_of_pos hb, countP_cons, add_comm]
    · rw [find?_cons_of_neg hb] at h
      rw [eraseP_cons_of_neg hb, countP_cons, countP_cons, ih h, add_assoc]

theorem find?_own_of_find? {α : Type*} {l : List (Owned U α)} {p : Owned U α → Bool}
    {x : Owned U α} (h : l.find? (fun x ↦ x.owner = u && p x) = some x) :
    (own u l).find? (fun x ↦ p ⟨u, x⟩) = some x.row := by
  rw [find?_own owner_of_and] at h
  obtain ⟨y, hy, rfl⟩ := Option.map_eq_some_iff.mp h
  simpa using hy

theorem Apart.load {s' : State U} (h : Apart u s s') :
    load u symbol interval s' = load u symbol interval s := by
  rw [Api.load, Api.load, h.rows, h.counted, h.numbered]

theorem createDrawing_load :
    load u symbol interval (createDrawing letters doubles served s u request now body).1 ≤
        load u symbol interval s ∨
      load u symbol interval (createDrawing letters doubles served s u request now body).1 ≤
        maxDrawingsPerChart - 1 +
          (createDrawing letters doubles served s u request now body).1.inFlight u := by
  rw [createDrawing]
  split
  · exact .inl le_rfl
  · split
    · exact .inl le_rfl
    · split
      · rename_i row _ _ hroom
        rw [countP_own owner_of_onChart] at hroom
        simp only [load, State.inFlight, own_append_mine, countP_append]
        by_cases hchart : row.symbol = symbol ∧ row.interval = interval
        · right
          obtain ⟨rfl, rfl⟩ := hchart
          have hrows : (own u s.rows).countP (fun d ↦ onChart u row.symbol row.interval ⟨u, d⟩) =
              (own u s.rows).countP
                (fun d ↦ d.symbol = row.symbol && d.interval = row.interval) := by
            simp [onChart]
          have hcounted := countP_le_length (l := own u s.counted ++ [⟨request, row, now⟩])
            (p := fun c ↦ c.row.symbol = row.symbol && c.row.interval = row.interval)
          have hnumbered := countP_le_length (l := own u s.numbered)
            (p := fun n ↦ n.drawing.symbol = row.symbol && n.drawing.interval = row.interval)
          rw [countP_append] at hcounted
          omega
        · left
          have hnone : (decide (row.symbol = symbol) && decide (row.interval = interval)) = false := by
            simpa using hchart
          simp [hnone]
      · exact .inl le_rfl

theorem numberInsert_load :
    load u symbol interval (numberInsert s u request) = load u symbol interval s := by
  rw [numberInsert]
  split
  · rfl
  · rename_i n hn
    obtain ⟨c, hc, -, -, hsymbol, hinterval⟩ := exists_of_numberedRow hn
    have hcount := countP_eraseP_add
      (q := fun c ↦ c.row.symbol = symbol && c.row.interval = interval) (find?_own_of_find? hc)
    dsimp only at hcount
    simp only [load, own_append_mine, own_eraseP_mine, countP_append, countP_singleton,
      hsymbol, hinterval]
    omega

theorem commitInsert_load :
    load u symbol interval (commitInsert s u request).1 = load u symbol interval s := by
  rw [commitInsert]
  split
  · rfl
  · rename_i n hn
    have hcount := countP_eraseP_add
      (q := fun n ↦ n.drawing.symbol = symbol && n.drawing.interval = interval)
      (find?_own_of_find? hn)
    dsimp only at hcount
    simp only [load, own_append_mine, own_eraseP_mine, countP_append, countP_singleton]
    omega

theorem updateDrawingHandler_load {id : Option ℤ} :
    load u symbol interval
        (updateDrawingHandler letters doubles served s u request id now body).1 =
      load u symbol interval s := by
  cases id with
  | none => rfl
  | some id =>
    rw [updateDrawingHandler]
    split
    · rfl
    · split
      · rfl
      · split
        · rfl
        · rename_i row _ _ _ _ _
          rw [load, load, own_map, countP_map]
          congr 2
          refine countP_congr (fun d _ ↦ ?_)
          rw [Function.comp_apply]
          cases hd : updated u id now row ⟨u, d⟩ with
          | none => rfl
          | some d' =>
            have hsame := identity_of_updated hd
            simp only [identity, Prod.mk.injEq] at hsame
            rw [Option.getD_some, hsame.2.2.1, hsame.2.2.2]

theorem updateDrawingNoRows_load :
    load u symbol interval (updateDrawingNoRows s u request).1 = load u symbol interval s := by
  rw [updateDrawingNoRows]
  split <;> rfl

theorem deleteDrawing_load {id : Option ℤ} :
    load u symbol interval (deleteDrawing s u id).1 ≤ load u symbol interval s := by
  cases id with
  | none => exact le_rfl
  | some id =>
    rw [deleteDrawing, load, load, own_filter]
    exact Nat.add_le_add_right (Nat.add_le_add_right filter_sublist.countP_le _) _

theorem failRequest_load :
    load u symbol interval (failRequest s u request) ≤ load u symbol interval s := by
  rw [failRequest, load, load, own_eraseP_mine, own_eraseP_mine]
  exact Nat.add_le_add (Nat.add_le_add_left eraseP_sublist.countP_le _)
    eraseP_sublist.countP_le

theorem step_load {e : Event U} (he : e.user = u) :
    load u symbol interval (step letters doubles s e).1 ≤ load u symbol interval s ∨
      load u symbol interval (step letters doubles s e).1 ≤
        maxDrawingsPerChart - 1 + (step letters doubles s e).1.inFlight u := by
  obtain ⟨user, now, served, action⟩ := e
  cases he
  cases action with
  | list symbol interval => exact .inl le_rfl
  | create request body => exact createDrawing_load
  | number request => exact .inl numberInsert_load.le
  | commit request => exact .inl commitInsert_load.le
  | update request id body => exact .inl updateDrawingHandler_load.le
  | explain request => exact .inl updateDrawingNoRows_load.le
  | delete id => exact .inl deleteDrawing_load
  | fail request => exact .inl failRequest_load

theorem inFlight_le_peak {es : List (Event U)} :
    s.inFlight u ≤ peakInFlight letters doubles u s es := by
  cases es with
  | nil => exact le_rfl
  | cons e es => exact le_max_left _ _

theorem run_load {es : List (Event U)} :
    load u symbol interval (run letters doubles s es) ≤
      max (load u symbol interval s)
        (maxDrawingsPerChart - 1 + peakInFlight letters doubles u s es) := by
  induction es generalizing s with
  | nil => exact le_max_left _ _
  | cons e es ih =>
    have hrest := @ih (step letters doubles s e).1
    have hpeak : peakInFlight letters doubles u (step letters doubles s e).1 es ≤
        peakInFlight letters doubles u s (e :: es) := le_max_right _ _
    have hnext : (step letters doubles s e).1.inFlight u ≤
        peakInFlight letters doubles u (step letters doubles s e).1 es := inFlight_le_peak
    rw [run_cons]
    by_cases he : e.user = u
    · have hstep : load u symbol interval (step letters doubles s e).1 ≤ load u symbol interval s ∨
          load u symbol interval (step letters doubles s e).1 ≤
            maxDrawingsPerChart - 1 + (step letters doubles s e).1.inFlight u := step_load he
      omega
    · have hstep : load u symbol interval (step letters doubles s e).1 = load u symbol interval s :=
        (step_apart he).load
      omega

theorem countP_onChart_le_load :
    s.rows.countP (onChart u symbol interval) ≤ load u symbol interval s := by
  rw [countP_own owner_of_onChart, load]
  simp only [onChart, decide_true, Bool.true_and]
  omega

end Cap

section Isolated

theorem nextId_le_run {es : List (Event U)} :
    s.nextId ≤ (run letters doubles s es).nextId := by
  induction es generalizing s with
  | nil => exact le_rfl
  | cons e es ih => exact (nextId_le step_succeeds).trans ih

theorem lt_nextId_of_handedOut {x : ℤ} {es : List (Event U)}
    (h : x ∈ handedOut letters doubles u s es) : x < (run letters doubles s es).nextId := by
  induction es generalizing s with
  | nil => cases h
  | cons e es ih =>
    rcases handedOut_cons h with ⟨rfl, hdrawn⟩ | hlater
    · exact ((nextId_le step_succeeds).lt_of_ne hdrawn.symm).trans_le nextId_le_run
    · exact ih hlater

theorem tracks_empty (es : List (Event U)) :
    Tracks u (handedOut letters doubles u State.empty es).toFinset letters doubles es
      State.empty State.empty where
  mirrors := ⟨rfl, rfl, rfl, rfl⟩
  ids := fun y hy ↦ absurd hy not_mem_nil
  ahead := fun x _ ↦ mem_toFinset
  nextId := by
    have hnone : rank (handedOut letters doubles u State.empty es).toFinset 1 = 0 := by
      refine Finset.card_eq_zero.mpr (Finset.filter_eq_empty_iff.mpr (fun x hx ↦ ?_))
      exact not_lt.mpr (nextId_le_of_handedOut (mem_toFinset.mp hx))
    exact (congrArg (fun n : ℕ ↦ 1 + (n : ℤ)) hnone).symm

variable (letters doubles)

/-- Whatever the others send, a user is answered as when it is alone, under other ids; a
row stays with its user and chart; and a chart passes its cap only by inserts of its user
that were in flight together. -/
theorem drawings_isolated (u : U) (es : List (Event U)) :
    (∃ ρ : ℤ → ℤ, Function.Injective ρ ∧
        StrictMonoOn ρ {x | x ∈ handedOut letters doubles u State.empty es} ∧
        (∀ x, x < 1 ∨ (run letters doubles State.empty es).nextId ≤ x → ρ x = x) ∧
        answers (step letters doubles) (fun e ↦ e.user = u) State.empty
            ((es.filter (fun e ↦ e.user = u)).map (Event.rename ρ)) =
          (answers (step letters doubles) (fun e ↦ e.user = u) State.empty es).map
            (Option.map (Response.rename ρ))) ∧
      (∀ es' r r', r ∈ (run letters doubles State.empty es).rows →
        r' ∈ (run letters doubles State.empty (es ++ es')).rows → r'.row.id = r.row.id →
        r'.owner = r.owner ∧ r'.row.symbol = r.row.symbol ∧ r'.row.interval = r.row.interval) ∧
      ∀ symbol interval,
        (run letters doubles State.empty es).rows.countP (onChart u symbol interval) ≤
          maxDrawingsPerChart - 1 + peakInFlight letters doubles u State.empty es := by
  have hpositive : ∀ y ∈ (handedOut letters doubles u State.empty es).toFinset, 1 ≤ y :=
    fun y hy ↦ nextId_le_of_handedOut (mem_toFinset.mp hy)
  refine ⟨⟨renumber (handedOut letters doubles u State.empty es).toFinset,
    renumber_injective hpositive, ?_, ?_, ?_⟩, ?_, ?_⟩
  · intro x hx y hy hlt
    exact renumber_lt_renumber (mem_toFinset.mpr hx) (mem_toFinset.mpr hy) hlt
  · rintro x (hx | hx)
    · exact renumber_of_lt_one hpositive hx
    · exact renumber_of_above (fun y hy ↦
        (lt_nextId_of_handedOut (mem_toFinset.mp hy)).trans_le hx)
  · refine answers_eq_alone (R := Tracks u _ letters doubles) ?_ ?_ ?_ (tracks_empty es)
    · exact fun e he ↦ he
    · intro e es' s t he h
      exact h.other (of_decide_eq_false he)
    · intro e es' s t he h
      exact h.mine hpositive (of_decide_eq_true he)
  · intro es' r r' hr hr' hid
    have hsame := same_identity hr hr' hid
    simp only [identity, Prod.mk.injEq] at hsame
    exact ⟨hsame.1, hsame.2.2⟩
  · intro symbol interval
    have hload : load u symbol interval (run letters doubles State.empty es) ≤
        max (load u symbol interval State.empty)
          (maxDrawingsPerChart - 1 + peakInFlight letters doubles u State.empty es) := run_load
    have hcount : (run letters doubles State.empty es).rows.countP (onChart u symbol interval) ≤
        load u symbol interval (run letters doubles State.empty es) := countP_onChart_le_load
    have hempty : load u symbol interval State.empty = 0 := rfl
    omega

end Isolated

end TalaPala.Drawings.Api
