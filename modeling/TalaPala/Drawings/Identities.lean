import TalaPala.Drawings.Mirrors

namespace TalaPala.Drawings.Api

open Library Owned List

variable {letters : Letters} {doubles : Doubles} {served : Text → Option Bool}
  {U : Type*} [DecidableEq U] {u : U} {s t : State U} {ρ : ℤ → ℤ} {request : ℕ} {now : ℤ}
  {body : Except String DrawingRequest}

section Identity

def identity (r : Owned U DrawingDTO) : U × ℤ × Text × Text :=
  (r.owner, r.row.id, r.row.symbol, r.row.interval)

def State.identities (s : State U) : List (U × ℤ × Text × Text) :=
  s.rows.map identity ++ s.numbered.map (fun n ↦ identity ⟨n.owner, n.row.drawing⟩)

structure Kept (s s' : State U) : Prop where
  nextId : s'.nextId = s.nextId
  identities : s'.identities ⊆ s.identities

inductive Succeeds (u : U) (s s' : State U) : Prop
  | kept (h : Kept s s')
  | drawn (symbol interval : Text) (nextId : s'.nextId = s.nextId + 1)
      (identities : s'.identities ⊆ (u, s.nextId, symbol, interval) :: s.identities)

omit [DecidableEq U] in
theorem Kept.of_subset {s s' : State U} (hnext : s'.nextId = s.nextId)
    (hrows : s'.rows.map identity ⊆ s.rows.map identity) (hnumbered : s'.numbered ⊆ s.numbered) :
    Kept s s' :=
  ⟨hnext, append_subset.mpr
    ⟨subset_append_of_subset_left _ hrows,
      subset_append_of_subset_right _ (map_subset _ hnumbered)⟩⟩

omit [DecidableEq U] in
theorem Kept.refl : Kept s s := ⟨rfl, fun _ h ↦ h⟩

theorem createDrawing_kept :
    Kept s (createDrawing letters doubles served s u request now body).1 := by
  rw [createDrawing]
  split
  · exact .refl
  · split
    · exact .refl
    · split
      · exact ⟨rfl, fun _ h ↦ h⟩
      · exact .refl

theorem identity_of_inserted {row : DrawingRow} {d : StoredDrawing} {id : ℤ}
    (h : insertDrawing id row = some d) :
    d.id = id ∧ d.symbol = row.symbol ∧ d.interval = row.interval := by
  simp only [insertDrawing, Option.bind_eq_bind, Option.bind_eq_some_iff] at h
  obtain ⟨points, -, style, -, h⟩ := h
  cases h
  exact ⟨rfl, rfl, rfl⟩

theorem exists_of_numberedRow {n : NumberedInsert} (h : numberedRow s u request = some n) :
    ∃ c, s.counted.find? (fun c ↦ c.owner = u && decide (c.row.request = request)) = some c ∧
      n.request = request ∧ n.drawing.id = s.nextId ∧ n.drawing.symbol = c.row.row.symbol ∧
      n.drawing.interval = c.row.row.interval := by
  rw [numberedRow, Option.bind_eq_some_iff] at h
  obtain ⟨c, hc, h⟩ := h
  obtain ⟨d, hd, rfl⟩ := Option.map_eq_some_iff.mp h
  exact ⟨c, hc, rfl, identity_of_inserted hd⟩

theorem numberInsert_succeeds : Succeeds u s (numberInsert s u request) := by
  rw [numberInsert]
  split
  · exact .kept .refl
  · rename_i n hn
    obtain ⟨c, -, -, hid, -⟩ := exists_of_numberedRow hn
    refine .drawn n.drawing.symbol n.drawing.interval rfl ?_
    rw [State.identities, map_append, ← append_assoc]
    refine append_subset.mpr ⟨subset_cons_self _ _, ?_⟩
    rw [map_singleton, identity, hid]
    exact cons_subset.mpr ⟨mem_cons_self, nil_subset _⟩

theorem commitInsert_kept : Kept s (commitInsert s u request).1 := by
  rw [commitInsert]
  split
  · exact .refl
  · rename_i n hn
    have hmem : n ∈ s.numbered := mem_of_find?_eq_some hn
    have howner : n.owner = u := by
      have hmine := find?_some hn
      exact owner_of_and (p := fun n ↦ decide (n.row.request = request)) n hmine
    refine ⟨rfl, append_subset.mpr ⟨?_, ?_⟩⟩
    · rw [map_append]
      refine append_subset.mpr ⟨subset_append_left _ _, ?_⟩
      refine cons_subset.mpr ⟨mem_append_right _ ?_, nil_subset _⟩
      exact mem_map.mpr ⟨n, hmem, by rw [howner]⟩
    · exact subset_append_of_subset_right _ (map_subset _ eraseP_subset)

theorem identity_of_updated {v : U} {id : ℤ} {row : DrawingRow} {r : Owned U DrawingDTO}
    {d : DrawingDTO} (h : updated v id now row r = some d) :
    identity ⟨r.owner, d⟩ = identity r := by
  rw [updated] at h
  split at h
  · obtain ⟨d', hd', h⟩ := Option.bind_eq_some_iff.mp h
    cases h
    simp only [updateDrawing, Option.bind_eq_bind, Option.bind_eq_some_iff] at hd'
    obtain ⟨points, -, style, -, hd'⟩ := hd'
    split at hd'
    · cases hd'
      rfl
    · cases hd'
  · cases h

theorem updateDrawingHandler_kept {id : Option ℤ} :
    Kept s (updateDrawingHandler letters doubles served s u request id now body).1 := by
  cases id with
  | none => exact .refl
  | some id =>
    rw [updateDrawingHandler]
    split
    · exact .refl
    · split
      · exact .refl
      · split
        · exact ⟨rfl, fun _ h ↦ h⟩
        · rename_i row _ _ _ _ _
          have hsame : (s.rows.map (fun r ↦ (⟨r.owner, (updated u id now row r).getD r.row⟩ :
              Owned U DrawingDTO))).map identity = s.rows.map identity := by
            rw [map_map]
            refine map_congr_left (fun r _ ↦ ?_)
            rw [Function.comp_apply]
            cases hd : updated u id now row r with
            | none => rfl
            | some d => exact identity_of_updated hd
          exact .of_subset rfl (fun _ h ↦ hsame ▸ h) (fun _ h ↦ h)

theorem updateDrawingNoRows_kept : Kept s (updateDrawingNoRows s u request).1 := by
  rw [updateDrawingNoRows]
  split
  · exact .refl
  · exact ⟨rfl, fun _ h ↦ h⟩

theorem deleteDrawing_kept {id : Option ℤ} : Kept s (deleteDrawing s u id).1 := by
  cases id with
  | none => exact .refl
  | some id =>
    exact .of_subset rfl (map_subset _ (filter_subset_self _)) (fun _ h ↦ h)

theorem step_kept {e : Event U} (h : ∀ request, e.action ≠ .number request) :
    Kept s (step letters doubles s e).1 := by
  rw [step]
  cases haction : e.action with
  | list symbol interval => exact .refl
  | create request body => exact createDrawing_kept
  | number request => exact absurd haction (h request)
  | commit request => exact commitInsert_kept
  | update request id body => exact updateDrawingHandler_kept
  | explain request => exact updateDrawingNoRows_kept
  | delete id => exact deleteDrawing_kept
  | fail request => exact .of_subset rfl (fun _ h ↦ h) eraseP_subset

theorem step_succeeds {e : Event U} : Succeeds e.user s (step letters doubles s e).1 := by
  by_cases h : ∃ request, e.action = .number request
  · obtain ⟨request, h⟩ := h
    rw [step, h]
    exact numberInsert_succeeds
  · exact .kept (step_kept (fun request hrequest ↦ h ⟨request, hrequest⟩))

theorem step_nextId {e : Event U} (h : Mirrors u ρ s t) (he : e.user = u)
    (hid : (step letters doubles s e).1.nextId ≠ s.nextId → t.nextId = ρ s.nextId) :
    (step letters doubles t (e.rename ρ)).1.nextId =
      t.nextId + ((step letters doubles s e).1.nextId - s.nextId) := by
  by_cases hnumber : ∃ request, e.action = .number request
  · obtain ⟨user, now, served, action⟩ := e
    obtain ⟨request, rfl⟩ := hnumber
    cases he
    exact numberInsert_nextId h hid
  · have hkept : ∀ request, e.action ≠ .number request := fun request hrequest ↦
      hnumber ⟨request, hrequest⟩
    have hkept' : ∀ request, (e.rename ρ).action ≠ .number request := by
      intro request hrequest
      refine hkept request ?_
      cases haction : e.action <;> simp_all [Event.rename, Action.rename]
    rw [(step_kept hkept).nextId, (step_kept hkept').nextId, sub_self, add_zero]

def Settled (id : ℤ) (x : U × Text × Text) (s : State U) : Prop :=
  id < s.nextId ∧ ∀ y ∈ s.identities, y.2.1 = id → y = (x.1, id, x.2)

def State.Keyed (s : State U) : Prop :=
  ∀ y ∈ s.identities, Settled y.2.1 (y.1, y.2.2) s

omit [DecidableEq U] in
theorem Settled.succ {id : ℤ} {x : U × Text × Text} {s s' : State U} (h : Settled id x s)
    (hstep : Succeeds u s s') : Settled id x s' := by
  cases hstep with
  | kept hkept => exact ⟨hkept.nextId ▸ h.1, fun y hy ↦ h.2 y (hkept.identities hy)⟩
  | drawn symbol interval hnext hsub =>
    refine ⟨by rw [hnext]; exact h.1.trans (lt_add_one _), fun y hy hid ↦ ?_⟩
    rcases mem_cons.mp (hsub hy) with rfl | hy
    · exact absurd hid h.1.ne'
    · exact h.2 y hy hid

omit [DecidableEq U] in
theorem State.Keyed.succ {s s' : State U} (h : s.Keyed) (hstep : Succeeds u s s') : s'.Keyed := by
  intro y hy
  have hstep' := hstep
  cases hstep with
  | kept hkept => exact (h y (hkept.identities hy)).succ hstep'
  | drawn symbol interval hnext hsub =>
    rcases mem_cons.mp (hsub hy) with rfl | hold
    · refine ⟨by rw [hnext]; exact lt_add_one _, fun z hz hid ↦ ?_⟩
      rcases mem_cons.mp (hsub hz) with rfl | hz
      · rfl
      · exact absurd hid (h z hz).1.ne
    · exact (h y hold).succ hstep'

theorem run_cons (e : Event U) (es : List (Event U)) :
    run letters doubles s (e :: es) = run letters doubles (step letters doubles s e).1 es := rfl

theorem run_append (es es' : List (Event U)) :
    run letters doubles s (es ++ es') = run letters doubles (run letters doubles s es) es' :=
  foldl_append

theorem State.Keyed.run {es : List (Event U)} (h : s.Keyed) :
    (run letters doubles s es).Keyed := by
  induction es generalizing s with
  | nil => exact h
  | cons e es ih => exact ih (h.succ step_succeeds)

theorem Settled.run {id : ℤ} {x : U × Text × Text} {es : List (Event U)} (h : Settled id x s) :
    Settled id x (run letters doubles s es) := by
  induction es generalizing s with
  | nil => exact h
  | cons e es ih => exact ih (h.succ step_succeeds)

omit [DecidableEq U] in
theorem keyed_empty : (State.empty : State U).Keyed :=
  fun _ h ↦ absurd h not_mem_nil

omit [DecidableEq U] in
theorem identity_mem {r : Owned U DrawingDTO} (h : r ∈ s.rows) : identity r ∈ s.identities :=
  mem_append_left _ (mem_map_of_mem h)

theorem same_identity {es es' : List (Event U)} {r r' : Owned U DrawingDTO}
    (hr : r ∈ (Api.run letters doubles State.empty es).rows)
    (hr' : r' ∈ (Api.run letters doubles State.empty (es ++ es')).rows)
    (hid : r'.row.id = r.row.id) : identity r' = identity r := by
  have hkeyed : (Api.run letters doubles State.empty es).Keyed := keyed_empty.run
  have hsettled := hkeyed _ (identity_mem hr)
  rw [run_append] at hr'
  exact hsettled.run.2 _ (identity_mem hr') hid

end Identity

end TalaPala.Drawings.Api
