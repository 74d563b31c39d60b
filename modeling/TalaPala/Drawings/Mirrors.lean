import TalaPala.Drawings.Handlers

namespace TalaPala.Drawings.Api

open Library Owned List

variable {letters : Letters} {doubles : Doubles} {served : Text → Option Bool}
  {U : Type*} [DecidableEq U] {u : U} {s t : State U} {ρ : ℤ → ℤ} {request : ℕ} {now : ℤ}
  {body : Except String DrawingRequest}

section Others

structure Apart (u : U) (s s' : State U) : Prop where
  rows : own u s'.rows = own u s.rows
  counted : own u s'.counted = own u s.counted
  numbered : own u s'.numbered = own u s.numbered
  missed : own u s'.missed = own u s.missed

theorem Apart.rfl : Apart u s s := ⟨Eq.refl _, Eq.refl _, Eq.refl _, Eq.refl _⟩

theorem own_append_other {α : Type*} {v : U} (h : v ≠ u) (l : List (Owned U α)) (x : α) :
    own u (l ++ [⟨v, x⟩]) = own u l := by
  rw [own_append, own_cons_of_ne h, own_nil, append_nil]

theorem own_eraseP_other {α : Type*} {v : U} (h : v ≠ u) (l : List (Owned U α))
    (p : Owned U α → Bool) : own u (l.eraseP (fun x ↦ x.owner = v && p x)) = own u l := by
  refine own_eraseP_of_ne (fun x hx heq ↦ h ?_)
  rw [Bool.and_eq_true, decide_eq_true_eq] at hx
  exact hx.1.symm.trans heq

theorem updated_other {v : U} {id : ℤ} {row : DrawingRow} {r : Owned U DrawingDTO}
    (h : r.owner ≠ v) : updated v id now row r = none :=
  if_neg (fun hr ↦ h hr.2)

theorem createDrawing_apart {v : U} (h : v ≠ u) :
    Apart u s (createDrawing letters doubles served s v request now body).1 := by
  rw [createDrawing]
  split
  · exact .rfl
  · split
    · exact .rfl
    · split
      · exact { Apart.rfl with counted := own_append_other h _ _ }
      · exact .rfl

theorem numberInsert_apart {v : U} (h : v ≠ u) : Apart u s (numberInsert s v request) := by
  rw [numberInsert]
  split
  · exact .rfl
  · exact { Apart.rfl with
      counted := own_eraseP_other h _ _
      numbered := own_append_other h _ _ }

theorem commitInsert_apart {v : U} (h : v ≠ u) : Apart u s (commitInsert s v request).1 := by
  rw [commitInsert]
  split
  · exact .rfl
  · exact { Apart.rfl with
      rows := own_append_other h _ _
      numbered := own_eraseP_other h _ _ }

theorem updateDrawingHandler_apart {v : U} {id : Option ℤ} (h : v ≠ u) :
    Apart u s (updateDrawingHandler letters doubles served s v request id now body).1 := by
  cases id with
  | none => exact .rfl
  | some id =>
    rw [updateDrawingHandler]
    split
    · exact .rfl
    · split
      · exact .rfl
      · split
        · exact { Apart.rfl with missed := own_append_other h _ _ }
        · refine { Apart.rfl with rows := ?_ }
          refine (own_map _).trans ((map_congr_left (fun d _ ↦ ?_)).trans (map_id _))
          rw [updated_other (r := ⟨u, d⟩) h.symm]
          rfl

theorem updateDrawingNoRows_apart {v : U} (h : v ≠ u) :
    Apart u s (updateDrawingNoRows s v request).1 := by
  rw [updateDrawingNoRows]
  split
  · exact .rfl
  · exact { Apart.rfl with missed := own_eraseP_other h _ _ }

theorem deleteDrawing_apart {v : U} {id : Option ℤ} (h : v ≠ u) :
    Apart u s (deleteDrawing s v id).1 := by
  cases id with
  | none => exact .rfl
  | some id =>
    refine { Apart.rfl with rows := ?_ }
    rw [deleteDrawing, own_filter]
    exact filter_eq_self.mpr (fun d _ ↦ by simp [h.symm])

theorem failRequest_apart {v : U} (h : v ≠ u) : Apart u s (failRequest s v request) where
  rows := rfl
  counted := own_eraseP_other h _ _
  numbered := own_eraseP_other h _ _
  missed := own_eraseP_other h _ _

theorem step_apart {e : Event U} (h : e.user ≠ u) :
    Apart u s (step letters doubles s e).1 := by
  rw [step]
  cases e.action with
  | list symbol interval => exact .rfl
  | create request body => exact createDrawing_apart h
  | number request => exact numberInsert_apart h
  | commit request => exact commitInsert_apart h
  | update request id body => exact updateDrawingHandler_apart h
  | explain request => exact updateDrawingNoRows_apart h
  | delete id => exact deleteDrawing_apart h
  | fail request => exact failRequest_apart h

end Others

section Mine

def NumberedInsert.rename (ρ : ℤ → ℤ) (n : NumberedInsert) : NumberedInsert :=
  ⟨n.request, n.drawing.rename ρ⟩

def MissedUpdate.rename (ρ : ℤ → ℤ) (m : MissedUpdate) : MissedUpdate :=
  ⟨m.request, ρ m.id, m.row⟩

/-- What a user has in `t` is what it has in `s`, under other ids. -/
structure Mirrors (u : U) (ρ : ℤ → ℤ) (s t : State U) : Prop where
  rows : own u t.rows = (own u s.rows).map (DrawingDTO.rename ρ)
  counted : own u t.counted = own u s.counted
  numbered : own u t.numbered = (own u s.numbered).map (NumberedInsert.rename ρ)
  missed : own u t.missed = (own u s.missed).map (MissedUpdate.rename ρ)

def Agrees (u : U) (ρ : ℤ → ℤ) (x y : State U × Option Response) : Prop :=
  Mirrors u ρ x.1 y.1 ∧ y.2 = x.2.map (Response.rename ρ)

theorem owner_of_onChart {symbol interval : Text} (r : Owned U DrawingDTO)
    (h : onChart u symbol interval r) : r.owner = u := by
  rw [onChart, Bool.and_eq_true, Bool.and_eq_true, decide_eq_true_eq] at h
  exact h.1.1

theorem owner_of_and {α : Type*} {p : Owned U α → Bool} (x : Owned U α)
    (h : x.owner = u && p x) : x.owner = u := by
  rw [Bool.and_eq_true, decide_eq_true_eq] at h
  exact h.1

theorem owner_of_named {id : ℤ} (r : Owned U DrawingDTO) (h : r.row.id = id && r.owner = u) :
    r.owner = u := by
  rw [Bool.and_eq_true, decide_eq_true_eq, decide_eq_true_eq] at h
  exact h.2

theorem rename_of_refused {response : Response}
    (h : validateDrawing letters doubles served body = .error response) :
    response.rename ρ = response := by
  cases body with
  | error reason =>
    cases h
    rfl
  | ok req =>
    rw [validateDrawing] at h
    split at h
    · cases h
      rfl
    · split at h
      · cases h
      · cases h
        rfl

theorem Mirrors.countP_onChart (h : Mirrors u ρ s t) (symbol interval : Text) :
    t.rows.countP (onChart u symbol interval) = s.rows.countP (onChart u symbol interval) := by
  rw [countP_own owner_of_onChart, countP_own owner_of_onChart, h.rows, countP_map]
  rfl

theorem createDrawing_agrees (h : Mirrors u ρ s t) :
    Agrees u ρ (createDrawing letters doubles served s u request now body)
      (createDrawing letters doubles served t u request now body) := by
  rw [createDrawing, createDrawing]
  cases hrow : validateDrawing letters doubles served body with
  | error response => exact ⟨h, congrArg some (rename_of_refused hrow).symm⟩
  | ok row =>
    dsimp only
    rw [h.countP_onChart]
    split
    · exact ⟨h, rfl⟩
    · split
      · exact ⟨{ h with counted := by rw [own_append, own_append, h.counted] }, rfl⟩
      · exact ⟨h, rfl⟩

theorem insertDrawing_rename (row : DrawingRow) (id : ℤ) :
    insertDrawing (ρ id) row = (insertDrawing id row).map (fun d ↦ { d with id := ρ d.id }) := by
  rw [insertDrawing, insertDrawing]
  cases row.points.jsonb <;> cases row.style.jsonb <;> rfl

theorem updateDrawing_rename (row : DrawingRow) (d : StoredDrawing) :
    updateDrawing { d with id := ρ d.id } row =
      (updateDrawing d row).map (fun d ↦ { d with id := ρ d.id }) := by
  rw [updateDrawing, updateDrawing]
  cases row.points.jsonb with
  | none => rfl
  | some points =>
    cases row.style.jsonb with
    | none => rfl
    | some style =>
      simp only [Option.bind_eq_bind, Option.bind_some]
      split <;> rfl

theorem Mirrors.find_counted (h : Mirrors u ρ s t) (p : Owned U CountedInsert → Bool) :
    t.counted.find? (fun c ↦ c.owner = u && p c) =
      s.counted.find? (fun c ↦ c.owner = u && p c) := by
  rw [find?_own owner_of_and, find?_own owner_of_and, h.counted]

theorem Mirrors.numberedRow (h : Mirrors u ρ s t) (hid : t.nextId = ρ s.nextId) :
    numberedRow t u request = (numberedRow s u request).map (NumberedInsert.rename ρ) := by
  rw [Api.numberedRow, Api.numberedRow, h.find_counted, hid]
  cases s.counted.find? (fun c ↦ c.owner = u && decide (c.row.request = request)) with
  | none => rfl
  | some c =>
    simp only [Option.bind_some, insertDrawing_rename]
    cases insertDrawing s.nextId c.row.row <;> rfl

theorem Mirrors.numberedRow_eq_none (h : Mirrors u ρ s t) (hnone : Api.numberedRow s u request = none) :
    Api.numberedRow t u request = none := by
  rw [Api.numberedRow, h.find_counted]
  rw [Api.numberedRow] at hnone
  cases hfind : s.counted.find? (fun c ↦ c.owner = u && decide (c.row.request = request)) with
  | none => rfl
  | some c =>
    rw [hfind] at hnone
    have hrename := insertDrawing_rename (ρ := fun _ ↦ t.nextId) c.row.row s.nextId
    cases hdrawing : insertDrawing s.nextId c.row.row with
    | none =>
      rw [hdrawing] at hrename
      simp only [Option.bind_some, hrename]
      rfl
    | some d => simp [hdrawing] at hnone

theorem own_append_mine {α : Type*} (l : List (Owned U α)) (x : α) :
    own u (l ++ [⟨u, x⟩]) = own u l ++ [x] := by
  rw [own_append, own_cons_self, own_nil]

theorem own_eraseP_mine {α : Type*} (l : List (Owned U α)) (p : Owned U α → Bool) :
    own u (l.eraseP (fun x ↦ x.owner = u && p x)) =
      (own u l).eraseP (fun x ↦ p ⟨u, x⟩) := by
  rw [own_eraseP owner_of_and]
  simp

theorem numberInsert_mirrors (h : Mirrors u ρ s t)
    (hid : (numberInsert s u request).nextId ≠ s.nextId → t.nextId = ρ s.nextId) :
    Mirrors u ρ (numberInsert s u request) (numberInsert t u request) := by
  cases hrow : Api.numberedRow s u request with
  | none =>
    rw [numberInsert, numberInsert, hrow, h.numberedRow_eq_none hrow]
    exact h
  | some n =>
    have hnext : (numberInsert s u request).nextId ≠ s.nextId := by
      rw [numberInsert, hrow]
      exact (lt_add_one s.nextId).ne'
    rw [numberInsert, numberInsert, h.numberedRow (hid hnext), hrow]
    refine { h with counted := ?_, numbered := ?_ }
    · dsimp only [Option.map_some]
      rw [own_eraseP_mine, own_eraseP_mine, h.counted]
    · dsimp only [Option.map_some]
      rw [own_append_mine, own_append_mine, h.numbered, map_append, map_singleton]

theorem numberInsert_nextId (h : Mirrors u ρ s t)
    (hid : (numberInsert s u request).nextId ≠ s.nextId → t.nextId = ρ s.nextId) :
    (numberInsert t u request).nextId = t.nextId + ((numberInsert s u request).nextId - s.nextId) := by
  cases hrow : Api.numberedRow s u request with
  | none =>
    rw [numberInsert, numberInsert, hrow, h.numberedRow_eq_none hrow, sub_self, add_zero]
  | some n =>
    have hnext : (numberInsert s u request).nextId = s.nextId + 1 := by rw [numberInsert, hrow]
    have hdrawn : Api.numberedRow t u request =
        (Api.numberedRow s u request).map (NumberedInsert.rename ρ) :=
      h.numberedRow (hid (by rw [hnext]; exact (lt_add_one s.nextId).ne'))
    rw [hnext, add_sub_cancel_left, numberInsert, hdrawn, hrow]
    rfl

theorem commitInsert_agrees (h : Mirrors u ρ s t) :
    Agrees u ρ (commitInsert s u request) (commitInsert t u request) := by
  have hfind : t.numbered.find? (fun n ↦ n.owner = u && decide (n.row.request = request)) =
      (s.numbered.find? (fun n ↦ n.owner = u && decide (n.row.request = request))).map
        (fun n ↦ ⟨u, n.row.rename ρ⟩) := by
    rw [find?_own owner_of_and, find?_own owner_of_and, h.numbered, find?_map,
      Option.map_map, Option.map_map]
    rfl
  rw [commitInsert, commitInsert, hfind]
  cases s.numbered.find? (fun n ↦ n.owner = u && decide (n.row.request = request)) with
  | none => exact ⟨h, rfl⟩
  | some n =>
    refine ⟨{ h with rows := ?_, numbered := ?_ }, rfl⟩
    · dsimp only [Option.map_some]
      rw [own_append_mine, own_append_mine, h.rows, map_append, map_singleton]
      rfl
    · dsimp only [Option.map_some]
      rw [own_eraseP_mine, own_eraseP_mine, h.numbered, eraseP_map]
      rfl

theorem failRequest_mirrors (h : Mirrors u ρ s t) :
    Mirrors u ρ (failRequest s u request) (failRequest t u request) := by
  rw [failRequest, failRequest]
  refine { h with counted := ?_, numbered := ?_, missed := ?_ }
  · dsimp only
    rw [own_eraseP_mine, own_eraseP_mine, h.counted]
  · dsimp only
    rw [own_eraseP_mine, own_eraseP_mine, h.numbered, eraseP_map]
    rfl
  · dsimp only
    rw [own_eraseP_mine, own_eraseP_mine, h.missed, eraseP_map]
    rfl

theorem listDrawings_agrees {S : Set ℤ} (hmono : StrictMonoOn ρ S)
    (hids : ∀ d ∈ own u s.rows, d.id ∈ S) (h : Mirrors u ρ s t) (symbol interval : Text) :
    listDrawings letters served t u symbol interval =
      (listDrawings letters served s u symbol interval).rename ρ := by
  rw [listDrawings, listDrawings]
  dsimp only
  split
  · rfl
  · split
    · rw [map_row_filter_own owner_of_onChart, map_row_filter_own owner_of_onChart, h.rows,
        filter_map, ← map_mergeSort (f := DrawingDTO.rename ρ)
          (r := fun a b ↦ decide (a.id ≤ b.id))]
      · simp only [← map_take, length_map, Response.rename]
        rfl
      · intro a ha b hb
        have hle := hmono.le_iff_le (hids a (mem_of_mem_filter ha))
          (hids b (mem_of_mem_filter hb))
        exact decide_eq_decide.mpr hle.symm
    · rfl

variable (hρ : Function.Injective ρ)
include hρ

theorem updated_rename (id : ℤ) (row : DrawingRow) (d : DrawingDTO) :
    updated u (ρ id) now row ⟨u, d.rename ρ⟩ =
      (updated u id now row ⟨u, d⟩).map (DrawingDTO.rename ρ) := by
  rw [updated, updated]
  by_cases hid : d.id = id
  · have hid' : (d.rename ρ).id = ρ id := congrArg ρ hid
    rw [if_pos ⟨hid', rfl⟩, if_pos ⟨hid, rfl⟩]
    have hrename := updateDrawing_rename (ρ := ρ) row d.toStoredDrawing
    simp only [DrawingDTO.rename, hrename, Option.bind_eq_bind]
    cases updateDrawing d.toStoredDrawing row <;> rfl
  · have hid' : ¬(d.rename ρ).id = ρ id := fun heq ↦ hid (hρ heq)
    rw [if_neg (fun h ↦ hid' h.1), if_neg (fun h ↦ hid h.1)]
    rfl

theorem updateDrawingHandler_agrees (h : Mirrors u ρ s t) (id : Option ℤ) :
    Agrees u ρ (updateDrawingHandler letters doubles served s u request id now body)
      (updateDrawingHandler letters doubles served t u request (id.map ρ) now body) := by
  cases id with
  | none => exact ⟨h, rfl⟩
  | some id =>
    rw [Option.map_some, updateDrawingHandler, updateDrawingHandler]
    cases hrow : validateDrawing letters doubles served body with
    | error response => exact ⟨h, congrArg some (rename_of_refused hrow).symm⟩
    | ok row =>
      have hfind : t.rows.findSome? (updated u (ρ id) now row) =
          (s.rows.findSome? (updated u id now row)).map (DrawingDTO.rename ρ) := by
        rw [findSome?_own (fun _ ↦ updated_other), findSome?_own (fun _ ↦ updated_other), h.rows,
          findSome?_map, map_findSome?]
        congr 1
        funext d
        exact updated_rename hρ id row d
      dsimp only
      rw [hfind]
      split
      · exact ⟨h, rfl⟩
      · cases s.rows.findSome? (updated u id now row) with
        | none =>
          refine ⟨{ h with missed := ?_ }, rfl⟩
          dsimp only [Option.map_none]
          rw [own_append_mine, own_append_mine, h.missed, map_append, map_singleton]
          rfl
        | some d =>
          refine ⟨{ h with rows := ?_ }, rfl⟩
          dsimp only [Option.map_some]
          rw [own_map, own_map, h.rows, map_map, map_map]
          refine map_congr_left (fun d _ ↦ ?_)
          simp only [Function.comp_apply, updated_rename hρ, Option.getD_map]

theorem updateDrawingNoRows_agrees (h : Mirrors u ρ s t) :
    Agrees u ρ (updateDrawingNoRows s u request) (updateDrawingNoRows t u request) := by
  have hfind : t.missed.find? (fun m ↦ m.owner = u && decide (m.row.request = request)) =
      (s.missed.find? (fun m ↦ m.owner = u && decide (m.row.request = request))).map
        (fun m ↦ ⟨u, m.row.rename ρ⟩) := by
    rw [find?_own owner_of_and, find?_own owner_of_and, h.missed, find?_map,
      Option.map_map, Option.map_map]
    rfl
  rw [updateDrawingNoRows, updateDrawingNoRows, hfind]
  cases s.missed.find? (fun m ↦ m.owner = u && decide (m.row.request = request)) with
  | none => exact ⟨h, rfl⟩
  | some m =>
    have hrow : t.rows.find? (fun r ↦ decide (r.row.id = ρ m.row.id) && decide (r.owner = u)) =
        (s.rows.find? (fun r ↦ decide (r.row.id = m.row.id) && decide (r.owner = u))).map
          (fun r ↦ ⟨u, r.row.rename ρ⟩) := by
      rw [find?_own owner_of_named, find?_own owner_of_named, h.rows, find?_map,
        Option.map_map, Option.map_map]
      have hsame : ((fun d : DrawingDTO ↦ decide (d.id = ρ m.row.id) && decide (u = u)) ∘
          DrawingDTO.rename ρ) = fun d ↦ decide (d.id = m.row.id) && decide (u = u) := by
        funext d
        simp [DrawingDTO.rename, hρ.eq_iff]
      rw [hsame]
      rfl
    refine ⟨{ h with missed := ?_ }, ?_⟩
    · dsimp only [Option.map_some]
      rw [own_eraseP_mine, own_eraseP_mine, h.missed, eraseP_map]
      rfl
    · dsimp only [Option.map_some, MissedUpdate.rename]
      rw [hrow]
      cases s.rows.find? (fun r ↦ decide (r.row.id = m.row.id) && decide (r.owner = u)) with
      | none => rfl
      | some r =>
        dsimp only [Option.map_some]
        have hmismatch : drawingChartMismatch (r.row.rename ρ).toStoredDrawing m.row.row =
          drawingChartMismatch r.row.toStoredDrawing m.row.row := rfl
        rw [hmismatch]
        split <;> rfl

theorem deleteDrawing_agrees (h : Mirrors u ρ s t) (id : Option ℤ) :
    Mirrors u ρ (deleteDrawing s u id).1 (deleteDrawing t u (id.map ρ)).1 ∧
      (deleteDrawing t u (id.map ρ)).2 = (deleteDrawing s u id).2.rename ρ := by
  cases id with
  | none => exact ⟨h, rfl⟩
  | some id =>
    have hsame (d : DrawingDTO) : decide ((d.rename ρ).id = ρ id) = decide (d.id = id) := by
      simp [DrawingDTO.rename, hρ.eq_iff]
    rw [Option.map_some, deleteDrawing, deleteDrawing]
    refine ⟨{ h with rows := ?_ }, ?_⟩
    · dsimp only
      rw [own_filter, own_filter, h.rows, filter_map]
      congr 1
      refine filter_congr (fun d _ ↦ ?_)
      rw [Function.comp_apply, hsame]
    · dsimp only
      rw [countP_own owner_of_named, countP_own owner_of_named, h.rows, countP_map]
      simp only [Function.comp_def, hsame]
      split <;> rfl

theorem step_agrees {S : Set ℤ} {e : Event U} (hmono : StrictMonoOn ρ S)
    (hids : ∀ d ∈ own u s.rows, d.id ∈ S) (h : Mirrors u ρ s t) (he : e.user = u)
    (hid : (step letters doubles s e).1.nextId ≠ s.nextId → t.nextId = ρ s.nextId) :
    Agrees u ρ (step letters doubles s e) (step letters doubles t (e.rename ρ)) := by
  obtain ⟨user, now, served, action⟩ := e
  cases he
  cases action with
  | list symbol interval =>
    exact ⟨h, congrArg some (listDrawings_agrees hmono hids h symbol interval)⟩
  | create request body => exact createDrawing_agrees h
  | number request => exact ⟨numberInsert_mirrors h hid, rfl⟩
  | commit request => exact commitInsert_agrees h
  | update request id body => exact updateDrawingHandler_agrees hρ h id
  | explain request => exact updateDrawingNoRows_agrees hρ h
  | delete id =>
    obtain ⟨hstate, hresponse⟩ := deleteDrawing_agrees hρ h id
    exact ⟨hstate, congrArg some hresponse⟩
  | fail request => exact ⟨failRequest_mirrors h, rfl⟩

end Mine

end TalaPala.Drawings.Api
