import TalaPala.Drawings.Model
import TalaPala.Library.Checked
import TalaPala.Library.Floats
import TalaPala.Library.History
import TalaPala.Library.Strings

/-! The records of the page with all their fields and the doubles as they are,
where the editor's model leaves out what is not compared and counts exactly. -/

namespace TalaPala.Drawings.Stamped

open Library List

structure DrawingPoint where
  t : Float
  price : Float

structure Drawing where
  id : ℤ
  symbol : Text
  interval : Text
  type : DrawingType
  points : List DrawingPoint
  style : DrawingStyle
  locked : Bool
  visible : Bool
  createdAt : Text
  updatedAt : Text

abbrev DrawingHistory := History (List Drawing)

def emptyHistory (present : List Drawing) : DrawingHistory := .start present

def drawingsEqual (a b : Drawing) : Bool :=
  if a.id ≠ b.id ∨ a.type ≠ b.type then false
  else if a.locked ≠ b.locked ∨ a.visible ≠ b.visible then false
  else if a.points.length ≠ b.points.length then false
  else if (a.points.zip b.points).any (fun p ↦ p.1.t != p.2.t || p.1.price != p.2.price) then false
  else a.style = b.style

def sameDrawingSet (a b : List Drawing) : Bool :=
  if a.length ≠ b.length then false else (a.zip b).all (fun d ↦ drawingsEqual d.1 d.2)

def pushHistory (h : DrawingHistory) (next : List Drawing) : DrawingHistory :=
  if sameDrawingSet h.present next then h
  else
    let past := h.past ++ [h.present]
    { past := if past.length > historyLimit then past.drop (past.length - historyLimit) else past
      present := next, future := [] }

def undoHistory (h : DrawingHistory) : DrawingHistory := h.undo

def redoHistory (h : DrawingHistory) : DrawingHistory := h.redo

def Drawing.swap (old new : ℤ) (d : Drawing) : Drawing :=
  if d.id = old then { d with id := new } else d

def remapHistoryId (h : DrawingHistory) (old new : ℤ) : DrawingHistory :=
  h.map (List.map (Drawing.swap old new))

structure DrawingDiff where
  created : List Drawing
  updated : List Drawing
  deleted : List Drawing

def byId (l : List Drawing) (id : ℤ) : Option Drawing := lastOf (fun d ↦ d.id = id) l

def diffDrawings (old new : List Drawing) : DrawingDiff where
  created := new.filter (fun d ↦ (byId old d.id).isNone)
  updated := new.filter (fun d ↦ (byId old d.id).any (fun prev ↦ !drawingsEqual prev d))
  deleted := old.filter (fun d ↦ (byId new d.id).isNone)

def DrawingDiff.apply (diff : DrawingDiff) (l : List Drawing) : List Drawing :=
  ((l.filter (fun d ↦ d.id ∉ diff.deleted.map Drawing.id)).map
    (fun d ↦ (diff.updated.find? (fun d' ↦ d'.id = d.id)).getD d)) ++ diff.created

section Equality

def Drawing.Numeric (d : Drawing) : Prop :=
  ∀ p ∈ d.points, p.t.isNaN = false ∧ p.price.isNaN = false

def SamePoint (p q : DrawingPoint) : Prop := (p.t == q.t) = true ∧ (p.price == q.price) = true

variable {a b c : Drawing}

theorem drawingsEqual_iff : drawingsEqual a b = true ↔
    a.id = b.id ∧ a.type = b.type ∧ a.locked = b.locked ∧ a.visible = b.visible ∧
      a.style = b.style ∧ List.Forall₂ SamePoint a.points b.points := by
  have hpoints : (a.points.zip b.points).any
        (fun p ↦ p.1.t != p.2.t || p.1.price != p.2.price) = false ↔
      ∀ {p q}, (p, q) ∈ a.points.zip b.points → SamePoint p q := by
    rw [any_eq_false]
    constructor
    · intro h p q hmem
      have hpq := h (p, q) hmem
      rw [Bool.not_eq_true, Bool.or_eq_false_iff, bne, bne, Bool.not_eq_false',
        Bool.not_eq_false'] at hpq
      exact hpq
    · rintro h ⟨p, q⟩ hmem
      rw [Bool.not_eq_true, Bool.or_eq_false_iff, bne, bne, Bool.not_eq_false', Bool.not_eq_false']
      exact h hmem
  rw [drawingsEqual, List.forall₂_iff_zip, ← hpoints]
  constructor
  · intro h
    split_ifs at h with hid hflags hlength hany
    rw [not_or, not_not, not_not] at hid hflags
    exact ⟨hid.1, hid.2, hflags.1, hflags.2, of_decide_eq_true h, not_not.mp hlength,
      Bool.eq_false_iff.mpr hany⟩
  · rintro ⟨hid, htype, hlocked, hvisible, hstyle, hlength, hany⟩
    rw [if_neg (by simp [hid, htype]), if_neg (by simp [hlocked, hvisible]),
      if_neg (not_not.mpr hlength), if_neg (Bool.eq_false_iff.mp hany), decide_eq_true hstyle]

theorem drawingsEqual_self (h : a.Numeric) : drawingsEqual a a = true := by
  refine drawingsEqual_iff.mpr ⟨rfl, rfl, rfl, rfl, rfl, List.forall₂_same.mpr (fun p hp ↦ ?_)⟩
  exact ⟨float_beq_self (h p hp).1, float_beq_self (h p hp).2⟩

theorem drawingsEqual_symm (h : drawingsEqual a b = true) : drawingsEqual b a = true := by
  obtain ⟨hid, htype, hlocked, hvisible, hstyle, hpoints⟩ := drawingsEqual_iff.mp h
  refine drawingsEqual_iff.mpr
    ⟨hid.symm, htype.symm, hlocked.symm, hvisible.symm, hstyle.symm, ?_⟩
  exact hpoints.flip.imp (fun _ _ hsame ↦ ⟨float_beq_symm hsame.1, float_beq_symm hsame.2⟩)

theorem forall₂_samePoint_trans {l l' l'' : List DrawingPoint} (h : List.Forall₂ SamePoint l l')
    (h' : List.Forall₂ SamePoint l' l'') : List.Forall₂ SamePoint l l'' := by
  induction h generalizing l'' with
  | nil => exact h'
  | cons hhead _ ih =>
    cases h' with
    | cons hhead' hrest' =>
      exact .cons ⟨float_beq_trans hhead.1 hhead'.1, float_beq_trans hhead.2 hhead'.2⟩ (ih hrest')

theorem drawingsEqual_trans (h : drawingsEqual a b = true) (h' : drawingsEqual b c = true) :
    drawingsEqual a c = true := by
  obtain ⟨hid, htype, hlocked, hvisible, hstyle, hpoints⟩ := drawingsEqual_iff.mp h
  obtain ⟨hid', htype', hlocked', hvisible', hstyle', hpoints'⟩ := drawingsEqual_iff.mp h'
  exact drawingsEqual_iff.mpr ⟨hid.trans hid', htype.trans htype', hlocked.trans hlocked',
    hvisible.trans hvisible', hstyle.trans hstyle', forall₂_samePoint_trans hpoints hpoints'⟩

theorem sameDrawingSet_iff {l l' : List Drawing} : sameDrawingSet l l' = true ↔
    List.Forall₂ (fun d d' ↦ drawingsEqual d d' = true) l l' := by
  rw [sameDrawingSet, List.forall₂_iff_zip]
  by_cases hlength : l.length = l'.length
  · rw [if_neg (not_not.mpr hlength), all_eq_true]
    exact ⟨fun h ↦ ⟨hlength, fun hmem ↦ h _ hmem⟩, fun h d hmem ↦ h.2 hmem⟩
  · rw [if_pos hlength]
    exact iff_of_false Bool.false_ne_true (fun h ↦ hlength h.1)

end Equality

section Diffs

def Distinct (l : List Drawing) : Prop := (l.map Drawing.id).Nodup

variable {old new l : List Drawing} {d d' : Drawing}

theorem byId_eq_none {id : ℤ} : byId l id = none ↔ id ∉ l.map Drawing.id := by
  rw [byId, lastOf, getLast?_eq_none_iff, filter_eq_nil_iff]
  simp

theorem Distinct.eq (h : Distinct l) (hd : d ∈ l) (hd' : d' ∈ l) (hid : d.id = d'.id) : d = d' :=
  inj_on_of_nodup_map h hd hd' hid

theorem Distinct.byId_eq (h : Distinct l) (hd : d ∈ l) : byId l d.id = some d := by
  cases hfound : byId l d.id with
  | none => exact absurd (mem_map_of_mem hd) (byId_eq_none.mp hfound)
  | some d' =>
    obtain ⟨hd', hid⟩ := mem_of_lastOf hfound
    rw [h.eq hd' hd (of_decide_eq_true hid)]

theorem mem_created : d ∈ (diffDrawings old new).created ↔
    d ∈ new ∧ d.id ∉ old.map Drawing.id := by
  rw [diffDrawings, mem_filter, Option.isNone_iff_eq_none, byId_eq_none]

theorem mem_deleted : d ∈ (diffDrawings old new).deleted ↔
    d ∈ old ∧ d.id ∉ new.map Drawing.id := by
  rw [diffDrawings, mem_filter, Option.isNone_iff_eq_none, byId_eq_none]

theorem mem_updated (h : Distinct old) (hd : d ∈ old) (hid : d.id = d'.id) :
    d' ∈ (diffDrawings old new).updated ↔ d' ∈ new ∧ drawingsEqual d d' = false := by
  have hfound : byId old d'.id = some d := hid ▸ h.byId_eq hd
  rw [diffDrawings, mem_filter, hfound, Option.any_some, Bool.not_eq_true']

theorem drawingsEqual_iff_diff : drawingsEqual d d' = true ↔
    diffDrawings [d] [d'] = ⟨[], [], []⟩ := by
  by_cases hid : d.id = d'.id
  · have hold : byId [d] d'.id = some d := by simp [byId, lastOf, hid]
    have hnew : byId [d'] d.id = some d' := by simp [byId, lastOf, hid]
    simp [diffDrawings, hold, hnew]
  · have hold : byId [d] d'.id = none := by simp [byId, lastOf, hid]
    have hne : drawingsEqual d d' ≠ true := fun h ↦ hid (drawingsEqual_iff.mp h).1
    simp [diffDrawings, hold, hne]

theorem updated_getD (hold : Distinct old) (hnew : Distinct new) (hd : d ∈ old) (hd' : d' ∈ new)
    (hid : d'.id = d.id) :
    ((diffDrawings old new).updated.find? (fun u ↦ u.id = d.id)).getD d = d' ∨
      ((diffDrawings old new).updated.find? (fun u ↦ u.id = d.id)).getD d = d ∧
        drawingsEqual d d' = true := by
  have hupdated : ∀ u ∈ (diffDrawings old new).updated, u ∈ new := fun u hu ↦ (mem_filter.mp hu).1
  cases hfound : (diffDrawings old new).updated.find? (fun u ↦ u.id = d.id) with
  | some u =>
    have huid : u.id = d.id := by simpa using find?_some hfound
    exact .inl (hnew.eq (hupdated u (mem_of_find?_eq_some hfound)) hd' (huid.trans hid.symm))
  | none =>
    have hnot : d' ∉ (diffDrawings old new).updated := by
      intro hmem
      have hnone := find?_eq_none.mp hfound d' hmem
      exact hnone (decide_eq_true hid)
    rw [mem_updated hold hd hid.symm, not_and, Bool.not_eq_false] at hnot
    exact .inr ⟨rfl, hnot hd'⟩

theorem getD_id (d : Drawing) (l : List Drawing) :
    ((l.find? (fun u ↦ u.id = d.id)).getD d).id = d.id := by
  cases hfound : l.find? (fun u ↦ u.id = d.id) with
  | none => rfl
  | some u => simpa using find?_some hfound

theorem map_id_apply (diff : DrawingDiff) (l : List Drawing) :
    (diff.apply l).map Drawing.id =
      (l.filter (fun d ↦ d.id ∉ diff.deleted.map Drawing.id)).map Drawing.id ++
        diff.created.map Drawing.id := by
  rw [DrawingDiff.apply, map_append, map_map]
  congr 1
  exact map_congr_left (fun d _ ↦ getD_id d diff.updated)

theorem distinct_apply (hold : Distinct old) (hnew : Distinct new) :
    Distinct ((diffDrawings old new).apply old) := by
  rw [Distinct, map_id_apply]
  refine List.Nodup.append ?_ ?_ ?_
  · exact hold.sublist (filter_sublist.map _)
  · exact hnew.sublist (filter_sublist.map _)
  · rintro id hkept hcreated
    obtain ⟨d, hd, rfl⟩ := mem_map.mp hkept
    obtain ⟨d', hd', hid⟩ := mem_map.mp hcreated
    refine (mem_created.mp hd').2 (hid ▸ ?_)
    exact mem_map_of_mem (mem_filter.mp hd).1

theorem apply_diff (hold : Distinct old) (hnew : Distinct new) :
    ∃ l, l.Perm new ∧ List.Forall₂ (fun d d' ↦ d = d' ∨ drawingsEqual d d' = true)
      ((diffDrawings old new).apply old) l := by
  refine exists_perm_forall₂ (distinct_apply hold hnew) hnew (fun d' hd' ↦ ?_) (fun d hd ↦ ?_)
  · rw [map_id_apply, mem_append]
    by_cases hmem : d'.id ∈ old.map Drawing.id
    · obtain ⟨d, hd, hid⟩ := mem_map.mp hmem
      refine .inl (mem_map.mpr ⟨d, mem_filter.mpr ⟨hd, decide_eq_true ?_⟩, hid⟩)
      intro hdeleted
      obtain ⟨gone, hgone, hgoneId⟩ := mem_map.mp hdeleted
      refine (mem_deleted.mp hgone).2 ?_
      rw [hgoneId, hid]
      exact mem_map_of_mem hd'
    · exact .inr (mem_map_of_mem (mem_created.mpr ⟨hd', hmem⟩))
  · rcases mem_append.mp hd with hd | hd
    · obtain ⟨kept, hkept, rfl⟩ := mem_map.mp hd
      obtain ⟨hkept, hstays⟩ := mem_filter.mp hkept
      have hmem : kept.id ∈ new.map Drawing.id := by
        by_contra hmem
        exact of_decide_eq_true hstays (mem_map_of_mem (mem_deleted.mpr ⟨hkept, hmem⟩))
      obtain ⟨d', hd', hid⟩ := mem_map.mp hmem
      refine ⟨d', hd', hid.trans (getD_id kept _).symm, ?_⟩
      rcases updated_getD hold hnew hkept hd' hid with heq | ⟨heq, hequal⟩
      · exact .inl heq
      · exact .inr (heq.symm ▸ hequal)
    · exact ⟨d, (mem_created.mp hd).1, rfl, .inl rfl⟩

theorem nothing_of_nil {diff : DrawingDiff} (hcreated : diff.created = [])
    (hupdated : diff.updated = []) (hdeleted : diff.deleted = []) : diff = ⟨[], [], []⟩ := by
  obtain ⟨created, updated, deleted⟩ := diff
  rw [DrawingDiff.mk.injEq]
  exact ⟨hcreated, hupdated, hdeleted⟩

theorem diff_eq_nothing_iff (hold : Distinct old) (hnew : Distinct new) :
    diffDrawings old new = ⟨[], [], []⟩ ↔
      ∃ l, l.Perm new ∧ List.Forall₂ (fun d d' ↦ drawingsEqual d d' = true) old l := by
  constructor
  · intro hnothing
    have hcreated : (diffDrawings old new).created = [] := by rw [hnothing]
    have hupdated : (diffDrawings old new).updated = [] := by rw [hnothing]
    have hdeleted : (diffDrawings old new).deleted = [] := by rw [hnothing]
    refine exists_perm_forall₂ hold hnew (fun d' hd' ↦ ?_) (fun d hd ↦ ?_)
    · by_contra hmem
      exact eq_nil_iff_forall_not_mem.mp hcreated d' (mem_created.mpr ⟨hd', hmem⟩)
    · have hmem : d.id ∈ new.map Drawing.id := by
        by_contra hmem
        exact eq_nil_iff_forall_not_mem.mp hdeleted d (mem_deleted.mpr ⟨hd, hmem⟩)
      obtain ⟨d', hd', hid⟩ := mem_map.mp hmem
      refine ⟨d', hd', hid, ?_⟩
      by_contra hne
      exact eq_nil_iff_forall_not_mem.mp hupdated d'
        ((mem_updated hold hd hid.symm).mpr ⟨hd', Bool.eq_false_iff.mpr hne⟩)
  · rintro ⟨l, hperm, hequal⟩
    have hids : old.map Drawing.id = l.map Drawing.id :=
      (map_eq_of_forall₂ hequal (fun d d' h ↦ (drawingsEqual_iff.mp h).1.symm)).symm
    have hidsNew : ∀ id, id ∈ old.map Drawing.id ↔ id ∈ new.map Drawing.id := by
      intro id
      rw [hids]
      exact (hperm.map Drawing.id).mem_iff
    have hcreated : (diffDrawings old new).created = [] :=
      eq_nil_iff_forall_not_mem.mpr (fun d hd ↦
        (mem_created.mp hd).2 ((hidsNew _).mpr (mem_map_of_mem (mem_created.mp hd).1)))
    have hdeleted : (diffDrawings old new).deleted = [] :=
      eq_nil_iff_forall_not_mem.mpr (fun d hd ↦
        (mem_deleted.mp hd).2 ((hidsNew _).mp (mem_map_of_mem (mem_deleted.mp hd).1)))
    have hupdated : (diffDrawings old new).updated = [] := by
      refine eq_nil_iff_forall_not_mem.mpr (fun d' hd' ↦ ?_)
      have hmem := (mem_filter.mp hd').1
      obtain ⟨d, hd, hequal'⟩ := exists_of_mem_right hequal (hperm.mem_iff.mpr hmem)
      have hid := (drawingsEqual_iff.mp hequal').1
      rw [mem_updated hold hd hid, hequal'] at hd'
      exact Bool.false_ne_true hd'.2.symm
    exact nothing_of_nil hcreated hupdated hdeleted

end Diffs

section Histories

variable {h : DrawingHistory} {next : List Drawing} {old new : ℤ} {d d' : Drawing}

theorem pushHistory_eq : pushHistory h next = h.push sameDrawingSet historyLimit next := by
  rw [pushHistory, History.push]
  by_cases hsame : sameDrawingSet h.present next = true
  · rw [if_pos hsame, if_pos hsame]
  · rw [if_neg hsame, if_neg hsame]
    have hlength : (h.past ++ [h.present]).length = h.past.length + 1 := by simp
    by_cases hlong : h.past.length + 1 > historyLimit
    · simp only [hlength, if_pos hlong]
    · simp only [hlength, if_neg hlong, Nat.sub_eq_zero_of_le (not_lt.mp hlong), drop_zero]

theorem swap_of_ne (hd : d.id ≠ old) : d.swap old new = d := if_neg hd

theorem swap_of_eq (hd : d.id = old) : d.swap old new = { d with id := new } := if_pos hd

theorem drawingsEqual_swap (hd : d.id ≠ new) (hd' : d'.id ≠ new) :
    drawingsEqual (d.swap old new) (d'.swap old new) = drawingsEqual d d' := by
  have hfields : ∀ d : Drawing, (d.swap old new).type = d.type ∧
      (d.swap old new).locked = d.locked ∧ (d.swap old new).visible = d.visible ∧
      (d.swap old new).style = d.style ∧ (d.swap old new).points = d.points := by
    intro d
    rw [Drawing.swap]
    split_ifs <;> exact ⟨rfl, rfl, rfl, rfl, rfl⟩
  have hid : (d.swap old new).id = (d'.swap old new).id ↔ d.id = d'.id := by
    by_cases hold : d.id = old
    · by_cases hold' : d'.id = old
      · rw [swap_of_eq hold, swap_of_eq hold', hold, hold']
        exact iff_of_true rfl rfl
      · rw [swap_of_eq hold, swap_of_ne hold', hold]
        exact iff_of_false hd'.symm (Ne.symm hold')
    · by_cases hold' : d'.id = old
      · rw [swap_of_ne hold, swap_of_eq hold', hold']
        exact iff_of_false hd hold
      · rw [swap_of_ne hold, swap_of_ne hold']
  obtain ⟨htype, hlocked, hvisible, hstyle, hpoints⟩ := hfields d
  obtain ⟨htype', hlocked', hvisible', hstyle', hpoints'⟩ := hfields d'
  rw [Bool.eq_iff_iff, drawingsEqual_iff, drawingsEqual_iff, hid, htype, htype', hlocked, hlocked',
    hvisible, hvisible', hstyle, hstyle', hpoints, hpoints']

theorem sameDrawingSet_swap {l l' : List Drawing} (hl : ∀ d ∈ l, d.id ≠ new)
    (hl' : ∀ d ∈ l', d.id ≠ new) :
    sameDrawingSet (l.map (Drawing.swap old new)) (l'.map (Drawing.swap old new)) =
      sameDrawingSet l l' := by
  rw [Bool.eq_iff_iff, sameDrawingSet_iff, sameDrawingSet_iff, List.forall₂_map_left_iff,
    List.forall₂_map_right_iff, List.forall₂_iff_zip, List.forall₂_iff_zip]
  refine and_congr_right (fun _ ↦ ?_)
  constructor
  · intro h d d' hmem
    obtain ⟨hd, hd'⟩ := of_mem_zip hmem
    exact drawingsEqual_swap (hl d hd) (hl' d' hd') ▸ h hmem
  · intro h d d' hmem
    obtain ⟨hd, hd'⟩ := of_mem_zip hmem
    exact (drawingsEqual_swap (hl d hd) (hl' d' hd')).symm ▸ h hmem

theorem remap_push (hpresent : ∀ d ∈ h.present, d.id ≠ new) (hnext : ∀ d ∈ next, d.id ≠ new) :
    remapHistoryId (pushHistory h next) old new =
      pushHistory (remapHistoryId h old new) (next.map (Drawing.swap old new)) := by
  rw [pushHistory_eq, pushHistory_eq]
  exact History.map_push (sameDrawingSet_swap hpresent hnext)

def Remapped (old new : ℤ) (d d' : Drawing) : Prop :=
  (d.id ≠ old → d' = d) ∧ (d.id = old → d' = { d with id := new })

theorem forall₂_remapped (old new : ℤ) (l : List Drawing) :
    List.Forall₂ (Remapped old new) l (l.map (Drawing.swap old new)) := by
  rw [List.forall₂_map_right_iff, List.forall₂_same]
  exact fun d _ ↦ ⟨swap_of_ne, swap_of_eq⟩

theorem forall₂_remapped_sets (old new : ℤ) (sets : List (List Drawing)) :
    List.Forall₂ (List.Forall₂ (Remapped old new)) sets
      (sets.map (List.map (Drawing.swap old new))) := by
  rw [List.forall₂_map_right_iff, List.forall₂_same]
  exact fun l _ ↦ forall₂_remapped old new l

inductive HistoryEdit
  | push (next : List Drawing)
  | undo
  | redo
  | remap (old new : ℤ)
  /-- A create that failed is forgotten in every state. -/
  | forget (id : ℤ)
  /-- A write that failed is put right in the present alone. -/
  | setPresent (present : List Drawing)

def edit (h : DrawingHistory) : HistoryEdit → DrawingHistory
  | .push next => pushHistory h next
  | .undo => undoHistory h
  | .redo => redoHistory h
  | .remap old new => remapHistoryId h old new
  | .forget id => h.map (List.filter (fun d ↦ d.id ≠ id))
  | .setPresent present => { h with present := present }

theorem depth_edit (hdepth : h.depth ≤ historyLimit) (e : HistoryEdit) :
    (edit h e).depth ≤ historyLimit := by
  cases e with
  | push next =>
    rw [edit, pushHistory_eq]
    exact History.depth_push hdepth
  | undo => exact History.depth_undo.trans_le hdepth
  | redo => exact History.depth_redo.trans_le hdepth
  | remap old new => exact (History.depth_map _).trans_le hdepth
  | forget id => exact (History.depth_map _).trans_le hdepth
  | setPresent present => exact hdepth

theorem depth_edits (hdepth : h.depth ≤ historyLimit) (edits : List HistoryEdit) :
    (edits.foldl edit h).depth ≤ historyLimit := by
  induction edits generalizing h with
  | nil => exact hdepth
  | cons e rest ih => exact ih (depth_edit hdepth e)

end Histories

/-- The laws of history and diff, for pushes that record something, drawings
with ids of their own and ids that are new to what is remembered. -/
theorem history_and_diff_laws :
    (∀ h next, sameDrawingSet h.present next = false →
      (undoHistory (pushHistory h next)).present = h.present ∧
        redoHistory (undoHistory (pushHistory h next)) = pushHistory h next ∧
        (pushHistory h next).present = next ∧ (pushHistory h next).future = []) ∧
    (∀ h next, sameDrawingSet h.present next = true → pushHistory h next = h) ∧
    (∀ present (edits : List HistoryEdit),
      (edits.foldl edit (emptyHistory present)).past.length ≤ historyLimit) ∧
    ((∀ a, Drawing.Numeric a → drawingsEqual a a = true) ∧
      (∀ a b, drawingsEqual a b = true → drawingsEqual b a = true) ∧
      ∀ a b c, drawingsEqual a b = true → drawingsEqual b c = true → drawingsEqual a c = true) ∧
    (∀ a b, drawingsEqual a b = true ↔ diffDrawings [a] [b] = ⟨[], [], []⟩) ∧
    (∀ old new, Distinct old → Distinct new →
      (diffDrawings old new = ⟨[], [], []⟩ ↔
        ∃ l, l.Perm new ∧ List.Forall₂ (fun d d' ↦ drawingsEqual d d' = true) old l) ∧
      ∃ l, l.Perm new ∧ List.Forall₂ (fun d d' ↦ d = d' ∨ drawingsEqual d d' = true)
        ((diffDrawings old new).apply old) l) ∧
    (∀ h old new, remapHistoryId (undoHistory h) old new = undoHistory (remapHistoryId h old new) ∧
        remapHistoryId (redoHistory h) old new = redoHistory (remapHistoryId h old new) ∧
        ∀ next, (∀ d ∈ h.present, d.id ≠ new) → (∀ d ∈ next, d.id ≠ new) →
          remapHistoryId (pushHistory h next) old new =
            pushHistory (remapHistoryId h old new) (next.map (Drawing.swap old new))) ∧
    ∀ h old new,
      List.Forall₂ (List.Forall₂ (Remapped old new)) h.past (remapHistoryId h old new).past ∧
        List.Forall₂ (Remapped old new) h.present (remapHistoryId h old new).present ∧
        List.Forall₂ (List.Forall₂ (Remapped old new)) h.future
          (remapHistoryId h old new).future := by
  have hlimit : 0 < historyLimit := by decide
  refine ⟨fun h next hnew ↦ ?_, fun h next hsame ↦ if_pos hsame, fun present edits ↦ ?_,
    ⟨fun a ↦ drawingsEqual_self, fun a b ↦ drawingsEqual_symm, fun a b c ↦ drawingsEqual_trans⟩,
    fun a b ↦ drawingsEqual_iff_diff, fun old new hold hnew ↦ ?_, fun h old new ↦ ?_,
    fun h old new ↦ ?_⟩
  · rw [pushHistory_eq]
    refine ⟨?_, History.redo_undo_push hlimit hnew, ?_, ?_⟩
    · rw [undoHistory, History.undo_push hlimit hnew]
    · rw [History.push_of_new hlimit hnew]
    · rw [History.push_of_new hlimit hnew]
  · have hstart : (emptyHistory present).depth ≤ historyLimit := Nat.zero_le _
    exact History.length_past_le_depth.trans (depth_edits hstart edits)
  · exact ⟨diff_eq_nothing_iff hold hnew, apply_diff hold hnew⟩
  · exact ⟨History.map_undo, History.map_redo, fun next ↦ remap_push⟩
  · exact ⟨forall₂_remapped_sets old new h.past, forall₂_remapped old new h.present,
      forall₂_remapped_sets old new h.future⟩

def lineAt (id : ℤ) (price : Float) : Drawing where
  id := id
  symbol := []
  interval := []
  type := .horizontalLine
  points := [⟨0, price⟩]
  style := "\x7b\x7d"
  locked := false
  visible := true
  createdAt := []
  updatedAt := []

def pushedOnce : DrawingHistory := pushHistory (emptyHistory []) [lineAt 1 0]

/-- A push of what is shown already records nothing, so that undo goes back
further; and what the other laws need is needed. -/
theorem laws_fail :
    (undoHistory (pushHistory pushedOnce pushedOnce.present)).present ≠ pushedOnce.present ∧
    drawingsEqual (lineAt 1 (0 / 0)) (lineAt 1 (0 / 0)) = false ∧
    (¬ ∃ l, l.Perm [lineAt 1 1, lineAt 1 2] ∧
      List.Forall₂ (fun d d' ↦ d = d' ∨ drawingsEqual d d' = true)
        ((diffDrawings [lineAt 1 0] [lineAt 1 1, lineAt 1 2]).apply [lineAt 1 0]) l) ∧
    (remapHistoryId (pushHistory (emptyHistory [lineAt 5 0]) [lineAt (-1) 0]) (-1) 5 ≠
      pushHistory (remapHistoryId (emptyHistory [lineAt 5 0]) (-1) 5)
        ([lineAt (-1) 0].map (Drawing.swap (-1) 5))) := by
  refine ⟨fun heq ↦ ?_, by decide +kernel, ?_, fun heq ↦ ?_⟩
  · exact absurd (congrArg List.length heq) (by decide +kernel)
  · rintro ⟨l, hperm, hforall⟩
    have hlength := hforall.length_eq.trans hperm.length_eq
    exact absurd hlength (by decide +kernel)
  · exact absurd (congrArg (fun h ↦ h.past.length) heq) (by decide +kernel)

end TalaPala.Drawings.Stamped
