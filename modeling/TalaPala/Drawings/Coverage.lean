import TalaPala.Drawings.Editor

namespace TalaPala.Drawings

open Library List

section Outlook

def Request.write : Request → Option (Write ℤ DrawingRequestBody)
  | .post _ _ _ => none
  | .put id body => some (.put id body)
  | .delete _ id => some (.drop id)

def Request.posting : Request → Option ℤ
  | .post _ localId _ => some localId
  | _ => none

def Response.posting : Response → Option ℤ
  | .posted _ localId _ => some localId
  | _ => none

def Response.created : Response → Option ChartDrawing
  | .posted _ _ row => some row
  | _ => none

namespace System

variable (s : System)

def writes : List (Write ℤ DrawingRequestBody) := s.requests.filterMap Request.write

def outlook : ℤ → Option DrawingRequestBody := Write.settled s.writes s.rows

def awaited : List ℤ :=
  s.requests.filterMap Request.posting ++ s.responses.filterMap Response.posting

def untold : List ChartDrawing := s.responses.filterMap Response.created

def Named (id : ℤ) : Prop := ∃ l ∈ s.history.sets, ∃ d ∈ l, d.id = id

end System

def Kept (rows : ℤ → Option DrawingRequestBody) (pending : Finset ℤ) (d : Drawing) : Prop :=
  ∃ body, rows d.id = some body ∧ (body = toRequestBody d ∨ d.id ∈ pending)

structure Covered (s : System) : Prop where
  nodup : ∀ l ∈ s.history.sets, (l.map Drawing.id).Nodup
  known : ∀ id, s.Named id → s.localSeq ≤ id ∧ id < s.nextRow ∧ id ∉ s.untold.map ChartDrawing.id
  seq : s.localSeq ≤ 0
  positive : 0 < s.nextRow
  writes : ∀ w ∈ s.writes, w.key < s.nextRow
  distinct : (s.untold.map ChartDrawing.id).Nodup
  readable : ∀ row ∈ s.untold, row.body.readable = true
  untold : ∀ row ∈ s.untold, 0 < row.id ∧ row.id < s.nextRow ∧ s.outlook row.id = some row.body
  serial : ∀ id, s.outlook id ≠ none → 0 < id
  awaited : ∀ id ∈ s.awaited, id < s.nextRow ∧ s.outlook id = none
  kept : ∀ d ∈ s.history.present, Kept s.outlook s.pending d ∨ d.id ∈ s.awaited
  held : ∀ id, s.outlook id ≠ none →
    id ∈ s.history.present.map Drawing.id ∨ id ∈ s.untold.map ChartDrawing.id

theorem named_of_present {s : System} {d : Drawing} (h : d ∈ s.history.present) : s.Named d.id :=
  ⟨_, present_mem_sets _, d, h, rfl⟩

theorem Covered.held_of_quiescent {s : System} (h : Covered s) (hq : Quiescent s) : Held s := by
  obtain ⟨hrequests, hresponses, hpending⟩ := hq
  have houtlook : s.outlook = s.rows := by
    rw [System.outlook, System.writes, hrequests]
    rfl
  have hnodup := h.nodup _ (present_mem_sets _)
  have hrow : ∀ d ∈ s.history.present, s.rows d.id = some (toRequestBody d) := by
    intro d hd
    rcases h.kept d hd with ⟨body, hbody, hsame⟩ | hawaited
    · rw [hpending] at hsame
      rw [← houtlook, hbody, hsame.resolve_right (Finset.notMem_empty _)]
    · rw [System.awaited, hrequests, hresponses] at hawaited
      exact absurd hawaited not_mem_nil
  refine ⟨hnodup, fun id body ↦ ⟨fun hbody ↦ ?_, ?_⟩⟩
  · have hheld := h.held id (by rw [houtlook, hbody]; simp)
    rw [System.untold, hresponses] at hheld
    obtain ⟨d, hd, rfl⟩ := mem_map.mp (hheld.resolve_right not_mem_nil)
    exact ⟨d, hd, rfl, Option.some.inj ((hrow d hd).symm.trans hbody)⟩
  · rintro ⟨d, hd, rfl, rfl⟩
    exact hrow d hd

end Outlook

section Edits

theorem outlook_append (s : System) (more : List Request) :
    { s with requests := s.requests ++ more }.outlook =
      Write.settled (more.filterMap Request.write) s.outlook := by
  rw [System.outlook, System.writes, filterMap_append, Write.settled_append]
  rfl

theorem Covered.edit {s : System} (h : Covered s) (history : DrawingHistory) (pending : Finset ℤ)
    (localSeq : ℤ) (more : List Request) (hseq : localSeq ≤ s.localSeq)
    (hsets : ∀ l ∈ history.sets, l = history.present ∨ l ∈ s.history.sets)
    (hnodup : (history.present.map Drawing.id).Nodup)
    (hknown : ∀ d ∈ history.present, s.Named d.id ∨ localSeq ≤ d.id ∧ d.id < s.localSeq)
    (hkeys : ∀ w ∈ more.filterMap Request.write, s.Named w.key)
    (hposting : ∀ id ∈ more.filterMap Request.posting, s.Named id ∧
      id ∉ s.history.present.map Drawing.id ∨ id < s.localSeq)
    (hkept : ∀ d ∈ history.present,
      Kept (Write.settled (more.filterMap Request.write) s.outlook) pending d ∨
        d.id ∈ s.awaited ∨ d.id ∈ more.filterMap Request.posting)
    (hgone : ∀ d ∈ s.history.present, d.id ∉ history.present.map Drawing.id →
      Write.settled (more.filterMap Request.write) s.outlook d.id = none) :
    Covered { s with
      history := history, pending := pending, localSeq := localSeq
      requests := s.requests ++ more } := by
  have hnone : ∀ id, s.outlook id = none →
      Write.settled (more.filterMap Request.write) s.outlook id = none :=
    fun _ ↦ Write.settled_none
  have houtlook := outlook_append s more
  have hfresh : ∀ id, id < s.localSeq → id < s.nextRow ∧ id ∉ s.untold.map ChartDrawing.id ∧
      s.outlook id = none := by
    intro id hid
    have hseq0 := h.seq
    have hpos := h.positive
    refine ⟨by omega, fun hmem ↦ ?_, ?_⟩
    · obtain ⟨row, hrow, rfl⟩ := mem_map.mp hmem
      have := (h.untold row hrow).1
      omega
    · by_contra hne
      have := h.serial id hne
      omega
  have hawaited : ∀ id, id ∈ { s with requests := s.requests ++ more }.awaited →
      id ∈ s.awaited ∨ id ∈ more.filterMap Request.posting := by
    intro id hid
    rw [System.awaited, filterMap_append] at hid
    simp only [System.awaited, mem_append] at hid ⊢
    tauto
  have hknown' : ∀ id, s.Named id → localSeq ≤ id ∧ id < s.nextRow ∧
      id ∉ s.untold.map ChartDrawing.id :=
    fun id hid ↦ ⟨hseq.trans (h.known id hid).1, (h.known id hid).2⟩
  have hkeep : ∀ id, id ∈ s.untold.map ChartDrawing.id →
      Write.settled (more.filterMap Request.write) s.outlook id = s.outlook id := by
    intro id hid
    exact Write.settled_of_ne (fun w hw heq ↦ (h.known _ (hkeys w hw)).2.2 (heq ▸ hid))
  refine ⟨fun l hl ↦ ?_, fun id hid ↦ ?_, hseq.trans h.seq, h.positive, fun w hw ↦ ?_, h.distinct,
    h.readable, fun row hrow ↦ ?_, fun id hid ↦ ?_, fun id hid ↦ ?_, fun d hd ↦ ?_, fun id hid ↦ ?_⟩
  · rcases hsets l hl with rfl | hl
    · exact hnodup
    · exact h.nodup l hl
  · obtain ⟨l, hl, d, hd, rfl⟩ := hid
    rcases hsets l hl with rfl | hl
    · rcases hknown d hd with hnamed | ⟨hlow, hhigh⟩
      · exact hknown' d.id hnamed
      · obtain ⟨hrow, huntold, -⟩ := hfresh d.id hhigh
        exact ⟨hlow, hrow, huntold⟩
    · exact hknown' d.id ⟨l, hl, d, hd, rfl⟩
  · rw [System.writes, filterMap_append] at hw
    rcases mem_append.mp hw with hw | hw
    · exact h.writes w hw
    · exact (h.known _ (hkeys w hw)).2.1
  · obtain ⟨hlow, hhigh, hbody⟩ := h.untold row hrow
    refine ⟨hlow, hhigh, ?_⟩
    exact (congrFun houtlook row.id).trans ((hkeep _ (mem_map_of_mem hrow)).trans hbody)
  · exact h.serial id (fun hnil ↦ hid ((congrFun houtlook id).trans (hnone id hnil)))
  · have hold : id < s.nextRow ∧ s.outlook id = none := by
      rcases hawaited id hid with hid | hid
      · exact h.awaited id hid
      · rcases hposting id hid with ⟨hnamed, hnew⟩ | hlow
        · obtain ⟨-, hhigh, huntold⟩ := h.known id hnamed
          refine ⟨hhigh, by_contra (fun hne ↦ ?_)⟩
          exact (h.held id hne).elim hnew huntold
        · exact ⟨(hfresh id hlow).1, (hfresh id hlow).2.2⟩
    exact ⟨hold.1, (congrFun houtlook id).trans (hnone id hold.2)⟩
  · rcases hkept d hd with hkept | hawait | hpost
    · obtain ⟨body, hbody, hsame⟩ := hkept
      exact .inl ⟨body, (congrFun houtlook d.id).trans hbody, hsame⟩
    · right
      simp only [System.awaited, filterMap_append, mem_append] at hawait ⊢
      tauto
    · right
      simp only [System.awaited, filterMap_append, mem_append]
      tauto
  · have hold := fun hnil ↦ hid ((congrFun houtlook id).trans (hnone id hnil))
    refine (h.held id hold).imp_left (fun hpresent ↦ ?_)
    obtain ⟨d, hd, rfl⟩ := mem_map.mp hpresent
    by_contra hnew
    exact hid ((congrFun houtlook d.id).trans (hgone d hd hnew))

theorem Covered.redraw {s : System} (h : Covered s) {f : Drawing → Drawing} {pending : Finset ℤ}
    (hid : ∀ d, (f d).id = d.id) (hpending : s.pending ⊆ pending)
    (hchanged : ∀ d ∈ s.history.present, f d ≠ d → 0 < d.id → d.id ∈ pending) :
    Covered { s with
      history := pushHistory s.history (s.history.present.map f), pending := pending } := by
  have hids : (s.history.present.map f).map Drawing.id = s.history.present.map Drawing.id := by
    rw [map_map]
    exact map_congr_left (fun d _ ↦ hid d)
  have hedit := h.edit (pushHistory s.history (s.history.present.map f)) pending s.localSeq [] le_rfl
    (fun l hl ↦ ?_) ?_ (fun d hd ↦ ?_) (fun w hw ↦ absurd hw not_mem_nil)
    (fun id hi ↦ absurd hi not_mem_nil) (fun d hd ↦ ?_) (fun d hd hnew ↦ ?_)
  · rwa [append_nil] at hedit
  · rw [pushHistory_present]
    exact mem_sets_push hl
  · rw [pushHistory_present, hids]
    exact h.nodup _ (present_mem_sets _)
  · rw [pushHistory_present] at hd
    obtain ⟨d₀, hd₀, rfl⟩ := mem_map.mp hd
    exact .inl (hid d₀ ▸ named_of_present hd₀)
  · rw [pushHistory_present] at hd
    obtain ⟨d₀, hd₀, rfl⟩ := mem_map.mp hd
    rcases h.kept d₀ hd₀ with ⟨body, hbody, hsame⟩ | hawait
    · refine .inl ⟨body, by rw [hid]; exact hbody, ?_⟩
      rw [hid]
      by_cases hf : f d₀ = d₀
      · rw [hf]
        exact hsame.imp_right (fun hp ↦ hpending hp)
      · exact .inr (hchanged d₀ hd₀ hf (h.serial _ (by rw [hbody]; simp)))
    · exact .inr (.inl (hid d₀ ▸ hawait))
  · rw [pushHistory_present, hids] at hnew
    exact absurd (mem_map_of_mem hd) hnew

theorem found_spec {s : System} {id : ℤ} {d : Drawing} (h : s.found id = some d) :
    d ∈ s.history.present ∧ d.id = id :=
  ⟨mem_of_find?_eq_some h, by simpa using find?_some h⟩

theorem found_none {s : System} {id : ℤ} (h : s.found id = none) :
    id ∉ s.history.present.map Drawing.id := by
  rw [System.found, find?_eq_none] at h
  intro hmem
  obtain ⟨d, hd, rfl⟩ := mem_map.mp hmem
  exact h d hd (by simp)

theorem Covered.found {s : System} (h : Covered s) {d : Drawing} (hd : d ∈ s.history.present) :
    s.found d.id = some d := by
  cases hfound : s.found d.id with
  | none => exact absurd (mem_map_of_mem hd) (found_none hfound)
  | some d' =>
    obtain ⟨hd', hid⟩ := found_spec hfound
    rw [inj_on_of_nodup_map (h.nodup _ (present_mem_sets _)) hd' hd hid]

theorem Covered.create {s : System} (h : Covered s) (draft : DrawingDraft) :
    Covered (s.create draft) := by
  rw [System.create]
  split
  · have hlow : ∀ id ∈ s.history.present.map Drawing.id, (s.optimistic draft).id < id := by
      intro id hid
      obtain ⟨d, hd, rfl⟩ := mem_map.mp hid
      have hknown := (h.known d.id (named_of_present hd)).1
      have hopt : (s.optimistic draft).id = s.localSeq - 1 := rfl
      omega
    have hid : (s.optimistic draft).id < s.localSeq := Int.sub_one_lt_of_le le_rfl
    refine h.edit _ s.pending (s.optimistic draft).id _ hid.le (fun l hl ↦ ?_) ?_ (fun d hd ↦ ?_)
      (fun w hw ↦ absurd hw not_mem_nil) (fun id hpost ↦ ?_) (fun d hd ↦ ?_)
      (fun d hd hnew ↦ ?_)
    · rw [pushHistory_present]
      exact mem_sets_push hl
    · rw [pushHistory_present, map_append, map_singleton]
      exact nodup_append.mpr ⟨h.nodup _ (present_mem_sets _), nodup_singleton _,
        fun a ha b hb ↦ mem_singleton.mp hb ▸ (hlow a ha).ne'⟩
    · rw [pushHistory_present] at hd
      rcases mem_append.mp hd with hd | hd
      · exact .inl (named_of_present hd)
      · rw [mem_singleton.mp hd]
        exact .inr ⟨le_rfl, hid⟩
    · exact .inr (mem_singleton.mp hpost ▸ hid)
    · rw [pushHistory_present] at hd
      rcases mem_append.mp hd with hd | hd
      · exact (h.kept d hd).imp_right .inl
      · rw [mem_singleton.mp hd]
        exact .inr (.inr mem_cons_self)
    · rw [pushHistory_present, map_append] at hnew
      exact absurd (mem_append_left _ (mem_map_of_mem hd)) hnew
  · exact h

theorem Covered.duplicate {s : System} (h : Covered s) (id : ℤ) : Covered (s.duplicate id) := by
  rw [System.duplicate]
  split
  · exact h
  · exact h.create _

theorem Covered.replace {s : System} (h : Covered s) (next : Drawing) :
    Covered (s.replace next) := by
  let f : Drawing → Drawing := fun d ↦ if d.id = next.id then next else d
  have hid : ∀ d, (f d).id = d.id := by
    intro d
    simp only [f]
    split
    · rename_i heq
      exact heq.symm
    · rfl
  have hpush : (if s.history.present.any (fun d ↦ d.id = next.id) then
      pushHistory s.history (s.history.present.map f) else s.history) =
        pushHistory s.history (s.history.present.map f) := by
    split
    · rfl
    · rename_i hnone
      have hsame : s.history.present.map f = s.history.present := by
        refine (map_congr_left (fun d hd ↦ if_neg (fun heq ↦ hnone ?_))).trans (map_id _)
        exact any_eq_true.mpr ⟨d, hd, decide_eq_true heq⟩
      rw [pushHistory, if_pos (sameDrawingSet_iff.mpr hsame.symm)]
  have hchanged : ∀ d, f d ≠ d → d.id = next.id := fun d hd ↦
    by_contra (fun hne ↦ hd (if_neg hne))
  rw [System.replace]
  simp only [hpush, f]
  split
  · exact h.redraw hid (Finset.subset_insert _ _)
      (fun d _ hd _ ↦ hchanged d hd ▸ Finset.mem_insert_self _ _)
  · rename_i hlocal
    refine h.redraw hid (Finset.Subset.refl _) (fun d _ hd hpos ↦ absurd ?_ hlocal)
    exact decide_eq_true (hchanged d hd ▸ hpos)

theorem Covered.showAll {s : System} (h : Covered s) : Covered s.showAll := by
  rw [System.showAll]
  split
  · exact h
  · refine h.redraw (fun d ↦ ?_) Finset.subset_union_left (fun d hd hchanged hpos ↦ ?_)
    · split <;> rfl
    · refine Finset.mem_union_right _ (mem_toFinset.mpr (mem_filter.mpr ⟨?_, ?_⟩))
      · refine mem_map_of_mem (mem_filter.mpr ⟨hd, ?_⟩)
        by_contra hvisible
        exact hchanged (if_pos (by simpa using hvisible))
      · exact decide_eq_true hpos

theorem Covered.remove {s : System} (h : Covered s) (id : ℤ) : Covered (s.remove id) := by
  rw [System.remove]
  cases hfound : s.found id with
  | none => exact h
  | some victim =>
    obtain ⟨hvictim, rfl⟩ := found_spec hfound
    let rest := s.history.present.filter (fun d ↦ d.id ≠ victim.id)
    have hrest : ∀ d ∈ rest, d ∈ s.history.present ∧ d.id ≠ victim.id := fun d hd ↦
      ⟨mem_of_mem_filter hd, of_decide_eq_true (mem_filter.mp hd).2⟩
    have hedit := h.edit (pushHistory s.history rest) (s.pending.erase victim.id) s.localSeq
    rw [pushHistory_present] at hedit
    have hdrop := fun more ↦ hedit more le_rfl (fun l hl ↦ mem_sets_push hl)
      ((h.nodup _ (present_mem_sets _)).sublist (filter_sublist.map _))
      (fun d hd ↦ .inl (named_of_present (hrest d hd).1))
    have hgone : ∀ d ∈ s.history.present, d.id ∉ rest.map Drawing.id → d.id = victim.id :=
      fun d hd hnew ↦ by_contra (fun hne ↦
        hnew (mem_map_of_mem (mem_filter.mpr ⟨hd, decide_eq_true hne⟩)))
    have hkept : ∀ d ∈ rest, Kept s.outlook (s.pending.erase victim.id) d ∨ d.id ∈ s.awaited := by
      intro d hd
      obtain ⟨hmem, hne⟩ := hrest d hd
      refine (h.kept d hmem).imp_left (fun hkept ↦ ?_)
      obtain ⟨body, hbody, hsame⟩ := hkept
      exact ⟨body, hbody, hsame.imp_right (fun hp ↦ Finset.mem_erase.mpr ⟨hne, hp⟩)⟩
    dsimp only
    split
    · refine hdrop [.delete .gesture victim.id] (fun w hw ↦ ?_)
        (fun id hid ↦ absurd hid not_mem_nil) (fun d hd ↦ ?_) (fun d hd hnew ↦ ?_)
      · rw [mem_singleton.mp hw]
        exact named_of_present hvictim
      · refine (hkept d hd).imp (fun hkept ↦ ?_) .inl
        obtain ⟨body, hbody, hsame⟩ := hkept
        have hother := Write.apply_of_ne (t := s.outlook) (.drop victim.id) (hrest d hd).2.symm
        exact ⟨body, hother.trans hbody, hsame⟩
      · rw [hgone d hd hnew]
        exact Write.apply_drop victim.id
    · rename_i hlocal
      have hstay := hdrop [] (fun w hw ↦ absurd hw not_mem_nil)
        (fun id hid ↦ absurd hid not_mem_nil) (fun d hd ↦ (hkept d hd).imp_right .inl)
        (fun d hd hnew ↦ by_contra (fun hne ↦ hlocal ?_))
      · rwa [append_nil] at hstay
      · exact decide_eq_true (hgone d hd hnew ▸ h.serial d.id hne)

theorem Covered.fire {s : System} (h : Covered s) (id : ℤ) : Covered (s.fire id) := by
  have hedit := fun more ↦ h.edit s.history (s.pending.erase id) s.localSeq more le_rfl
    (fun l hl ↦ .inr hl) (h.nodup _ (present_mem_sets _)) (fun d hd ↦ .inl (named_of_present hd))
  have hpending : ∀ d, d.id ≠ id → ∀ {rows}, Kept rows s.pending d →
      Kept rows (s.pending.erase id) d := by
    rintro d hne rows ⟨body, hbody, hsame⟩
    exact ⟨body, hbody, hsame.imp_right (fun hp ↦ Finset.mem_erase.mpr ⟨hne, hp⟩)⟩
  have hidle (hnone : ∀ d ∈ s.history.present, d.id = id → s.outlook id = none) :
      Covered { s with pending := s.pending.erase id } := by
    have hstay := hedit [] (fun w hw ↦ absurd hw not_mem_nil)
      (fun id hid ↦ absurd hid not_mem_nil) (fun d hd ↦ ?_)
      (fun d hd hnew ↦ absurd (mem_map_of_mem hd) hnew)
    · rwa [append_nil] at hstay
    · refine (h.kept d hd).imp (fun hkept ↦ hpending d (fun heq ↦ ?_) hkept) .inl
      obtain ⟨body, hbody, -⟩ := hkept
      have hold : s.outlook d.id = some body := hbody
      rw [heq, hnone d hd heq] at hold
      cases hold
  have hsame : { s with pending := s.pending.erase id }.found id = s.found id := rfl
  rw [System.fire, System.flushUpdate, hsame]
  cases hfound : s.found id with
  | none => exact hidle (fun d hd hid ↦ absurd (hid ▸ mem_map_of_mem hd) (found_none hfound))
  | some current =>
    obtain ⟨hcurrent, rfl⟩ := found_spec hfound
    dsimp only
    split
    · refine hedit [.put current.id (toRequestBody current)] (fun w hw ↦ ?_)
        (fun id hid ↦ absurd hid not_mem_nil) (fun d hd ↦ ?_)
        (fun d hd hnew ↦ absurd (mem_map_of_mem hd) hnew)
      · rw [mem_singleton.mp hw]
        exact named_of_present hcurrent
      · refine (h.kept d hd).imp (fun hkept ↦ ?_) .inl
        by_cases heq : d.id = current.id
        · obtain rfl := inj_on_of_nodup_map (h.nodup _ (present_mem_sets _)) hd hcurrent heq
          obtain ⟨body, hbody, -⟩ := hkept
          have hput := Write.apply_put (t := s.outlook) d.id (toRequestBody d)
          rw [hbody, Option.map_some] at hput
          exact ⟨_, hput, .inl rfl⟩
        · obtain ⟨body, hbody, hsame⟩ := hpending d heq hkept
          have hother := Write.apply_of_ne (t := s.outlook)
            (.put current.id (toRequestBody current)) (Ne.symm heq)
          exact ⟨body, hother.trans hbody, hsame⟩
    · rename_i hlocal
      refine hidle (fun d hd hid ↦ by_contra (fun hne ↦ hlocal ?_))
      exact decide_eq_true (h.serial current.id hne)

end Edits


section Sync

theorem writes_syncTo (old new : List Drawing) :
    (syncTo old new).filterMap Request.write =
      ((diffDrawings old new).deleted.filter (fun d ↦ isPersistedId d.id)).map
          (fun d ↦ .drop d.id) ++
        ((diffDrawings old new).updated.filter (fun d ↦ isPersistedId d.id)).map
          (fun d ↦ .put d.id (toRequestBody d)) := by
  simp only [syncTo, filterMap_append, filterMap_map]
  have hnone : ∀ l : List Drawing, l.filterMap (Request.write ∘ fun d ↦
      .post .history d.id (toRequestBody d)) = [] :=
    fun l ↦ filterMap_eq_nil_iff.mpr (fun _ _ ↦ rfl)
  rw [hnone, append_nil]
  congr 1
  · exact congrFun filterMap_eq_map _
  · exact congrFun filterMap_eq_map _

theorem posting_syncTo (old new : List Drawing) :
    (syncTo old new).filterMap Request.posting = (diffDrawings old new).created.map Drawing.id := by
  simp only [syncTo, filterMap_append, filterMap_map]
  have hdelete : ∀ l : List Drawing,
      l.filterMap (Request.posting ∘ fun d ↦ .delete .history d.id) = [] :=
    fun l ↦ filterMap_eq_nil_iff.mpr (fun _ _ ↦ rfl)
  have hput : ∀ l : List Drawing,
      l.filterMap (Request.posting ∘ fun d ↦ .put d.id (toRequestBody d)) = [] :=
    fun l ↦ filterMap_eq_nil_iff.mpr (fun _ _ ↦ rfl)
  rw [hdelete, hput, nil_append, nil_append]
  exact congrFun filterMap_eq_map _

variable {old new : List Drawing}

theorem mem_writes_syncTo {w : Write ℤ DrawingRequestBody} :
    w ∈ (syncTo old new).filterMap Request.write ↔
      (∃ d ∈ (diffDrawings old new).deleted, 0 < d.id ∧ w = .drop d.id) ∨
        ∃ d ∈ (diffDrawings old new).updated, 0 < d.id ∧ w = .put d.id (toRequestBody d) := by
  simp only [writes_syncTo, mem_append, mem_map, mem_filter, isPersistedId,
    decide_eq_true_eq, and_assoc, eq_comm (a := w)]

theorem nodup_writes_syncTo (hold : (old.map Drawing.id).Nodup) (hnew : (new.map Drawing.id).Nodup) :
    (((syncTo old new).filterMap Request.write).map Write.key).Nodup := by
  have hdeleted : ((diffDrawings old new).deleted.filter (fun d ↦ isPersistedId d.id)).map
      Drawing.id |>.Nodup :=
    hold.sublist ((filter_sublist.trans filter_sublist).map _)
  have hupdated : ((diffDrawings old new).updated.filter (fun d ↦ isPersistedId d.id)).map
      Drawing.id |>.Nodup :=
    hnew.sublist ((filter_sublist.trans filter_sublist).map _)
  rw [writes_syncTo, map_append, map_map, map_map]
  refine nodup_append.mpr ⟨hdeleted, hupdated, fun id hid id' hid' heq ↦ ?_⟩
  obtain ⟨d, hd, rfl⟩ := mem_map.mp hid
  obtain ⟨d', hd', rfl⟩ := mem_map.mp hid'
  have hgone := (mem_deleted.mp (mem_of_mem_filter hd)).2
  have hmem := mem_of_mem_filter (mem_of_mem_filter hd')
  exact hgone (mem_map.mpr ⟨d', hmem, heq.symm⟩)

variable {t : ℤ → Option DrawingRequestBody}

theorem settled_deleted (hold : (old.map Drawing.id).Nodup) (hnew : (new.map Drawing.id).Nodup)
    {d : Drawing} (hd : d ∈ old) (hgone : d.id ∉ new.map Drawing.id) (hpos : 0 < d.id) :
    Write.settled ((syncTo old new).filterMap Request.write) t d.id = none := by
  have hmem : Write.drop d.id ∈ (syncTo old new).filterMap Request.write :=
    mem_writes_syncTo.mpr (.inl ⟨d, mem_deleted.mpr ⟨hd, hgone⟩, hpos, rfl⟩)
  exact (Write.settled_of_mem (nodup_writes_syncTo hold hnew) hmem).trans (Write.apply_drop d.id)

theorem settled_updated (hold : (old.map Drawing.id).Nodup) (hnew : (new.map Drawing.id).Nodup)
    {d prev : Drawing} (hprev : prev ∈ old) (hd : d ∈ new) (hid : prev.id = d.id) (hne : prev ≠ d)
    (hpos : 0 < d.id) :
    Write.settled ((syncTo old new).filterMap Request.write) t d.id =
      (t d.id).map (fun _ ↦ toRequestBody d) := by
  have hmem : Write.put d.id (toRequestBody d) ∈ (syncTo old new).filterMap Request.write :=
    mem_writes_syncTo.mpr (.inr ⟨d, (mem_updated hold hprev hid).mpr ⟨hd, hne⟩, hpos, rfl⟩)
  exact (Write.settled_of_mem (nodup_writes_syncTo hold hnew) hmem).trans (Write.apply_put d.id _)

theorem settled_unchanged (hold : (old.map Drawing.id).Nodup) (hnew : (new.map Drawing.id).Nodup)
    {d : Drawing} (hd : d ∈ old) (hd' : d ∈ new) :
    Write.settled ((syncTo old new).filterMap Request.write) t d.id = t d.id := by
  refine Write.settled_of_ne (fun w hw heq ↦ ?_)
  rcases mem_writes_syncTo.mp hw with ⟨d₁, hd₁, -, rfl⟩ | ⟨d₁, hd₁, -, rfl⟩
  · have hid : d₁.id = d.id := heq
    exact (mem_deleted.mp hd₁).2 (hid ▸ mem_map_of_mem hd')
  · have hmem : d₁ ∈ new := mem_of_mem_filter hd₁
    obtain rfl := inj_on_of_nodup_map hnew hmem hd' heq
    exact ((mem_updated hold hd rfl).mp hd₁).2 rfl

theorem Covered.moveTo {s : System} (h : Covered s) {next : DrawingHistory}
    (hsets : ∀ l ∈ next.sets, l ∈ s.history.sets) : Covered (s.moveTo next) := by
  have hold := h.nodup _ (present_mem_sets s.history)
  have hnew := h.nodup _ (hsets _ (present_mem_sets next))
  have hnamed : ∀ d ∈ next.present, s.Named d.id := fun d hd ↦
    ⟨_, hsets _ (present_mem_sets next), d, hd, rfl⟩
  refine h.edit next s.pending s.localSeq (syncTo s.history.present next.present) le_rfl
    (fun l hl ↦ .inr (hsets l hl)) hnew (fun d hd ↦ .inl (hnamed d hd)) (fun w hw ↦ ?_)
    (fun id hid ↦ ?_) (fun d hd ↦ ?_) (fun d hd hgone ↦ ?_)
  · rcases mem_writes_syncTo.mp hw with ⟨d, hd, -, rfl⟩ | ⟨d, hd, -, rfl⟩
    · exact named_of_present (mem_deleted.mp hd).1
    · exact hnamed d (mem_of_mem_filter hd)
  · rw [posting_syncTo] at hid
    obtain ⟨d, hd, rfl⟩ := mem_map.mp hid
    obtain ⟨hmem, habsent⟩ := mem_created.mp hd
    exact .inl ⟨hnamed d hmem, habsent⟩
  · rw [posting_syncTo]
    by_cases hthere : d.id ∈ s.history.present.map Drawing.id
    · obtain ⟨prev, hprev, hid⟩ := mem_map.mp hthere
      rcases h.kept prev hprev with hkept | hawait
      · obtain ⟨body, hbody, hsame⟩ := hkept
        rw [hid] at hbody hsame
        left
        by_cases heq : prev = d
        · subst heq
          exact ⟨body, (settled_unchanged hold hnew hprev hd).trans hbody, hsame⟩
        · have hpos := h.serial d.id (by rw [hbody]; simp)
          have hput := settled_updated (t := s.outlook) hold hnew hprev hd hid heq hpos
          rw [hbody, Option.map_some] at hput
          exact ⟨_, hput, .inl rfl⟩
      · exact .inr (.inl (hid ▸ hawait))
    · exact .inr (.inr (mem_map_of_mem (mem_created.mpr ⟨hd, hthere⟩)))
  · by_cases hpos : 0 < d.id
    · exact settled_deleted hold hnew hd hgone hpos
    · exact Write.settled_none (by_contra (fun hne ↦ hpos (h.serial d.id hne)))

theorem Covered.undo {s : System} (h : Covered s) : Covered s.undo := by
  rw [System.undo]
  split
  · exact h.moveTo (fun l hl ↦ mem_sets_undo hl)
  · exact h

theorem Covered.redo {s : System} (h : Covered s) : Covered s.redo := by
  rw [System.redo]
  split
  · exact h.moveTo (fun l hl ↦ mem_sets_redo hl)
  · exact h

end Sync

end TalaPala.Drawings
