import TalaPala.Drawings.Coverage

namespace TalaPala.Drawings

open Library Library.Transition List

section Erase

variable {α β : Type*} {l : List α} {i : ℕ} {a : α} {f : α → Option β}

theorem filterMap_eraseIdx_none (h : l[i]? = some a) (hf : f a = none) :
    (l.eraseIdx i).filterMap f = l.filterMap f := by
  obtain ⟨hi, rfl⟩ := List.getElem?_eq_some_iff.mp h
  have hall : l.take i ++ l[i] :: l.drop (i + 1) = l := by
    rw [getElem_cons_drop, take_append_drop]
  conv_rhs => rw [← hall]
  rw [eraseIdx_eq_take_drop_succ, filterMap_append, filterMap_append, filterMap_cons_none hf]

theorem filterMap_eraseIdx_some (h : l[i]? = some a) {b : β} (hf : f a = some b) :
    l.filterMap f = (l.take i).filterMap f ++ b :: (l.drop (i + 1)).filterMap f ∧
      (l.eraseIdx i).filterMap f =
        (l.take i).filterMap f ++ (l.drop (i + 1)).filterMap f := by
  obtain ⟨hi, rfl⟩ := List.getElem?_eq_some_iff.mp h
  have hall : l.take i ++ l[i] :: l.drop (i + 1) = l := by
    rw [getElem_cons_drop, take_append_drop]
  constructor
  · conv_lhs => rw [← hall]
    rw [filterMap_append, filterMap_cons_some hf]
  · rw [eraseIdx_eq_take_drop_succ, filterMap_append]

end Erase

section Order

def Orderly (s : System) : Event → Prop
  | .serve i _ => ∀ id body, s.requests[i]? = some (.put id body) →
      ∀ body', .put id body' ∉ s.requests.take i
  | .arrive i => ∀ source localId row, s.responses[i]? = some (.posted source localId row) →
      ∃ d ∈ s.history.present, d.id = localId ∧
        (toRequestBody d = row.body ∨
          source = .gesture ∧ (parseDrawing row).any (moved d ·) = true)
  | _ => True

theorem Covered.settle {s s' : System} (h : Covered s) (hhistory : s'.history = s.history)
    (hpending : s'.pending = s.pending) (hseq : s'.localSeq = s.localSeq)
    (hrow : s'.nextRow = s.nextRow) (hwrites : ∀ w ∈ s'.writes, w ∈ s.writes)
    (houtlook : s'.outlook = s.outlook) (hawaited : ∀ id, id ∈ s'.awaited ↔ id ∈ s.awaited)
    (huntold : s'.untold = s.untold) : Covered s' where
  nodup := by
    rw [hhistory]
    exact h.nodup
  known id hid := by
    rw [hseq, hrow, huntold]
    refine h.known id ?_
    rwa [System.Named, hhistory] at hid
  seq := hseq ▸ h.seq
  positive := hrow ▸ h.positive
  writes w hw := hrow ▸ h.writes w (hwrites w hw)
  distinct := huntold ▸ h.distinct
  readable := huntold ▸ h.readable
  untold := by
    rw [huntold, hrow, houtlook]
    exact h.untold
  serial := houtlook ▸ h.serial
  awaited id hid := by
    rw [hrow, houtlook]
    exact h.awaited id ((hawaited id).mp hid)
  kept d hd := by
    rw [hhistory] at hd
    rw [houtlook, hpending, hawaited]
    exact h.kept d hd
  held := by
    rw [houtlook, hhistory, huntold]
    exact h.held

theorem Covered.serve_write {s : System} (h : Covered s) {i : ℕ} {r : Request}
    {w : Write ℤ DrawingRequestBody} {answer : Response} (hr : s.requests[i]? = some r)
    (hw : r.write = some w) (hposting : r.posting = none) (hanswer : answer.created = none)
    (hanswering : answer.posting = none)
    (hclash : ∀ r' ∈ s.requests.take i, ∀ w', r'.write = some w' → w.clashes w' = false) :
    Covered { s with
      requests := s.requests.eraseIdx i, rows := w.apply s.rows
      responses := s.responses ++ [answer] } := by
  obtain ⟨hwrites, hwrites'⟩ := filterMap_eraseIdx_some hr hw
  refine h.settle rfl rfl rfl rfl (fun w' hw' ↦ ?_) ?_ (fun id ↦ ?_) ?_
  · rw [System.writes, hwrites'] at hw'
    rw [System.writes, hwrites]
    simp only [mem_append, mem_cons] at hw' ⊢
    tauto
  · rw [System.outlook, System.outlook, System.writes, System.writes, hwrites, hwrites',
      Write.settled_ahead]
    intro w' hw'
    obtain ⟨r', hr', hwrite⟩ := mem_filterMap.mp hw'
    exact hclash r' hr' w' hwrite
  · rw [System.awaited, System.awaited, filterMap_eraseIdx_none hr hposting, filterMap_append,
      filterMap_cons_none hanswering, filterMap_nil, append_nil]
  · rw [System.untold, System.untold, filterMap_append, filterMap_cons_none hanswer,
      filterMap_nil, append_nil]

theorem Covered.serve_post {s : System} (h : Covered s) {i : ℕ} {source : Source} {localId : ℤ}
    {body : DrawingRequestBody} (hr : s.requests[i]? = some (.post source localId body))
    (hread : body.readable = true) (skipped : ℕ) :
    Covered ({ s with requests := s.requests.eraseIdx i }.serve skipped
      (.post source localId body)) := by
  let row := s.nextRow + skipped
  have hfresh : s.nextRow ≤ row := Int.le_add_of_nonneg_right (Int.natCast_nonneg skipped)
  let s' := { s with requests := s.requests.eraseIdx i }.serve skipped (.post source localId body)
  have hwrites : s'.writes = s.writes := filterMap_eraseIdx_none hr rfl
  have hkeys : ∀ w ∈ s.writes, w.key ≠ row := fun w hw ↦ ((h.writes w hw).trans_le hfresh).ne
  have houtlook : s'.outlook = Function.update s.outlook row (some body) := by
    rw [System.outlook, hwrites]
    exact Write.settled_insert hkeys _
  have hother : ∀ id, id < s.nextRow → s'.outlook id = s.outlook id := fun id hid ↦ by
    rw [houtlook, Function.update_of_ne (hid.trans_le hfresh).ne]
  have hself : s'.outlook row = some body := by
    rw [houtlook, Function.update_self]
  have huntold : s'.untold = s.untold ++ [⟨row, body⟩] := by
    show (s.responses ++ _).filterMap Response.created = _
    rw [filterMap_append]
    rfl
  have hawaited : ∀ id, id ∈ s'.awaited ↔ id ∈ s.awaited := by
    intro id
    obtain ⟨hsent, hleft⟩ := filterMap_eraseIdx_some (f := Request.posting) hr rfl
    have hmoved : s'.awaited = (s.requests.eraseIdx i).filterMap Request.posting ++
        (s.responses.filterMap Response.posting ++ [localId]) :=
      congrArg _ filterMap_append
    rw [hmoved, System.awaited, hsent, hleft]
    simp only [mem_append, mem_cons, not_mem_nil, or_false]
    tauto
  have hlater : s.nextRow < s'.nextRow := Int.lt_add_one_of_le hfresh
  have hinside : row < s'.nextRow := Int.lt_succ row
  have huntold' : ∀ id, id ∈ s'.untold.map ChartDrawing.id ↔
      id ∈ s.untold.map ChartDrawing.id ∨ id = row := by
    intro id
    rw [huntold, map_append, mem_append, map_singleton, mem_singleton]
  refine ⟨h.nodup, fun id hid ↦ ?_, h.seq, h.positive.trans hlater, fun w hw ↦ ?_, ?_,
    fun created hc ↦ ?_, fun created hc ↦ ?_, fun id hid ↦ ?_, fun id hid ↦ ?_, fun d hd ↦ ?_, fun id hid ↦ ?_⟩
  · obtain ⟨hlow, hhigh, hnew⟩ := h.known id hid
    refine ⟨hlow, hhigh.trans hlater, fun hmem ↦ ?_⟩
    exact ((huntold' id).mp hmem).elim hnew (hhigh.trans_le hfresh).ne
  · rw [hwrites] at hw
    exact (h.writes w hw).trans hlater
  · rw [huntold, map_append, map_singleton]
    refine nodup_append.mpr ⟨h.distinct, nodup_singleton _, fun id hid id' hid' ↦ ?_⟩
    obtain ⟨created, hc, rfl⟩ := mem_map.mp hid
    rw [mem_singleton.mp hid']
    exact ((h.untold created hc).2.1.trans_le hfresh).ne
  · rw [huntold] at hc
    rcases mem_append.mp hc with hc | hc
    · exact h.readable created hc
    · rw [mem_singleton.mp hc]
      exact hread
  · rw [huntold] at hc
    rcases mem_append.mp hc with hc | hc
    · obtain ⟨hlow, hhigh, hbody⟩ := h.untold created hc
      exact ⟨hlow, hhigh.trans hlater, (hother _ hhigh).trans hbody⟩
    · rw [mem_singleton.mp hc]
      exact ⟨h.positive.trans_le hfresh, hinside, hself⟩
  · by_cases heq : id = row
    · exact heq ▸ h.positive.trans_le hfresh
    · rw [houtlook, Function.update_of_ne heq] at hid
      exact h.serial id hid
  · obtain ⟨hhigh, hnone⟩ := h.awaited id ((hawaited id).mp hid)
    exact ⟨hhigh.trans hlater, (hother id hhigh).trans hnone⟩
  · refine (h.kept d hd).imp (fun hkept ↦ ?_) (hawaited d.id).mpr
    obtain ⟨kept, hbody, hsame⟩ := hkept
    exact ⟨kept, (hother _ (h.known _ (named_of_present hd)).2.1).trans hbody, hsame⟩
  · by_cases heq : id = row
    · exact .inr ((huntold' id).mpr (.inr heq))
    · rw [houtlook, Function.update_of_ne heq] at hid
      exact (h.held id hid).imp_right (fun hmem ↦ (huntold' id).mpr (.inl hmem))

theorem Covered.serve {s : System} (h : Covered s) {i : ℕ} {r : Request}
    (hr : s.requests[i]? = some r) (haccepts : s.accepts r = true) (skipped : ℕ)
    (hok : Orderly s (.serve i skipped)) :
    Covered ({ s with requests := s.requests.eraseIdx i }.serve skipped r) := by
  cases r with
  | post source localId body => exact h.serve_post hr haccepts skipped
  | put id body =>
    refine h.serve_write hr rfl rfl rfl rfl (fun r' hr' w' hw' ↦ ?_)
    cases r' with
    | post source localId body' => cases hw'
    | put id' body' =>
      obtain rfl := Option.some.inj hw'
      refine decide_eq_false (fun heq ↦ hok id body hr body' ?_)
      exact heq ▸ hr'
    | delete source id' =>
      obtain rfl := Option.some.inj hw'
      rfl
  | delete source id => exact h.serve_write hr rfl rfl rfl rfl (fun _ _ _ _ ↦ rfl)

end Order

section Arrival

theorem Covered.drop {s : System} (h : Covered s) {i : ℕ} {r : Response}
    (hr : s.responses[i]? = some r) (hposting : r.posting = none) (hcreated : r.created = none)
    (baseline : Finset ℤ) :
    Covered { s with responses := s.responses.eraseIdx i, baseline := baseline } :=
  h.settle rfl rfl rfl rfl (fun _ hw ↦ hw) rfl
    (fun id ↦ by rw [System.awaited, System.awaited, filterMap_eraseIdx_none hr hposting])
    (filterMap_eraseIdx_none hr hcreated)

theorem swap_of_ne {old new : ℤ} {d : Drawing} (h : d.id ≠ old) : d.swap old new = d := if_neg h

theorem swap_id {old new : ℤ} {d : Drawing} (h : d.id = old) : (d.swap old new).id = new := by
  rw [Drawing.swap, if_pos h]

theorem toRequestBody_swap (old new : ℤ) (d : Drawing) :
    toRequestBody (d.swap old new) = toRequestBody d := by
  rw [Drawing.swap]
  split <;> rfl

theorem nodup_swap {l : List Drawing} (h : (l.map Drawing.id).Nodup) {old new : ℤ}
    (hnew : new ∉ l.map Drawing.id) : ((l.map (Drawing.swap old new)).map Drawing.id).Nodup := by
  rw [map_map]
  refine List.Nodup.map_on (fun d hd d' hd' heq ↦ ?_) (List.Nodup.of_map _ h)
  refine inj_on_of_nodup_map h hd hd' ?_
  have hfresh : ∀ c ∈ l, c.id ≠ new := fun c hc hid ↦ hnew (hid ▸ mem_map_of_mem hc)
  simp only [Function.comp_apply] at heq
  by_cases hold : d.id = old
  · by_cases hold' : d'.id = old
    · exact hold.trans hold'.symm
    · rw [swap_id hold, swap_of_ne hold'] at heq
      exact absurd heq.symm (hfresh d' hd')
  · by_cases hold' : d'.id = old
    · rw [swap_of_ne hold, swap_id hold'] at heq
      exact absurd heq (hfresh d hd)
    · rwa [swap_of_ne hold, swap_of_ne hold'] at heq

theorem Covered.adopt {s : System} (h : Covered s) {i : ℕ} {source : Source} {localId : ℤ}
    {row : ChartDrawing} (hr : s.responses[i]? = some (.posted source localId row))
    {live : Drawing} (hlive : live ∈ s.history.present) (hid : live.id = localId)
    {pending : Finset ℤ} (hpending : s.pending ⊆ pending)
    (hsame : row.body = toRequestBody live ∨ row.id ∈ pending) (baseline : Finset ℤ) :
    Covered { s with
      responses := s.responses.eraseIdx i, baseline := baseline, pending := pending
      history := remapHistoryId s.history localId row.id } := by
  obtain ⟨huntold, huntold'⟩ := filterMap_eraseIdx_some (f := Response.created) hr rfl
  obtain ⟨hposting, hposting'⟩ := filterMap_eraseIdx_some (f := Response.posting) hr rfl
  let s' : System := { s with
    responses := s.responses.eraseIdx i, baseline := baseline, pending := pending
    history := remapHistoryId s.history localId row.id }
  have hrow : row ∈ s.untold := by
    rw [System.untold, huntold]
    exact mem_append_right _ mem_cons_self
  have hkept : ∀ r ∈ s'.untold, r ∈ s.untold := by
    intro r hr'
    rw [System.untold, huntold'] at hr'
    rw [System.untold, huntold]
    simp only [mem_append, mem_cons] at hr' ⊢
    tauto
  have hids : ∀ id, id ∈ s.untold.map ChartDrawing.id →
      id = row.id ∨ id ∈ s'.untold.map ChartDrawing.id := by
    intro id hi
    rw [System.untold, huntold] at hi
    rw [System.untold, huntold']
    simp only [map_append, map_cons, mem_append, mem_cons] at hi ⊢
    tauto
  have hdistinct := h.distinct
  rw [System.untold, huntold, map_append, map_cons] at hdistinct
  have htold : row.id ∉ s'.untold.map ChartDrawing.id := by
    rw [System.untold, huntold', map_append]
    exact (nodup_middle.mp hdistinct |> nodup_cons.mp).1
  have hawaited : ∀ id, id ∈ s'.awaited → id ∈ s.awaited := by
    intro id hi
    rw [System.awaited, hposting'] at hi
    rw [System.awaited, hposting]
    simp only [mem_append, mem_cons] at hi ⊢
    tauto
  have hawaited' : ∀ id, id ≠ localId → id ∈ s.awaited → id ∈ s'.awaited := by
    intro id hne hi
    rw [System.awaited, hposting] at hi
    rw [System.awaited, hposting']
    simp only [mem_append, mem_cons] at hi ⊢
    tauto
  have hlocal : localId ∈ s.awaited := by
    rw [System.awaited, hposting]
    exact mem_append_right _ (mem_append_right _ mem_cons_self)
  obtain ⟨hlow, hhigh, hbody⟩ := h.untold row hrow
  have hold : ∀ l ∈ s'.history.sets, ∃ l₀ ∈ s.history.sets, l = l₀.map (Drawing.swap localId row.id) := by
    intro l hl
    rw [sets_remap] at hl
    obtain ⟨l₀, hl₀, rfl⟩ := mem_map.mp hl
    exact ⟨l₀, hl₀, rfl⟩
  have hadopted : row.id ∈ s'.history.present.map Drawing.id := by
    refine mem_map.mpr ⟨live.swap localId row.id, mem_map_of_mem hlive, swap_id hid⟩
  refine ⟨fun l hl ↦ ?_, fun id hnamed ↦ ?_, h.seq, h.positive, h.writes, ?_,
    fun r hr' ↦ h.readable r (hkept r hr'), fun r hr' ↦ h.untold r (hkept r hr'), h.serial, fun id hi ↦ h.awaited id (hawaited id hi),
    fun d hd ↦ ?_, fun id hne ↦ ?_⟩
  · obtain ⟨l₀, hl₀, rfl⟩ := hold l hl
    refine nodup_swap (h.nodup l₀ hl₀) (fun hmem ↦ ?_)
    obtain ⟨d, hd, heq⟩ := mem_map.mp hmem
    exact (h.known row.id ⟨l₀, hl₀, d, hd, heq⟩).2.2 (mem_map_of_mem hrow)
  · obtain ⟨l, hl, d, hd, rfl⟩ := hnamed
    obtain ⟨l₀, hl₀, rfl⟩ := hold l hl
    obtain ⟨d₀, hd₀, rfl⟩ := mem_map.mp hd
    by_cases heq : d₀.id = localId
    · rw [swap_id heq]
      exact ⟨h.seq.trans hlow.le, hhigh, htold⟩
    · rw [swap_of_ne heq]
      obtain ⟨hseq, hnext, hnew⟩ := h.known d₀.id ⟨l₀, hl₀, d₀, hd₀, rfl⟩
      refine ⟨hseq, hnext, fun hmem ↦ hnew ?_⟩
      obtain ⟨r, hr', hrid⟩ := mem_map.mp hmem
      exact mem_map.mpr ⟨r, hkept r hr', hrid⟩
  · have hrest := (nodup_cons.mp (nodup_middle.mp hdistinct)).2
    rwa [← map_append, ← huntold'] at hrest
  · obtain ⟨d₀, hd₀, rfl⟩ := mem_map.mp hd
    by_cases heq : d₀.id = localId
    · obtain rfl := inj_on_of_nodup_map (h.nodup _ (present_mem_sets _)) hd₀ hlive
        (heq.trans hid.symm)
      refine .inl ⟨row.body, ?_, ?_⟩
      · rw [swap_id heq]
        exact hbody
      · rwa [swap_id heq, toRequestBody_swap]
    · rw [swap_of_ne heq]
      rcases h.kept d₀ hd₀ with ⟨body, hkeep, hsent⟩ | hawait
      · exact .inl ⟨body, hkeep, hsent.imp_right (fun hp ↦ hpending hp)⟩
      · exact .inr (hawaited' d₀.id heq hawait)
  · rcases h.held id hne with hmem | hmem
    · obtain ⟨d, hd, rfl⟩ := mem_map.mp hmem
      have hother : d.id ≠ localId := fun heq ↦ hne (heq ▸ (h.awaited localId hlocal).2)
      refine .inl (mem_map.mpr ⟨d, mem_map.mpr ⟨d, hd, swap_of_ne hother⟩, rfl⟩)
    · rcases hids id hmem with rfl | hmem
      · exact .inl hadopted
      · exact .inr hmem

theorem Covered.arrivePosted {s : System} (h : Covered s) {i : ℕ} {source : Source} {localId : ℤ}
    {row : ChartDrawing} (hr : s.responses[i]? = some (.posted source localId row))
    (hok : Orderly s (.arrive i)) :
    Covered ({ s with responses := s.responses.eraseIdx i }.arrivePosted source localId row) := by
  obtain ⟨live, hlive, hid, hsame⟩ := hok source localId row hr
  have hrow : row ∈ s.untold :=
    mem_filterMap.mpr ⟨_, mem_of_getElem? hr, rfl⟩
  obtain ⟨saved, hparse, hsaved, -⟩ := parseDrawing_of_readable (h.readable row hrow)
  have hfound : { s with responses := s.responses.eraseIdx i }.found localId = some live :=
    hid ▸ h.found hlive
  have hkeep (hbody : toRequestBody live = row.body) :=
    h.adopt hr hlive hid (Finset.Subset.refl _) (.inl hbody.symm) (insert row.id s.baseline)
  have hwrite := h.adopt hr hlive hid (Finset.subset_insert row.id s.pending)
    (.inr (Finset.mem_insert_self _ _)) (insert row.id s.baseline)
  rw [System.arrivePosted, hparse]
  dsimp only
  rw [hsaved]
  cases source with
  | history =>
    obtain hbody | ⟨hgesture, -⟩ := hsame
    · exact hkeep hbody
    · cases hgesture
  | gesture =>
    rw [hfound]
    dsimp only
    split
    · exact hwrite
    · rename_i hstill
      obtain hbody | ⟨-, hmoved⟩ := hsame
      · exact hkeep hbody
      · rw [hparse] at hmoved
        exact absurd hmoved hstill

theorem Covered.arrive {s : System} (h : Covered s) {i : ℕ} {r : Response}
    (hr : s.responses[i]? = some r) (hok : Orderly s (.arrive i)) :
    Covered ({ s with responses := s.responses.eraseIdx i }.arrive r) := by
  cases r with
  | posted source localId row => exact h.arrivePosted hr hok
  | saved row =>
    rw [System.arrive]
    split
    · exact h.drop hr rfl rfl s.baseline
    · exact h.drop hr rfl rfl _
  | deleted source id found =>
    rw [System.arrive]
    split
    · exact h.drop hr rfl rfl _
    · exact h.drop hr rfl rfl s.baseline

theorem next_covered {s s' : System} {e : Event} (h : Covered s) (hok : Orderly s e)
    (hstep : next s e = some s') : Covered s' := by
  cases e with
  | create draft => exact Option.some.inj hstep ▸ h.create draft
  | replace next => exact Option.some.inj hstep ▸ h.replace next
  | remove id => exact Option.some.inj hstep ▸ h.remove id
  | duplicate id => exact Option.some.inj hstep ▸ h.duplicate id
  | undo => exact Option.some.inj hstep ▸ h.undo
  | redo => exact Option.some.inj hstep ▸ h.redo
  | showAll => exact Option.some.inj hstep ▸ h.showAll
  | fire id =>
    rw [next] at hstep
    split at hstep
    · exact Option.some.inj hstep ▸ h.fire id
    · cases hstep
  | serve i skipped =>
    rw [next] at hstep
    split at hstep
    · cases hstep
    · rename_i r hr
      split at hstep
      · rename_i haccepts
        exact Option.some.inj hstep ▸ h.serve hr haccepts skipped hok
      · cases hstep
  | arrive i =>
    obtain ⟨r, hr, rfl⟩ := Option.map_eq_some_iff.mp hstep
    exact h.arrive hr hok

end Arrival

section Runs

theorem map_id_parseDrawings {rows : List ChartDrawing} (h : ∀ row ∈ rows, row.body.readable = true) :
    (parseDrawings rows).map Drawing.id = rows.map ChartDrawing.id := by
  induction rows with
  | nil => rfl
  | cons row rows ih =>
    obtain ⟨hrow, hrest⟩ := forall_mem_cons.mp h
    obtain ⟨d, hd, hid, -⟩ := parseDrawing_of_readable hrow
    rw [parseDrawings, filterMap_cons_some hd, map_cons, map_cons, hid]
    exact congrArg _ (ih hrest)

theorem start_covered (chart : Chart) (intervalSeconds : ℚ) :
    Covered (System.start chart intervalSeconds) := by
  let s := System.start chart intervalSeconds
  have hids : s.history.present.map Drawing.id = chart.rows.map ChartDrawing.id :=
    map_id_parseDrawings chart.readable
  have hrows : ∀ row ∈ chart.rows, s.outlook row.id = some row.body := by
    intro row hrow
    show (chart.rows.find? (fun r ↦ r.id = row.id)).map ChartDrawing.body = some row.body
    cases hfound : chart.rows.find? (fun r ↦ r.id = row.id) with
    | none =>
      exact absurd (find?_eq_none.mp hfound row hrow) (by simp)
    | some r =>
      have hid : r.id = row.id := by simpa using find?_some hfound
      rw [inj_on_of_nodup_map chart.unique (mem_of_find?_eq_some hfound) hrow hid]
      rfl
  have hrow : ∀ id, s.outlook id ≠ none → ∃ row ∈ chart.rows, row.id = id := by
    intro id hne
    obtain ⟨body, hbody⟩ := Option.ne_none_iff_exists'.mp hne
    obtain ⟨row, hfound, -⟩ := Option.map_eq_some_iff.mp hbody
    exact ⟨row, mem_of_find?_eq_some hfound, by simpa using find?_some hfound⟩
  have hset : ∀ l ∈ s.history.sets, l = s.history.present := fun l hl ↦
    (mem_cons.mp hl).resolve_right not_mem_nil
  refine ⟨fun l hl ↦ ?_, fun id hid ↦ ?_, le_rfl, chart.positive,
    fun _ hw ↦ absurd hw not_mem_nil, nodup_nil,
    fun _ hr ↦ absurd hr not_mem_nil, fun _ hr ↦ absurd hr not_mem_nil,
    fun id hne ↦ ?_, fun _ hid ↦ absurd hid not_mem_nil, fun d hd ↦ ?_, fun id hne ↦ ?_⟩
  · rw [hset l hl, hids]
    exact chart.unique
  · obtain ⟨l, hl, d, hd, rfl⟩ := hid
    rw [hset l hl] at hd
    have hmem := mem_map_of_mem (f := Drawing.id) hd
    rw [hids] at hmem
    obtain ⟨row, hr, hid⟩ := mem_map.mp hmem
    obtain ⟨hlow, hhigh⟩ := chart.serial row hr
    exact hid ▸ ⟨hlow.le, hhigh, not_mem_nil⟩
  · obtain ⟨row, hr, rfl⟩ := hrow id hne
    exact (chart.serial row hr).1
  · obtain ⟨row, hr, hparse⟩ := mem_filterMap.mp hd
    obtain ⟨hid, hbody⟩ := of_parseDrawing hparse
    exact .inl ⟨row.body, hid ▸ hrows row hr, .inl hbody.symm⟩
  · obtain ⟨row, hr, rfl⟩ := hrow id hne
    rw [hids]
    exact .inl (mem_map_of_mem hr)

/-- In every orderly run the server holds the drawings on the chart whenever nothing is
in flight and nothing waits to be written. -/
theorem drawings_held {chart : Chart} {intervalSeconds : ℚ} {events : List Event} {s : System}
    (h : Run next Orderly (System.start chart intervalSeconds) events s) (hq : Quiescent s) :
    Held s :=
  (h.preserves (fun _ _ _ hs hok hstep ↦ next_covered hs hok hstep)
    (start_covered chart intervalSeconds)).held_of_quiescent hq

def promptly (s : System) : Event → Bool
  | .serve i _ => i = 0
  | .arrive i =>
    match s.responses[i]? with
    | some (.posted _ localId row) =>
      s.history.present.any (fun d ↦ d.id = localId ∧ toRequestBody d = row.body)
    | _ => true
  | _ => true

theorem orderly_of_promptly (s : System) (e : Event) (h : promptly s e = true) : Orderly s e := by
  cases e with
  | serve i skipped =>
    obtain rfl : i = 0 := of_decide_eq_true h
    exact fun _ _ _ _ ↦ not_mem_nil
  | arrive i =>
    intro source localId row hr
    rw [promptly, hr] at h
    obtain ⟨d, hd, hsame⟩ := any_eq_true.mp h
    obtain ⟨hid, hbody⟩ := of_decide_eq_true hsame
    exact ⟨d, hd, hid, .inl hbody⟩
  | _ => trivial

def blank : Chart where
  rows := []
  nextRow := 1
  listed := by decide
  unique := nodup_nil
  serial := fun _ h ↦ absurd h not_mem_nil
  positive := by decide
  readable := fun _ h ↦ absurd h not_mem_nil

def support : DrawingDraft := ⟨.horizontalLine, [⟨1700000000, 2400⟩], "\x7b\x7d"⟩

def supportBody : DrawingRequestBody :=
  ⟨.horizontalLine, [⟨1700000000, 2400⟩], "\x7b\x7d", false, true⟩

def lockedSupport : Drawing := ⟨-1, .horizontalLine, [⟨1700000000, 2400⟩], "\x7b\x7d", true, true⟩

theorem outcome {α : Type*} {check : System → Event → Bool} {ok : System → Event → Prop}
    (hok : ∀ s e, check s e = true → ok s e) {s₀ : System} {events : List Event} {f : System → α}
    {a : α} (h : (execute next check s₀ events).map f = some a) :
    ∃ s, Run next ok s₀ events s ∧ f s = a := by
  obtain ⟨s, hs, rfl⟩ := Option.map_eq_some_iff.mp h
  exact ⟨s, (run_of_execute hs).mono hok, rfl⟩

/-- A line is drawn and duplicated, and only the copy is kept. -/
theorem duplicate_held : ∃ s, Run next Orderly (System.start blank 3600)
    [.create support, .serve 0 0, .arrive 0, .duplicate 1, .serve 0 3, .arrive 0, .remove 1,
      .serve 0 0, .arrive 0] s ∧ Quiescent s ∧ Held s := by
  have hend : (execute next promptly (System.start blank 3600)
      [.create support, .serve 0 0, .arrive 0, .duplicate 1, .serve 0 3, .arrive 0, .remove 1,
        .serve 0 0, .arrive 0]).map (fun s ↦ decide (Quiescent s)) = some true := by
    decide +kernel
  obtain ⟨s, hrun, hquiet⟩ := outcome orderly_of_promptly hend
  exact ⟨s, hrun, of_decide_eq_true hquiet, drawings_held hrun (of_decide_eq_true hquiet)⟩

/-- A drawing undone while it is being created leaves its row behind, and one locked
meanwhile is not locked on the server. -/
theorem edits_in_flight_lost :
    (∃ s, Run next (fun _ _ ↦ True) (System.start blank 3600)
      [.create support, .undo, .serve 0 0, .arrive 0] s ∧
        Quiescent s ∧ s.history.present = [] ∧ s.rows 1 = some supportBody ∧ ¬Held s) ∧
    ∃ s, Run next (fun _ _ ↦ True) (System.start blank 3600)
      [.create support, .replace lockedSupport, .serve 0 0, .arrive 0] s ∧
        Quiescent s ∧ s.history.present = [{ lockedSupport with id := 1 }] ∧
          s.rows 1 = some supportBody ∧ ¬Held s := by
  have hall : ∀ (s : System) (e : Event), true = true → True := fun _ _ _ ↦ trivial
  have hundone : (execute next (fun _ _ ↦ true) (System.start blank 3600)
      [.create support, .undo, .serve 0 0, .arrive 0]).map (fun s ↦
        (decide (Quiescent s), s.history.present, s.rows 1)) =
      some (true, [], some supportBody) := by decide +kernel
  have hlocked : (execute next (fun _ _ ↦ true) (System.start blank 3600)
      [.create support, .replace lockedSupport, .serve 0 0, .arrive 0]).map (fun s ↦
        (decide (Quiescent s), s.history.present, s.rows 1)) =
      some (true, [{ lockedSupport with id := 1 }], some supportBody) := by decide +kernel
  obtain ⟨s, hrun, hs⟩ := outcome hall hundone
  obtain ⟨t, hrun', ht⟩ := outcome hall hlocked
  simp only [Prod.mk.injEq, decide_eq_true_eq] at hs ht
  obtain ⟨hquiet, hpresent, hrow⟩ := hs
  obtain ⟨hquiet', hpresent', hrow'⟩ := ht
  refine ⟨⟨s, hrun, hquiet, hpresent, hrow, fun hheld ↦ ?_⟩,
    t, hrun', hquiet', hpresent', hrow', fun hheld ↦ ?_⟩
  · obtain ⟨d, hd, -⟩ := (hheld.2 1 supportBody).mp hrow
    rw [hpresent] at hd
    exact absurd hd not_mem_nil
  · obtain ⟨d, hd, -, hbody⟩ := (hheld.2 1 supportBody).mp hrow'
    rw [hpresent'] at hd
    rw [mem_singleton.mp hd] at hbody
    exact absurd hbody (by decide +kernel)

end Runs

end TalaPala.Drawings
