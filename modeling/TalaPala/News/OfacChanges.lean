import TalaPala.News.Ofac
import TalaPala.Library.Transition

namespace TalaPala.News

open Library Library.ChangeLog Library.Transition List

section Diff

variable {previous current : Snapshot} {before after : SdnRecord} {uid : Text}

def Snapshot.fields (snapshot : Snapshot) (uid : Text) : Option (List (List Text)) :=
  (snapshot.get uid).map compared

theorem Snapshot.get_eq_some {snapshot : Snapshot} {r : SdnRecord} :
    snapshot.get uid = some r ↔ r ∈ snapshot.records ∧ r.uid = uid := by
  rw [Snapshot.get]
  constructor
  · intro h
    exact ⟨mem_of_find?_eq_some h, by simpa using find?_some h⟩
  · rintro ⟨hr, rfl⟩
    cases hfind : snapshot.records.find? (fun r' ↦ r'.uid = r.uid) with
    | none =>
      have hnone := find?_eq_none.mp hfind r hr
      simp at hnone
    | some r' =>
      have huid : r'.uid = r.uid := by simpa using find?_some hfind
      exact congrArg some (inj_on_of_nodup_map snapshot.distinct
        (mem_of_find?_eq_some hfind) hr huid)

theorem Snapshot.get_of_mem {snapshot : Snapshot} {r : SdnRecord} (h : r ∈ snapshot.records) :
    snapshot.get r.uid = some r :=
  get_eq_some.mpr ⟨h, rfl⟩

theorem changedFields_eq_nil : changedFields before after = [] ↔ compared before = compared after := by
  rw [changedFields, compared, compared, map_inj_left, ← length_eq_zero_iff,
    length_insertionSort, length_map, length_eq_zero_iff, filter_eq_nil_iff]
  simp only [ne_eq, decide_not, Bool.not_eq_true', decide_eq_false_iff_not, not_not]

theorem modifiedChange_eq_some {change : SdnChange} : modifiedChange before after = some change ↔
    compared before ≠ compared after ∧ change = ⟨after.uid, .modified, some after, some before,
      changedFields before after, after.programs⟩ := by
  rw [modifiedChange]
  split_ifs with h
  · rw [changedFields_eq_nil] at h
    simp [h]
  · rw [changedFields_eq_nil] at h
    rw [Option.some.injEq]
    exact ⟨fun heq ↦ ⟨h, heq.symm⟩, fun heq ↦ heq.2.symm⟩

inductive DiffEntry (previous current : Snapshot) : SdnChange → Prop
  | added (r : SdnRecord) : previous.get r.uid = none → current.get r.uid = some r →
      DiffEntry previous current (addedChange r)
  | removed (r : SdnRecord) : previous.get r.uid = some r → current.get r.uid = none →
      DiffEntry previous current (removedChange r)
  | modified (before after : SdnRecord) : previous.get after.uid = some before →
      current.get after.uid = some after → compared before ≠ compared after →
      DiffEntry previous current ⟨after.uid, .modified, some after, some before,
        changedFields before after, after.programs⟩

theorem mem_diffSnapshots {change : SdnChange} :
    change ∈ diffSnapshots previous current ↔ DiffEntry previous current change := by
  simp only [diffSnapshots, mem_insertionSort, mem_append, mem_map, mem_filter,
    mem_filterMap, Option.bind_eq_some_iff, modifiedChange_eq_some, Option.isNone_iff_eq_none]
  constructor
  · rintro ((⟨r, ⟨hr, hnone⟩, rfl⟩ | ⟨r, ⟨hr, hnone⟩, rfl⟩) | ⟨after, hafter, before, hbefore, hne, rfl⟩)
    · exact .added r hnone (Snapshot.get_of_mem hr)
    · exact .removed r (Snapshot.get_of_mem hr) hnone
    · exact .modified before after hbefore (Snapshot.get_of_mem hafter) hne
  · rintro (⟨r, hnone, hr⟩ | ⟨r, hr, hnone⟩ | ⟨before, after, hbefore, hafter, hne⟩)
    · exact .inl (.inl ⟨r, ⟨(Snapshot.get_eq_some.mp hr).1, hnone⟩, rfl⟩)
    · exact .inl (.inr ⟨r, ⟨(Snapshot.get_eq_some.mp hr).1, hnone⟩, rfl⟩)
    · exact .inr ⟨after, (Snapshot.get_eq_some.mp hafter).1, before, hbefore, hne, rfl⟩

theorem changed_of_diffEntry {change : SdnChange} (h : DiffEntry previous current change) :
    Changed previous.fields current.fields change.uid change.change ∧
      change.record.map compared = current.fields change.uid := by
  cases h with
  | added r hprevious hcurrent =>
    simp [addedChange, Changed, Snapshot.fields, hprevious, hcurrent]
  | removed r hprevious hcurrent =>
    simp [removedChange, Changed, Snapshot.fields, hprevious, hcurrent]
  | modified before after hprevious hcurrent hne =>
    simp [Changed, Snapshot.fields, hprevious, hcurrent, hne]

theorem exists_change (kind : ChangeKind) (h : Changed previous.fields current.fields uid kind) :
    ∃ change ∈ diffSnapshots previous current, change.uid = uid ∧ change.change = kind := by
  have hfound : ∃ change, DiffEntry previous current change ∧ change.uid = uid := by
    cases hp : previous.get uid with
    | none =>
      cases hc : current.get uid with
      | none => exact absurd (changed_iff.mp ⟨kind, h⟩) (by simp [Snapshot.fields, hp, hc])
      | some r =>
        obtain rfl := (Snapshot.get_eq_some.mp hc).2
        exact ⟨_, .added r hp hc, rfl⟩
    | some before =>
      cases hc : current.get uid with
      | none =>
        obtain rfl := (Snapshot.get_eq_some.mp hp).2
        exact ⟨_, .removed before hp hc, rfl⟩
      | some after =>
        obtain rfl := (Snapshot.get_eq_some.mp hc).2
        refine ⟨_, .modified before after hp hc (fun heq ↦ ?_), rfl⟩
        exact absurd (changed_iff.mp ⟨kind, h⟩) (by simp [Snapshot.fields, hp, hc, heq])
  obtain ⟨change, hentry, rfl⟩ := hfound
  exact ⟨change, mem_diffSnapshots.mpr hentry, rfl, (changed_of_diffEntry hentry).1.unique h⟩

theorem filterMap_map_sublist {α β γ : Type*} {f : α → Option β} {h : β → γ} {k : α → γ}
    (hf : ∀ a b, f a = some b → h b = k a) (l : List α) : ((l.filterMap f).map h).Sublist (l.map k) := by
  induction l with
  | nil => exact .slnil
  | cons a l ih =>
    cases ha : f a with
    | none =>
      rw [filterMap_cons_none ha]
      exact ih.cons _
    | some b =>
      rw [filterMap_cons_some ha, map_cons, hf a b ha, map_cons]
      exact ih.cons_cons _

theorem diff_uids_nodup (previous current : Snapshot) :
    ((diffSnapshots previous current).map SdnChange.uid).Nodup := by
  rw [diffSnapshots, ((perm_insertionSort _ _).map SdnChange.uid).nodup_iff]
  simp only [map_append, nodup_append, mem_append, mem_map, mem_filter,
    mem_filterMap, Option.bind_eq_some_iff, Option.isNone_iff_eq_none]
  refine ⟨⟨?_, ?_, ?_⟩, ?_, ?_⟩
  · rw [map_map]
    exact current.distinct.sublist (filter_sublist.map _)
  · rw [map_map]
    exact previous.distinct.sublist (filter_sublist.map _)
  · rintro _ ⟨_, ⟨r, ⟨-, hnone⟩, rfl⟩, rfl⟩ _ ⟨_, ⟨r', ⟨hr', -⟩, rfl⟩, rfl⟩ heq
    have hsome := Snapshot.get_of_mem hr'
    rw [show r'.uid = r.uid from heq.symm, hnone] at hsome
    cases hsome
  · refine current.distinct.sublist (filterMap_map_sublist (fun after change h ↦ ?_) _)
    obtain ⟨before, -, hchange⟩ := Option.bind_eq_some_iff.mp h
    rw [(modifiedChange_eq_some.mp hchange).2]
  · rintro u (⟨_, ⟨r, ⟨-, hnone⟩, rfl⟩, rfl⟩ | ⟨_, ⟨r, ⟨-, hnone⟩, rfl⟩, rfl⟩) _
      ⟨change, ⟨after, hafter, before, hbefore, hchange⟩, rfl⟩ heq
    all_goals rw [(modifiedChange_eq_some.mp hchange).2] at heq
    · rw [show after.uid = r.uid from heq.symm, hnone] at hbefore
      cases hbefore
    · have hsome := Snapshot.get_of_mem hafter
      rw [show after.uid = r.uid from heq.symm, hnone] at hsome
      cases hsome

end Diff

section Stored

variable {rawPayloadId : ℕ} {fetchedAt : Instant}

theorem not_mem_changeName (kind : ChangeKind) : ':' ∉ (changeName kind).reverse := by
  cases kind <;> decide

theorem changeUrn_inj {uid uid' sha : Text} {kind kind' : ChangeKind}
    (h : changeUrn uid kind sha = changeUrn uid' kind' sha) : uid = uid' := by
  rw [changeUrn, changeUrn, append_assoc, append_assoc, append_assoc, append_assoc] at h
  have hrest := append_cancel_left h
  rw [← append_assoc, ← append_assoc] at hrest
  have hrev := congrArg List.reverse (append_cancel_right hrest)
  rw [reverse_append, reverse_append, reverse_cons, reverse_cons,
    append_assoc, append_assoc] at hrev
  have huid := congrArg (after ':') hrev
  rw [singleton_append, singleton_append, after_cons (not_mem_changeName kind),
    after_cons (not_mem_changeName kind')] at huid
  exact reverse_injective huid

theorem changeUrn_ne_nil (uid : Text) (kind : ChangeKind) (sha : Text) :
    changeUrn uid kind sha ≠ [] := by
  rw [changeUrn]
  exact append_ne_nil_of_right_ne_nil _ (cons_ne_nil _ _)

theorem touch_canonicalUrl (keys : List Text) (row : ArticleRow) :
    (touch keys fetchedAt row).canonicalUrl = row.canonicalUrl := by
  rw [touch]
  split <;> rfl

theorem touch_cons (key : Text) (keys : List Text) (row : ArticleRow) :
    touch keys fetchedAt (touch [key] fetchedAt row) = touch (key :: keys) fetchedAt row := by
  by_cases hkey : row.canonicalUrl = key
  · by_cases hkeys : key ∈ keys <;> simp [touch, hkey, hkeys]
  · by_cases hkeys : row.canonicalUrl ∈ keys <;> simp [touch, hkey, hkeys]

theorem storeArticles_rows {articles : List CollectedArticle} {seen : List Text}
    {rows : List ArticleRow} {counts : StoreCounts}
    (hnodup : (articles.map CollectedArticle.canonical).Nodup)
    (hnew : ∀ a ∈ articles, a.canonical ≠ [] ∧ a.canonical ∉ seen) :
    (storeArticles rawPayloadId fetchedAt articles seen rows counts).1 =
      rows.map (touch (articles.map CollectedArticle.canonical) fetchedAt) ++
        (articles.filter (fun a ↦ a.canonical ∉ rows.map ArticleRow.canonicalUrl)).map
          (rowOf rawPayloadId fetchedAt) := by
  induction articles generalizing seen rows counts with
  | nil =>
    have htouch : rows.map (touch [] fetchedAt) = rows :=
      (map_congr_left (fun row _ ↦ if_neg (not_mem_nil))).trans (map_id rows)
    simp [storeArticles, htouch]
  | cons article rest ih =>
    rw [map_cons, nodup_cons] at hnodup
    obtain ⟨⟨hne, hseen⟩, hrest⟩ := forall_mem_cons.mp hnew
    have hrest' : ∀ a ∈ rest, a.canonical ≠ [] ∧ a.canonical ∉ article.canonical :: seen := by
      intro a ha
      refine ⟨(hrest a ha).1, fun hmem ↦ ?_⟩
      rcases mem_cons.mp hmem with heq | hmem
      · exact hnodup.1 (heq ▸ mem_map.mpr ⟨a, ha, rfl⟩)
      · exact (hrest a ha).2 hmem
    simp only [storeArticles, if_neg (not_or.mpr ⟨hne, hseen⟩)]
    by_cases hheld : article.canonical ∈ rows.map ArticleRow.canonicalUrl
    · have hkeys : (rows.map (touch [article.canonical] fetchedAt)).map ArticleRow.canonicalUrl =
          rows.map ArticleRow.canonicalUrl := by
        rw [map_map]
        exact map_congr_left (fun row _ ↦ touch_canonicalUrl _ row)
      rw [if_pos hheld, ih hnodup.2 hrest', hkeys, filter_cons_of_neg (by simpa using hheld),
        map_map]
      congr 1
      exact map_congr_left (fun row _ ↦ touch_cons _ _ row)
    · rw [if_neg hheld, ih hnodup.2 hrest', filter_cons_of_pos (by simpa using hheld)]
      simp only [map_append, map_cons, map_nil, append_assoc, singleton_append]
      have htouch : touch (rest.map CollectedArticle.canonical) fetchedAt
          (rowOf rawPayloadId fetchedAt article) = rowOf rawPayloadId fetchedAt article :=
        if_neg hnodup.1
      rw [htouch]
      congr 1
      · refine map_congr_left (fun row hrow ↦ ?_)
        have hdiffer : row.canonicalUrl ≠ article.canonical := fun heq ↦
          hheld (heq ▸ mem_map.mpr ⟨row, hrow, rfl⟩)
        rw [← touch_cons]
        congr 1
        exact (if_neg (by simpa using hdiffer)).symm
      · congr 2
        refine filter_congr (fun a ha ↦ ?_)
        have hdiffer : a.canonical ≠ article.canonical := fun heq ↦
          hnodup.1 (heq ▸ mem_map.mpr ⟨a, ha, rfl⟩)
        simp [rowOf, hdiffer]

end Stored

section Account

variable (docs : Documents)

def fieldsOf (row : PayloadRow) : Text → Option (List (List Text)) :=
  (parseSdn docs row.body).fields

def Usable (row : PayloadRow) : Prop :=
  row.truncated = false ∧ (parseSdn docs row.body).records ≠ []

def Records (row : PayloadRow) (uid : Text) (kind : ChangeKind) (a : ArticleRow) : Prop :=
  a.rawPayloadId = row.id ∧ a.provenance.uid = uid ∧ a.provenance.change = kind

instance (row : PayloadRow) (uid : Text) (kind : ChangeKind) (a : ArticleRow) :
    Decidable (Records row uid kind a) := inferInstanceAs (Decidable (_ ∧ _ ∧ _))

def updateOf (a : ArticleRow) : Update Text (List (List Text)) :=
  ⟨a.provenance.uid, a.provenance.record.map compared⟩

structure Accounted (s : NewsStore) : Prop where
  once : ∀ p c, [p, c] <:+: s.payloads → Usable docs p → Usable docs c → ∀ uid kind,
    Changed (fieldsOf docs p) (fieldsOf docs c) uid kind →
      (s.articles.filter (fun a ↦ Records c uid kind a)).length = 1
  only : ∀ a ∈ s.articles, ∃ p c, [p, c] <:+: s.payloads ∧ Usable docs p ∧ Usable docs c ∧
    Changed (fieldsOf docs p) (fieldsOf docs c) a.provenance.uid a.provenance.change ∧
      Records c a.provenance.uid a.provenance.change a
  replayed : ∀ first last, s.payloads.head? = some first → s.payloads.getLast? = some last →
    (s.articles.map updateOf).foldl applyUpdate (fieldsOf docs first) = fieldsOf docs last

structure Intact (s : NewsStore) : Prop where
  ids : ∀ i row, s.payloads[i]? = some row → row.id = i + 1
  usable : ∀ row ∈ s.payloads, Usable docs row ∧ row.body ≠ []
  attached : ∀ a ∈ s.articles, a.rawPayloadId ≤ s.payloads.length

def Lost (s : NewsStore) : Prop :=
  ∃ p c, [p, c] <:+: s.payloads ∧ Usable docs p ∧ Usable docs c ∧ ∃ uid kind,
    Changed (fieldsOf docs p) (fieldsOf docs c) uid kind ∧
      ∀ a ∈ s.articles, ¬Records c uid kind a

structure Stores (s : NewsStore) (pass : CollectPass) (arrival : Arrival) : Prop where
  received : receive docs pass = .ok arrival
  changed : ∀ id, comparison docs s.payloads arrival ≠ .unchanged id
  wet : pass.dryRun = false
  stop : pass.stop ≠ .beforeSnapshot

def InOrder (s : NewsStore) (pass : CollectPass) : Prop :=
  ∀ arrival, Stores docs s pass arrival → ∀ row ∈ s.payloads, row.fetchedAt ≤ arrival.receivedAt

def derivedChanges (rows : List PayloadRow) (arrival : Arrival) : List SdnChange :=
  (comparison docs rows arrival).changes arrival.current

def urnOf (arrival : Arrival) (change : SdnChange) : Text :=
  changeUrn change.uid change.change (docs.sha256 arrival.body)

/-- The pass does not stop between its transactions with changes in hand, and none of
their URNs is taken. -/
def Undisturbed (s : NewsStore) (pass : CollectPass) : Prop :=
  ∀ arrival, Stores docs s pass arrival →
    ∀ change ∈ derivedChanges docs s.payloads arrival, pass.stop ≠ .beforeArticles ∧
      urnOf docs arrival change ∉ s.articles.map ArticleRow.canonicalUrl

def nextCollect (s : NewsStore) (pass : CollectPass) : Option NewsStore :=
  some (collect docs s pass).1

variable {docs} {s : NewsStore} {pass : CollectPass} {arrival : Arrival}

theorem Lost.not_accounted (h : Lost docs s) : ¬Accounted docs s := by
  rintro ⟨honce, -, -⟩
  obtain ⟨p, c, hinfix, hp, hc, uid, kind, hchanged, hnone⟩ := h
  have hone := honce p c hinfix hp hc uid kind hchanged
  rw [filter_eq_nil_iff.mpr (fun a ha ↦ by simpa using hnone a ha)] at hone
  cases hone

theorem Accounted.empty : Accounted docs .empty :=
  ⟨fun _ _ h ↦ absurd (infix_nil.mp h) (cons_ne_nil _ _), fun _ h ↦ (nomatch h),
    fun _ _ h ↦ (nomatch h)⟩

theorem Intact.empty : Intact docs .empty :=
  ⟨fun _ _ h ↦ (nomatch h), fun _ h ↦ (nomatch h), fun _ h ↦ (nomatch h)⟩

variable (docs) in
def changeRow (rows : List PayloadRow) (arrival : Arrival) (change : SdnChange) : ArticleRow :=
  rowOf (rows.length + 1) arrival.receivedAt (buildArticle (docs.sha256 arrival.body)
    (comparison docs rows arrival).previousSha arrival.receivedAt change)

theorem derivedChanges_nodup (docs : Documents) (rows : List PayloadRow) (arrival : Arrival) :
    ((derivedChanges docs rows arrival).map SdnChange.uid).Nodup := by
  rw [derivedChanges]
  cases comparison docs rows arrival with
  | against _ previous => exact diff_uids_nodup previous arrival.current
  | _ => exact nodup_nil

inductive Collected (docs : Documents) (s : NewsStore) (pass : CollectPass) : NewsStore → Prop
  | same : (∀ arrival, ¬Stores docs s pass arrival) → Collected docs s pass s
  | cut (arrival : Arrival) : Stores docs s pass arrival → pass.stop = .beforeArticles →
      Collected docs s pass ⟨s.payloads ++ [payloadRow docs s.payloads arrival], s.articles⟩
  | whole (arrival : Arrival) : Stores docs s pass arrival → pass.stop ≠ .beforeArticles →
      Collected docs s pass ⟨s.payloads ++ [payloadRow docs s.payloads arrival],
        s.articles.map (touch ((derivedChanges docs s.payloads arrival).map (urnOf docs arrival))
          arrival.receivedAt) ++
        ((derivedChanges docs s.payloads arrival).filter (fun change ↦
          urnOf docs arrival change ∉ s.articles.map ArticleRow.canonicalUrl)).map
            (changeRow docs s.payloads arrival)⟩

theorem stored_articles (docs : Documents) (s : NewsStore) (arrival : Arrival)
    (counts : StoreCounts) :
    (storeArticles (s.payloads.length + 1) arrival.receivedAt
      ((derivedChanges docs s.payloads arrival).map (buildArticle (docs.sha256 arrival.body)
        (comparison docs s.payloads arrival).previousSha arrival.receivedAt)) []
        s.articles counts).1 =
      s.articles.map (touch ((derivedChanges docs s.payloads arrival).map (urnOf docs arrival))
        arrival.receivedAt) ++
      ((derivedChanges docs s.payloads arrival).filter (fun change ↦
        urnOf docs arrival change ∉ s.articles.map ArticleRow.canonicalUrl)).map
          (changeRow docs s.payloads arrival) := by
  have huids := derivedChanges_nodup docs s.payloads arrival
  have hcanonical : ((derivedChanges docs s.payloads arrival).map (buildArticle
      (docs.sha256 arrival.body) (comparison docs s.payloads arrival).previousSha
        arrival.receivedAt)).map CollectedArticle.canonical =
      (derivedChanges docs s.payloads arrival).map (urnOf docs arrival) := by
    rw [map_map]
    rfl
  rw [storeArticles_rows, hcanonical, filter_map, map_map]
  · rfl
  · rw [hcanonical]
    refine List.Nodup.map_on (fun a ha b hb heq ↦ ?_) huids.of_map
    exact inj_on_of_nodup_map huids ha hb (changeUrn_inj heq)
  · intro a ha
    obtain ⟨change, -, rfl⟩ := mem_map.mp ha
    exact ⟨changeUrn_ne_nil _ _ _, not_mem_nil⟩

theorem collected_derive {against : Comparison} (hstores : Stores docs s pass arrival)
    (hagainst : comparison docs s.payloads arrival = against) :
    Collected docs s pass (derive docs s arrival against pass.stop).1 := by
  subst hagainst
  have hstored := stored_articles docs s arrival ⟨0, 0, 0⟩
  rw [derivedChanges] at hstored
  cases hstop : pass.stop with
  | beforeSnapshot => exact absurd hstop hstores.stop
  | beforeArticles => exact .cut arrival hstores hstop
  | beforeFinish | completes =>
    have hwhole := Collected.whole arrival hstores (by rw [hstop]; decide)
    rw [derivedChanges, ← hstored] at hwhole
    exact hwhole

theorem collect_collected (docs : Documents) (s : NewsStore) (pass : CollectPass) :
    Collected docs s pass (collect docs s pass).1 := by
  rw [collect]
  cases hreceive : receive docs pass with
  | error outcome =>
    refine .same (fun arrival hstores ↦ ?_)
    have hreceived := hstores.received
    rw [hreceive] at hreceived
    cases hreceived
  | ok arrival =>
    have hsame : ∀ arrival', Stores docs s pass arrival' → arrival' = arrival := by
      intro arrival' hstores
      have hreceived := hstores.received
      rw [hreceive] at hreceived
      exact (Except.ok.inj hreceived).symm
    have hrest : ∀ against, comparison docs s.payloads arrival = against →
        (∀ id, against ≠ .unchanged id) → Collected docs s pass
          (if pass.dryRun then (s, CollectOutcome.dry (against.changes arrival.current))
            else derive docs s arrival against pass.stop).1 := by
      intro against hagainst hchanged
      by_cases hdry : pass.dryRun
      · rw [if_pos hdry]
        refine .same (fun arrival' hstores ↦ ?_)
        rw [hstores.wet] at hdry
        cases hdry
      · rw [if_neg hdry]
        by_cases hstop : pass.stop = .beforeSnapshot
        · rw [hstop]
          exact .same (fun arrival' hstores ↦ hstores.stop hstop)
        · exact collected_derive ⟨hreceive, fun id ↦ hagainst ▸ hchanged id,
            Bool.eq_false_of_not_eq_true hdry, hstop⟩ hagainst
    dsimp only
    cases hcomparison : comparison docs s.payloads arrival with
    | unchanged id =>
      refine .same (fun arrival' hstores ↦ ?_)
      obtain rfl := hsame arrival' hstores
      exact hstores.changed id hcomparison
    | baseline reason => exact hrest _ hcomparison (fun _ h ↦ (nomatch h))
    | against previousSha previous => exact hrest _ hcomparison (fun _ h ↦ (nomatch h))

theorem payloadRow_spec (hstores : Stores docs s pass arrival) (rows : List PayloadRow) :
    Usable docs (payloadRow docs rows arrival) ∧ (payloadRow docs rows arrival).body ≠ [] ∧
      parseSdn docs (payloadRow docs rows arrival).body = arrival.current := by
  have hreceived := hstores.received
  rw [receive] at hreceived
  split at hreceived
  · cases hreceived
  split at hreceived
  · cases hreceived
  split_ifs at hreceived with hstatus hentries hlength
  · rename_i response _
    obtain rfl := Except.ok.inj hreceived
    have hbody : (payloadRow docs rows
        ⟨response.text, parseSdn docs response.text, response.receivedAt⟩).body = response.text :=
      take_of_length_le (not_lt.mp hlength)
    refine ⟨⟨?_, ?_⟩, ?_, ?_⟩
    · rw [payloadRow, take_of_length_le (not_lt.mp hlength)]
      exact decide_eq_false (lt_irrefl _)
    · rw [hbody]
      exact hentries
    · rw [hbody]
      rintro hnil
      rw [hnil, parseSdn, docs.parseXml_nil] at hentries
      exact hentries rfl
    · rw [hbody]

theorem Intact.id_le {row : PayloadRow} (h : Intact docs s) (hrow : row ∈ s.payloads) :
    row.id ≤ s.payloads.length := by
  obtain ⟨i, hi⟩ := mem_iff_getElem?.mp hrow
  rw [h.ids i row hi]
  exact (List.getElem?_eq_some_iff.mp hi).1

theorem touch_provenance (keys : List Text) (at_ : Instant) (a : ArticleRow) :
    (touch keys at_ a).provenance = a.provenance ∧
      (touch keys at_ a).rawPayloadId = a.rawPayloadId := by
  rw [touch]
  split <;> exact ⟨rfl, rfl⟩

theorem Collected.article {s' : NewsStore} (h : Collected docs s pass s') {a : ArticleRow}
    (ha : a ∈ s'.articles) :
    (∃ b ∈ s.articles, a.provenance = b.provenance ∧ a.rawPayloadId = b.rawPayloadId) ∨
      ∃ arrival, Stores docs s pass arrival ∧ pass.stop ≠ .beforeArticles ∧
        ∃ change ∈ derivedChanges docs s.payloads arrival,
          urnOf docs arrival change ∉ s.articles.map ArticleRow.canonicalUrl ∧
            a = changeRow docs s.payloads arrival change := by
  cases h with
  | same => exact .inl ⟨a, ha, rfl, rfl⟩
  | cut => exact .inl ⟨a, ha, rfl, rfl⟩
  | whole arrival hstores hstop =>
    rcases mem_append.mp ha with ha | ha
    · obtain ⟨b, hb, rfl⟩ := mem_map.mp ha
      exact .inl ⟨b, hb, touch_provenance _ _ b⟩
    · obtain ⟨change, hchange, rfl⟩ := mem_map.mp ha
      obtain ⟨hmem, hfresh⟩ := mem_filter.mp hchange
      exact .inr ⟨arrival, hstores, hstop, change, hmem, of_decide_eq_true hfresh, rfl⟩

theorem Collected.payloads {s' : NewsStore} (h : Collected docs s pass s') :
    s'.payloads = s.payloads ∨ ∃ arrival, Stores docs s pass arrival ∧
      s'.payloads = s.payloads ++ [payloadRow docs s.payloads arrival] := by
  cases h with
  | same => exact .inl rfl
  | cut arrival hstores => exact .inr ⟨arrival, hstores, rfl⟩
  | whole arrival hstores => exact .inr ⟨arrival, hstores, rfl⟩

theorem Collected.intact {s' : NewsStore} (h : Collected docs s pass s') (hs : Intact docs s) :
    Intact docs s' := by
  have hattached : ∀ a ∈ s'.articles, a.rawPayloadId ≤ s'.payloads.length := by
    intro a ha
    have hlength : s.payloads.length ≤ s'.payloads.length := by
      obtain heq | ⟨_, _, heq⟩ := h.payloads <;> simp [heq]
    obtain ⟨b, hb, -, heq⟩ | ⟨arrival, hstores, hstop, change, -, -, rfl⟩ := h.article ha
    · rw [heq]
      exact (hs.attached b hb).trans hlength
    · cases h with
      | same hnone => exact absurd hstores (hnone arrival)
      | cut _ _ hcut => exact absurd hcut hstop
      | whole => simp [changeRow, rowOf]
  obtain heq | ⟨arrival, hstores, heq⟩ := h.payloads
  · exact ⟨heq ▸ hs.ids, heq ▸ hs.usable, hattached⟩
  · refine ⟨fun i row hi ↦ ?_, fun row hrow ↦ ?_, hattached⟩
    · rw [heq, getElem?_append] at hi
      split at hi
      · exact hs.ids i row hi
      · rename_i hge
        obtain ⟨hlt, hget⟩ := List.getElem?_eq_some_iff.mp hi
        rw [length_singleton] at hlt
        obtain rfl : i = s.payloads.length := by omega
        rw [← hget]
        simp [payloadRow]
    · rw [heq] at hrow
      rcases mem_append.mp hrow with hrow | hrow
      · exact hs.usable row hrow
      · obtain rfl := mem_singleton.mp hrow
        have hspec := payloadRow_spec hstores s.payloads
        exact ⟨hspec.1, hspec.2.1⟩

theorem Collected.lost {s' : NewsStore} (h : Collected docs s pass s') (hs : Intact docs s)
    (hlost : Lost docs s) : Lost docs s' := by
  obtain ⟨p, c, hinfix, hp, hc, uid, kind, hchanged, hnone⟩ := hlost
  have hmem : c ∈ s.payloads := hinfix.subset (by simp)
  refine ⟨p, c, ?_, hp, hc, uid, kind, hchanged, fun a ha hrecords ↦ ?_⟩
  · obtain heq | ⟨_, _, heq⟩ := h.payloads <;> rw [heq]
    · exact hinfix
    · exact hinfix.trans (prefix_append _ _).isInfix
  · obtain ⟨b, hb, hprovenance, hid⟩ | ⟨_, _, _, _, _, _, rfl⟩ := h.article ha
    · refine hnone b hb ?_
      rw [Records, ← hprovenance, ← hid]
      exact hrecords
    · have hid : s.payloads.length + 1 = c.id := hrecords.1
      have hle := hs.id_le hmem
      omega

def Stamped (s : NewsStore) : Prop := s.payloads.Pairwise (fun a b ↦ a.fetchedAt ≤ b.fetchedAt)

theorem Collected.stamped {s' : NewsStore} (h : Collected docs s pass s') (hs : Stamped s)
    (horder : InOrder docs s pass) : Stamped s' := by
  obtain heq | ⟨arrival, hstores, heq⟩ := h.payloads
  · rw [Stamped, heq]
    exact hs
  · rw [Stamped, heq, pairwise_append]
    refine ⟨hs, pairwise_singleton _ _, fun row hrow row' hrow' ↦ ?_⟩
    obtain rfl := mem_singleton.mp hrow'
    exact horder arrival hstores row hrow

theorem latestRawPayload_last (hs : Intact docs s) (hstamped : Stamped s) {front : List PayloadRow}
    {p : PayloadRow} (hlast : s.payloads = front ++ [p]) :
    latestRawPayload s.payloads = some p := by
  refine latest_one (by simp [hlast]) (fun row hrow ↦ ?_)
  rw [hlast] at hrow
  rcases mem_append.mp hrow with hfront | hrow
  · right
    rw [Stamped, hlast, pairwise_append] at hstamped
    have hp : p.id = front.length + 1 := hs.ids front.length p (by simp [hlast])
    obtain ⟨i, hi⟩ := mem_iff_getElem?.mp hfront
    have hlt := (List.getElem?_eq_some_iff.mp hi).1
    have hid : row.id = i + 1 := hs.ids i row (by rw [hlast, getElem?_append_left hlt, hi])
    have htime := hstamped.2.2 row hfront p mem_cons_self
    rw [Prod.Lex.toLex_lt_toLex]
    exact htime.lt_or_eq.imp_right (fun heq ↦ ⟨heq, by omega⟩)
  · exact .inl (mem_singleton.mp hrow)

theorem comparison_last (hs : Intact docs s) (hstamped : Stamped s)
    (hstores : Stores docs s pass arrival) {front : List PayloadRow} {p : PayloadRow}
    (hlast : s.payloads = front ++ [p]) :
    comparison docs s.payloads arrival = .against p.bodySha256 (parseSdn docs p.body) := by
  have hchanged := hstores.changed
  obtain ⟨⟨htruncated, hrecords⟩, hbody⟩ := hs.usable p (by simp [hlast])
  rw [comparison, latestRawPayload_last hs hstamped hlast] at hchanged ⊢
  dsimp only at hchanged ⊢
  by_cases hsame : p.bodySha256 = docs.sha256 arrival.body
  · exact absurd (if_pos hsame) (hchanged p.id)
  · rw [if_neg hsame, if_neg (by simp [htruncated, hbody]), if_neg hrecords]

theorem derivedChanges_last (hs : Intact docs s) (hstamped : Stamped s)
    (hstores : Stores docs s pass arrival) {front : List PayloadRow} {p : PayloadRow}
    (hlast : s.payloads = front ++ [p]) {change : SdnChange} :
    change ∈ derivedChanges docs s.payloads arrival ↔
      DiffEntry (parseSdn docs p.body) arrival.current change := by
  rw [derivedChanges, comparison_last hs hstamped hstores hlast]
  exact mem_diffSnapshots

theorem derivedChanges_first (hfirst : s.payloads = []) :
    derivedChanges docs s.payloads arrival = [] := by
  rw [hfirst]
  rfl

theorem pair_infix_concat {α : Type*} {l : List α} {x y z : α} :
    [x, y] <:+: l ++ [z] ↔ [x, y] <:+: l ∨ (∃ front, l = front ++ [x]) ∧ y = z := by
  rw [infix_concat_iff, suffix_concat_iff, or_comm]
  refine or_congr_right ?_
  constructor
  · rintro (h | ⟨t, h, hsuffix⟩)
    · cases h
    · obtain ⟨rfl, hz⟩ := append_inj' (show [x] ++ [y] = t ++ [z] from h) rfl
      obtain ⟨front, hfront⟩ := hsuffix
      exact ⟨⟨front, hfront.symm⟩, singleton_inj.mp hz⟩
  · rintro ⟨⟨front, hfront⟩, rfl⟩
    exact .inr ⟨[x], rfl, front, hfront.symm⟩

theorem filter_length_one {α β : Type*} [DecidableEq β] {l : List α} {f : α → β} {p : α → Bool}
    {a : α} (hnodup : (l.map f).Nodup) (ha : a ∈ l) (hp : ∀ b ∈ l, p b = true ↔ f b = f a) :
    (l.filter p).length = 1 := by
  have hcount := count_eq_one_of_mem hnodup (mem_map.mpr ⟨a, ha, rfl⟩)
  rw [List.count, countP_map, countP_eq_length_filter] at hcount
  rw [← hcount]
  refine congrArg List.length (filter_congr (fun b hb ↦ ?_))
  rw [Bool.eq_iff_iff, hp b hb]
  simp

theorem Collected.lost_of_disturbed {s' : NewsStore} (h : Collected docs s pass s')
    (hs : Intact docs s) (hstamped : Stamped s) (hdisturbed : ¬Undisturbed docs s pass) :
    Lost docs s' := by
  simp only [Undisturbed, not_forall] at hdisturbed
  obtain ⟨arrival, hstores, change, hchange, hnot⟩ := hdisturbed
  obtain hfirst | ⟨front, p, hlast⟩ := eq_nil_or_concat' s.payloads
  · rw [derivedChanges_first hfirst] at hchange
    cases hchange
  have hentry := (derivedChanges_last hs hstamped hstores hlast).mp hchange
  have hspec := payloadRow_spec hstores s.payloads
  have hsame : ∀ arrival', Stores docs s pass arrival' → arrival' = arrival := by
    intro arrival' hstores'
    have hreceived := hstores'.received
    rw [hstores.received] at hreceived
    exact (Except.ok.inj hreceived).symm
  refine ⟨p, payloadRow docs s.payloads arrival, ?_, (hs.usable p (by simp [hlast])).1, hspec.1,
    change.uid, change.change, ?_, fun a ha hrecords ↦ ?_⟩
  · obtain hsame' | ⟨arrival', hstores', heq⟩ := h.payloads
    · cases h with
      | same hnone => exact absurd hstores (hnone arrival)
      | cut | whole => exact absurd (congrArg List.length hsame') (by simp)
    · rw [heq, hsame arrival' hstores']
      exact pair_infix_concat.mpr (.inr ⟨⟨front, hlast⟩, rfl⟩)
  · rw [fieldsOf, fieldsOf, hspec.2.2]
    exact (changed_of_diffEntry hentry).1
  · obtain ⟨b, hb, -, hid⟩ | ⟨arrival', hstores', hstop, change', hchange', hfresh, rfl⟩ := h.article ha
    · have hle := hs.attached b hb
      have hrow : a.rawPayloadId = s.payloads.length + 1 := hrecords.1
      omega
    · obtain rfl := hsame arrival' hstores'
      have huid : change'.uid = change.uid := hrecords.2.1
      have hkind : change'.change = change.change := hrecords.2.2
      rw [urnOf, huid, hkind] at hfresh
      exact hnot ⟨hstop, hfresh⟩

theorem filter_records_map {g : ArticleRow → ArticleRow}
    (hg : ∀ a, (g a).provenance = a.provenance ∧ (g a).rawPayloadId = a.rawPayloadId)
    (row : PayloadRow) (uid : Text) (kind : ChangeKind) (l : List ArticleRow) :
    ((l.map g).filter (fun a ↦ Records row uid kind a)).length =
      (l.filter (fun a ↦ Records row uid kind a)).length := by
  rw [filter_map, length_map]
  refine congrArg List.length (filter_congr (fun a _ ↦ ?_))
  exact decide_eq_decide.mpr (by rw [Records, Records, (hg a).1, (hg a).2])

theorem Accounted.append (hacc : Accounted docs s) (hs : Intact docs s) (hstamped : Stamped s)
    (hstores : Stores docs s pass arrival) {g : ArticleRow → ArticleRow}
    (hg : ∀ a, (g a).provenance = a.provenance ∧ (g a).rawPayloadId = a.rawPayloadId) :
    Accounted docs ⟨s.payloads ++ [payloadRow docs s.payloads arrival], s.articles.map g ++
        (derivedChanges docs s.payloads arrival).map (changeRow docs s.payloads arrival)⟩ := by
  obtain hfirst | ⟨front, p, hlast⟩ := eq_nil_or_concat' s.payloads
  · have hnone : s.articles = [] := eq_nil_iff_forall_not_mem.mpr (fun a ha ↦ by
      obtain ⟨_, _, hinfix, -⟩ := hacc.only a ha
      rw [hfirst] at hinfix
      exact absurd (infix_nil.mp hinfix) (cons_ne_nil _ _))
    rw [derivedChanges_first hfirst, hnone, hfirst]
    refine ⟨fun x y hinfix ↦ ?_, fun a ha ↦ (nomatch ha), fun first last hhead hlast ↦ ?_⟩
    · exact absurd hinfix.length_le (by simp)
    · obtain rfl := Option.some.inj hhead
      obtain rfl := Option.some.inj hlast
      rfl
  have hspec := payloadRow_spec hstores s.payloads
  have hp := hs.usable p (by simp [hlast])
  have hfields : fieldsOf docs (payloadRow docs s.payloads arrival) = arrival.current.fields := by
    rw [fieldsOf, hspec.2.2]
  have hderived : ∀ change, change ∈ derivedChanges docs s.payloads arrival ↔
      DiffEntry (parseSdn docs p.body) arrival.current change :=
    fun change ↦ derivedChanges_last hs hstamped hstores hlast
  refine ⟨fun x y hinfix hx hy uid kind hchanged ↦ ?_, fun a ha ↦ ?_,
    fun first last hhead hend ↦ ?_⟩
  · rw [filter_append, length_append, filter_records_map hg]
    rcases pair_infix_concat.mp hinfix with hold | ⟨⟨front', hfront'⟩, rfl⟩
    · have hle := hs.id_le (hold.subset (show y ∈ [x, y] by simp))
      have hnew : ((derivedChanges docs s.payloads arrival).map
          (changeRow docs s.payloads arrival)).filter (fun a ↦ Records y uid kind a) = [] := by
        refine filter_eq_nil_iff.mpr (fun a ha ↦ ?_)
        obtain ⟨change, -, rfl⟩ := mem_map.mp ha
        simp only [decide_eq_true_eq]
        rintro ⟨hid, -⟩
        have hid' : s.payloads.length + 1 = y.id := hid
        omega
      rw [hnew, hacc.once x y hold hx hy uid kind hchanged]
      rfl
    · obtain ⟨-, hsame⟩ := append_inj' (hlast.symm.trans hfront') rfl
      obtain rfl := singleton_inj.mp hsame
      have hold : s.articles.filter (fun a ↦
          Records (payloadRow docs s.payloads arrival) uid kind a) = [] := by
        refine filter_eq_nil_iff.mpr (fun a ha ↦ ?_)
        simp only [decide_eq_true_eq]
        rintro ⟨hid, -⟩
        have hid' : a.rawPayloadId = s.payloads.length + 1 := hid
        have hle := hs.attached a ha
        omega
      rw [hfields] at hchanged
      obtain ⟨change, hmem, rfl, rfl⟩ := exists_change kind hchanged
      rw [mem_diffSnapshots] at hmem
      rw [hold, filter_map, length_map, length_nil, Nat.zero_add]
      refine filter_length_one (derivedChanges_nodup docs s.payloads arrival)
        ((hderived change).mpr hmem) (fun other hother ↦ ?_)
      simp only [Function.comp, decide_eq_true_eq]
      constructor
      · exact fun h ↦ h.2.1
      · intro huid
        have hother' := inj_on_of_nodup_map (derivedChanges_nodup docs s.payloads arrival)
          hother ((hderived change).mpr hmem) huid
        subst hother'
        exact ⟨rfl, rfl, rfl⟩
  · rcases mem_append.mp ha with ha | ha
    · obtain ⟨b, hb, rfl⟩ := mem_map.mp ha
      obtain ⟨x, y, hinfix, hx, hy, hchanged, hrecords⟩ := hacc.only b hb
      refine ⟨x, y, hinfix.trans (prefix_append _ _).isInfix, hx, hy, ?_, ?_, rfl, rfl⟩
      · rw [(hg b).1]
        exact hchanged
      · rw [(hg b).2]
        exact hrecords.1
    · obtain ⟨change, hchange, rfl⟩ := mem_map.mp ha
      refine ⟨p, payloadRow docs s.payloads arrival, ?_, hp.1, hspec.1, ?_, rfl, rfl, rfl⟩
      · exact pair_infix_concat.mpr (.inr ⟨⟨front, hlast⟩, rfl⟩)
      · rw [hfields]
        exact (changed_of_diffEntry ((hderived change).mp hchange)).1
  · rw [getLast?_concat] at hend
    obtain rfl := Option.some.inj hend
    have hhead' : s.payloads.head? = some first := by
      rw [← hhead, hlast]
      cases front <;> rfl
    have hreplayed := hacc.replayed first p hhead' (by rw [hlast, getLast?_concat])
    have hmap : (s.articles.map g).map updateOf = s.articles.map updateOf := by
      rw [map_map]
      exact map_congr_left (fun a _ ↦ by simp only [Function.comp, updateOf, (hg a).1])
    rw [map_append, foldl_append, hmap, hreplayed, hfields]
    refine foldl_applyUpdate_eq (fun u hu ↦ ?_) (fun uid hne ↦ ?_)
    · obtain ⟨_, ha, rfl⟩ := mem_map.mp hu
      obtain ⟨change, hchange, rfl⟩ := mem_map.mp ha
      exact (changed_of_diffEntry ((hderived change).mp hchange)).2
    · obtain ⟨kind, hchanged⟩ := changed_iff.mpr hne
      obtain ⟨change, hmem, rfl, -⟩ := exists_change kind hchanged
      rw [map_map, map_map]
      exact mem_map.mpr ⟨change, (hderived change).mpr (mem_diffSnapshots.mp hmem), rfl⟩

theorem Collected.accounted {s' : NewsStore} (h : Collected docs s pass s') (hs : Intact docs s)
    (hstamped : Stamped s) (hacc : Accounted docs s) (hundisturbed : Undisturbed docs s pass) :
    Accounted docs s' := by
  cases h with
  | same => exact hacc
  | cut arrival hstores hstop =>
    have hnone : derivedChanges docs s.payloads arrival = [] :=
      eq_nil_iff_forall_not_mem.mpr (fun change hchange ↦
        (hundisturbed arrival hstores change hchange).1 hstop)
    have hkept := hacc.append hs hstamped hstores (g := id) (fun _ ↦ ⟨rfl, rfl⟩)
    rwa [hnone, map_nil, append_nil, map_id] at hkept
  | whole arrival hstores hstop =>
    rw [filter_eq_self.mpr (fun change hchange ↦
      decide_eq_true (hundisturbed arrival hstores change hchange).2)]
    exact hacc.append hs hstamped hstores (touch_provenance _ _)

theorem accounted_iff_of_run {passes : List CollectPass} {t : NewsStore}
    (h : Run (nextCollect docs) (InOrder docs) s passes t) (hs : Intact docs s)
    (hstamped : Stamped s) :
    (Lost docs s → Lost docs t) ∧
      (Accounted docs s → (Accounted docs t ↔ Run (nextCollect docs) (Undisturbed docs) s passes t)) := by
  induction h with
  | nil s => exact ⟨id, fun hacc ↦ ⟨fun _ ↦ .nil s, fun _ ↦ hacc⟩⟩
  | @cons s s' t pass passes horder hnext _ ih =>
    obtain rfl := Option.some.inj hnext
    have hcollected := collect_collected docs s pass
    obtain ⟨ihlost, ihacc⟩ := ih (hcollected.intact hs) (hcollected.stamped hstamped horder)
    refine ⟨fun hlost ↦ ihlost (hcollected.lost hs hlost), fun hacc ↦ ?_⟩
    by_cases hundisturbed : Undisturbed docs s pass
    · rw [ihacc (hcollected.accounted hs hstamped hacc hundisturbed)]
      constructor
      · exact fun hrest ↦ .cons hundisturbed rfl hrest
      · rintro (_ | ⟨-, hnext', hrest⟩)
        obtain rfl := Option.some.inj hnext'
        exact hrest
    · have hlost := ihlost (hcollected.lost_of_disturbed hs hstamped hundisturbed)
      refine iff_of_false hlost.not_accounted ?_
      rintro (_ | ⟨hund, -, -⟩)
      exact hundisturbed hund

/-- Over every run of passes whose snapshots are stamped in order, no list change is lost
or invented if and only if no pass is disturbed. -/
theorem changes_accounted_iff (docs : Documents) {passes : List CollectPass} {t : NewsStore}
    (h : Run (nextCollect docs) (InOrder docs) .empty passes t) :
    Accounted docs t ↔ Run (nextCollect docs) (Undisturbed docs) .empty passes t :=
  (accounted_iff_of_run h .empty .nil).2 .empty

end Account

section Example

variable {docs : Documents} {s : NewsStore} {pass : CollectPass}

theorem nextCollect_eq : nextCollect docs s pass = some (collect docs s pass).1 := rfl

theorem inOrder_of_response (h : ∀ response, pass.response = some response →
    ∀ row ∈ s.payloads, row.fetchedAt ≤ response.receivedAt) : InOrder docs s pass := by
  intro arrival hstores
  have hreceived := hstores.received
  rw [receive] at hreceived
  split at hreceived
  · cases hreceived
  split at hreceived
  · cases hreceived
  rename_i response hresponse
  split_ifs at hreceived
  · obtain rfl := Except.ok.inj hreceived
    exact h response hresponse

theorem undisturbed_of_no_articles (h : s.articles = []) (hstop : pass.stop ≠ .beforeArticles) :
    Undisturbed docs s pass := by
  intro arrival _ change _
  rw [h]
  exact ⟨hstop, not_mem_nil⟩

def entryNode (uid : String) : Node :=
  .element "sdnEntry".toList [] [.element "uid".toList uid.toList []]

def oneEntry : String := "<sdnList><sdnEntry><uid>1</uid></sdnEntry></sdnList>"

def twoEntries : String :=
  "<sdnList><sdnEntry><uid>1</uid></sdnEntry>" ++
    "<sdnEntry><uid>2</uid></sdnEntry></sdnList>"

theorem toList_oneEntry : ∃ rest : Text, oneEntry.toList = '<' :: rest ∧ rest.length = 51 :=
  ⟨_, String.toList_ofList, rfl⟩

theorem toList_twoEntries : ∃ rest : Text, twoEntries.toList = '<' :: rest ∧ rest.length = 84 :=
  ⟨_, String.toList_append.trans
    (congrArg₂ (· ++ ·) String.toList_ofList String.toList_ofList), rfl⟩

theorem twoEntries_ne : twoEntries.toList ≠ oneEntry.toList := by
  obtain ⟨one, hone, hlength⟩ := toList_oneEntry
  obtain ⟨two, htwo, hlength'⟩ := toList_twoEntries
  rw [hone, htwo]
  intro h
  rw [(List.cons.inj h).2, hlength] at hlength'
  cases hlength'

def twoDocuments : Documents where
  parseXml body :=
    if body = oneEntry.toList then some (.element "sdnList".toList [] [entryNode "1"])
    else if body = twoEntries.toList then
      some (.element "sdnList".toList [] [entryNode "1", entryNode "2"])
    else none
  parseXml_nil := by
    obtain ⟨_, hone, -⟩ := toList_oneEntry
    obtain ⟨_, htwo, -⟩ := toList_twoEntries
    rw [hone, htwo, if_neg (cons_ne_nil _ _).symm, if_neg (cons_ne_nil _ _).symm]
  sha256 body :=
    if body = oneEntry.toList then
      "030d2b77238d603025e0525010125e6e857ca7cf556d502b985c90785873f544".toList
    else "3b6a7ef8a552961d21c76d8d0df1199a334333abca6084e9eba1052a604a2559".toList

def passOf (body : String) (receivedAt : Instant) (stop : Stop) : CollectPass where
  gated := false
  response := some ⟨some 200, body.toList, receivedAt⟩
  dryRun := false
  stop := stop

theorem parseXml_oneEntry : twoDocuments.parseXml oneEntry.toList =
    some (.element "sdnList".toList [] [entryNode "1"]) := by
  simp only [twoDocuments, if_true]

theorem parseXml_twoEntries : twoDocuments.parseXml twoEntries.toList =
    some (.element "sdnList".toList [] [entryNode "1", entryNode "2"]) := by
  simp only [twoDocuments, if_neg twoEntries_ne, if_true]

theorem sha256_ne : twoDocuments.sha256 oneEntry.toList ≠
    twoDocuments.sha256 twoEntries.toList := by
  simp only [twoDocuments, if_neg twoEntries_ne, if_true]
  intro h
  have hlists := String.toList_ofList.symm.trans (h.trans String.toList_ofList)
  exact absurd (List.cons.inj hlists).1 (by decide)

theorem uids_oneEntry : (parseSdn twoDocuments oneEntry.toList).records.map SdnRecord.uid =
    ["1".toList] := by
  have hlist : "sdnList".toList = ['s', 'd', 'n', 'L', 'i', 's', 't'] := String.toList_ofList
  have hentry : "sdnEntry".toList = ['s', 'd', 'n', 'E', 'n', 't', 'r', 'y'] := String.toList_ofList
  have huid : "uid".toList = ['u', 'i', 'd'] := String.toList_ofList
  have hone : "1".toList = ['1'] := String.toList_ofList
  rw [parseSdn, parseXml_oneEntry]
  simp only [entryNode, hlist, hentry, huid, hone]
  decide +kernel

theorem uids_twoEntries : (parseSdn twoDocuments twoEntries.toList).records.map SdnRecord.uid =
    ["1".toList, "2".toList] := by
  have hlist : "sdnList".toList = ['s', 'd', 'n', 'L', 'i', 's', 't'] := String.toList_ofList
  have hentry : "sdnEntry".toList = ['s', 'd', 'n', 'E', 'n', 't', 'r', 'y'] := String.toList_ofList
  have huid : "uid".toList = ['u', 'i', 'd'] := String.toList_ofList
  have hone : "1".toList = ['1'] := String.toList_ofList
  have htwo : "2".toList = ['2'] := String.toList_ofList
  rw [parseSdn, parseXml_twoEntries]
  simp only [entryNode, hlist, hentry, huid, hone, htwo]
  decide +kernel

def arrivalOf (body : String) (receivedAt : Instant) : Arrival :=
  ⟨body.toList, parseSdn twoDocuments body.toList, receivedAt⟩

theorem receive_passOf {body : String} (hbody : body = oneEntry ∨ body = twoEntries)
    (receivedAt : Instant) (stop : Stop) :
    receive twoDocuments (passOf body receivedAt stop) = .ok (arrivalOf body receivedAt) := by
  have hentries : (parseSdn twoDocuments body.toList).records ≠ [] := by
    intro hnil
    rcases hbody with rfl | rfl
    · have huids := uids_oneEntry
      rw [hnil] at huids
      cases huids
    · have huids := uids_twoEntries
      rw [hnil] at huids
      cases huids
  have hlength : body.toList.length ≤ maxStoredBodyChars := by
    rcases hbody with rfl | rfl
    · obtain ⟨_, hone, hlength⟩ := toList_oneEntry
      rw [hone, length_cons, hlength]
      decide
    · obtain ⟨_, htwo, hlength⟩ := toList_twoEntries
      rw [htwo, length_cons, hlength]
      decide
  simp [receive, passOf, arrivalOf, hentries, not_lt.mpr hlength]

theorem stores_passOf {body : String} (hbody : body = oneEntry ∨ body = twoEntries)
    {receivedAt : Instant} {stop : Stop} (hstop : stop ≠ .beforeSnapshot)
    (hlatest : ∀ row, latestRawPayload s.payloads = some row →
      row.bodySha256 ≠ twoDocuments.sha256 (arrivalOf body receivedAt).body) :
    Stores twoDocuments s (passOf body receivedAt stop) (arrivalOf body receivedAt) where
  received := receive_passOf hbody receivedAt stop
  changed := by
    intro id
    rw [comparison]
    split
    next => simp
    next row hrow =>
      rw [if_neg (hlatest row hrow)]
      split_ifs <;> simp
  wet := rfl
  stop := hstop

theorem Stores.collect_eq {arrival : Arrival} (hstores : Stores docs s pass arrival)
    (hnone : pass.stop ≠ .beforeArticles → s = .empty) :
    (collect docs s pass).1 = ⟨s.payloads ++ [payloadRow docs s.payloads arrival], s.articles⟩ := by
  have hcollected := collect_collected docs s pass
  have hsame : ∀ arrival', Stores docs s pass arrival' → arrival' = arrival := by
    intro arrival' hstores'
    have hreceived := hstores'.received
    rw [hstores.received] at hreceived
    exact (Except.ok.inj hreceived).symm
  generalize (collect docs s pass).1 = s' at hcollected
  cases hcollected with
  | same hnot => exact absurd hstores (hnot arrival)
  | cut arrival' hstores' => rw [hsame arrival' hstores']
  | whole arrival' hstores' hstop =>
    rw [hsame arrival' hstores', derivedChanges_first (by rw [hnone hstop]; rfl), hnone hstop]
    rfl

theorem collect_unchanged {arrival : Arrival} {row : PayloadRow}
    (hreceive : receive docs pass = .ok arrival) (hrow : latestRawPayload s.payloads = some row)
    (hsha : row.bodySha256 = docs.sha256 arrival.body) : (collect docs s pass).1 = s := by
  rw [collect, hreceive]
  dsimp only
  rw [comparison, hrow]
  dsimp only
  rw [if_pos hsha]

def firstRow : PayloadRow := payloadRow twoDocuments [] (arrivalOf oneEntry 1)

def secondRow : PayloadRow := payloadRow twoDocuments [firstRow] (arrivalOf twoEntries 2)

def firstStored : NewsStore := (collect twoDocuments .empty (passOf oneEntry 1 .completes)).1

theorem stores_first : Stores twoDocuments .empty (passOf oneEntry 1 .completes)
    (arrivalOf oneEntry 1) :=
  stores_passOf (.inl rfl) (by decide) fun _ hrow ↦ by cases hrow

theorem firstStored_eq : firstStored = ⟨[firstRow], []⟩ :=
  stores_first.collect_eq fun _ ↦ rfl

theorem stores_second {stop : Stop} (hstop : stop ≠ .beforeSnapshot) :
    Stores twoDocuments firstStored (passOf twoEntries 2 stop) (arrivalOf twoEntries 2) := by
  refine stores_passOf (.inr rfl) hstop fun row hrow ↦ ?_
  rw [firstStored_eq] at hrow
  obtain rfl := Option.some.inj hrow
  rw [firstRow, payloadRow, arrivalOf, arrivalOf]
  dsimp only
  exact sha256_ne

theorem stores_second_completes :
    Stores twoDocuments firstStored (passOf twoEntries 2 .completes) (arrivalOf twoEntries 2) :=
  stores_second (by decide)

theorem inOrder_passOf {body : String} {receivedAt : Instant} {stop : Stop}
    (h : ∀ row ∈ s.payloads, row.fetchedAt ≤ receivedAt) :
    InOrder twoDocuments s (passOf body receivedAt stop) := by
  refine inOrder_of_response fun response hresponse row hrow ↦ ?_
  obtain rfl := Option.some.inj hresponse
  exact h row hrow

theorem firstStored_run (stop : Stop) (rest : List CollectPass) {t : NewsStore}
    (h : Run (nextCollect twoDocuments) (InOrder twoDocuments)
      (collect twoDocuments firstStored (passOf twoEntries 2 stop)).1 rest t) :
    Run (nextCollect twoDocuments) (InOrder twoDocuments) .empty
      (passOf oneEntry 1 .completes :: passOf twoEntries 2 stop :: rest) t := by
  have hfirst : InOrder twoDocuments .empty (passOf oneEntry 1 .completes) :=
    inOrder_passOf fun _ hrow ↦ absurd hrow not_mem_nil
  have hsecond : InOrder twoDocuments firstStored (passOf twoEntries 2 stop) := by
    refine inOrder_passOf fun row hrow ↦ ?_
    rw [firstStored_eq] at hrow
    obtain rfl := mem_singleton.mp hrow
    exact show (1 : ℤ) ≤ 2 by decide
  rw [firstStored] at hsecond h
  exact .cons hfirst nextCollect_eq (.cons hsecond nextCollect_eq h)

theorem added_entry_accounted : Accounted twoDocuments
    (collect twoDocuments firstStored (passOf twoEntries 2 .completes)).1 := by
  have hnone : firstStored.articles = [] := by rw [firstStored_eq]
  have hfirst : Undisturbed twoDocuments .empty (passOf oneEntry 1 .completes) :=
    undisturbed_of_no_articles rfl (by decide)
  have hsecond : Undisturbed twoDocuments firstStored (passOf twoEntries 2 .completes) :=
    undisturbed_of_no_articles hnone (by decide)
  refine (changes_accounted_iff twoDocuments (firstStored_run .completes [] (.nil _))).mpr ?_
  rw [firstStored] at hsecond ⊢
  exact .cons hfirst nextCollect_eq (.cons hsecond nextCollect_eq (.nil _))

def cutStored : NewsStore :=
  (collect twoDocuments firstStored (passOf twoEntries 2 .beforeArticles)).1

theorem cutStored_eq : cutStored = ⟨[firstRow, secondRow], []⟩ := by
  have hstores : Stores twoDocuments firstStored (passOf twoEntries 2 .beforeArticles)
      (arrivalOf twoEntries 2) := stores_second (by decide)
  have hcut := hstores.collect_eq fun h ↦ (h rfl).elim
  rw [firstStored_eq] at hcut
  exact (congrArg (fun s ↦ (collect twoDocuments s (passOf twoEntries 2 .beforeArticles)).1)
    firstStored_eq).trans hcut

theorem fields_eq_none {snapshot : Snapshot} {uid : Text} :
    snapshot.fields uid = none ↔ uid ∉ snapshot.records.map SdnRecord.uid := by
  simp [Snapshot.fields, Snapshot.get]

theorem second_added : Changed (fieldsOf twoDocuments firstRow) (fieldsOf twoDocuments secondRow)
    "2".toList .added := by
  obtain ⟨-, -, hone⟩ := payloadRow_spec stores_first []
  obtain ⟨-, -, htwo⟩ := payloadRow_spec stores_second_completes [firstRow]
  rw [Changed, fieldsOf, fieldsOf, firstRow, secondRow, hone, htwo]
  refine ⟨fields_eq_none.mpr ?_, Option.isSome_iff_ne_none.mpr (mt fields_eq_none.mp ?_)⟩
  · simp [arrivalOf, uids_oneEntry]
  · simp [arrivalOf, uids_twoEntries]

theorem cut_pass_loses_change :
    Run (nextCollect twoDocuments) (InOrder twoDocuments) .empty
      [passOf oneEntry 1 .completes, passOf twoEntries 2 .beforeArticles,
        passOf twoEntries 3 .completes] cutStored ∧ ¬Accounted twoDocuments cutStored := by
  constructor
  · have hlatest : latestRawPayload cutStored.payloads = some secondRow := by
      rw [cutStored_eq]
      rfl
    have hsame : (collect twoDocuments cutStored (passOf twoEntries 3 .completes)).1 = cutStored := by
      refine collect_unchanged (receive_passOf (.inr rfl) 3 .completes) hlatest ?_
      rw [secondRow, payloadRow, arrivalOf, arrivalOf]
    have horder : InOrder twoDocuments cutStored (passOf twoEntries 3 .completes) := by
      refine inOrder_passOf fun row hrow ↦ ?_
      rw [cutStored_eq] at hrow
      rcases mem_cons.mp hrow with rfl | hrow
      · exact show (1 : ℤ) ≤ 3 by decide
      · obtain rfl := mem_singleton.mp hrow
        exact show (2 : ℤ) ≤ 3 by decide
    refine firstStored_run .beforeArticles _ ?_
    rw [← cutStored]
    exact .cons horder (nextCollect_eq.trans (congrArg some hsame)) (.nil _)
  · intro hacc
    have honce := hacc.once
    rw [cutStored_eq] at honce
    have hfirst := (payloadRow_spec stores_first []).1
    have hsecond := (payloadRow_spec stores_second_completes [firstRow]).1
    have hlost := honce _ _ infix_rfl hfirst hsecond "2".toList .added second_added
    cases hlost

end Example

end TalaPala.News
