import TalaPala.News.Consolidate

namespace TalaPala.News

open Library Library.GreedyGroups List

def ConsolidatedEvent.originals (event : ConsolidatedEvent) : List ℤ :=
  (event.members.filter GroupMember.isIndependent).map GroupMember.articleId

section Walk

variable (lex : Lexicon)

def digest (member : Member) : Text := hash lex member.item

def verbatim (member original : Member) : Bool :=
  syndicationTitleThreshold ≤ titleSimilarity lex member.item.title original.item.title

theorem independence_eq (seen : List Text) (kept members : List Member) :
    independence lex seen (kept.map Entry.item) members =
      markOriginals (digest lex) (verbatim lex) seen kept members := by
  induction members generalizing seen kept with
  | nil => rfl
  | cons member rest ih =>
    have hany : (kept.map Entry.item).any (fun earlier ↦
        syndicationTitleThreshold ≤ titleSimilarity lex member.item.title earlier.title) =
        kept.any (verbatim lex member) := by
      rw [any_map]
      rfl
    have hkept : kept.map Entry.item ++ [member.item] = (kept ++ [member]).map Entry.item := by
      rw [map_append, map_singleton]
    have hdigest : hash lex member.item = digest lex member := rfl
    rw [independence, markOriginals]
    simp only [hany, hdigest]
    by_cases hseen : digest lex member ∈ seen
    · simp only [hseen, decide_true, Bool.true_or, Bool.not_true, if_true]
      exact congrArg ((member, false) :: ·) (ih _ kept)
    · simp only [hseen, decide_false, Bool.false_or]
      cases kept.any (verbatim lex member) with
      | true => exact congrArg ((member, false) :: ·) (ih _ kept)
      | false =>
        simp only [Bool.false_eq_true, if_false]
        rw [hkept]
        exact congrArg ((member, true) :: ·) (ih _ _)

variable (detect : Bool) (first : Member) (rest : List Member)

theorem members_eventOf : (eventOf lex detect first rest).members =
    (markOriginals (digest lex) (verbatim lex) [] [] (first :: rest)).map (fun p ↦
      { articleId := p.1.item.articleId
        similarity := Forecast.roundTo 4 (similarityOf p.1)
        matchReason := reasonOf p.1
        isPrimary := p.1.item.articleId = first.item.articleId
        isIndependent := p.2 }) := by
  rw [← independence_eq lex [] [] (first :: rest)]
  rfl

theorem originals_eventOf : (eventOf lex detect first rest).originals =
    (originalsOf (digest lex) (verbatim lex) [] [] (first :: rest)).map
      (fun m ↦ m.item.articleId) := by
  rw [ConsolidatedEvent.originals, members_eventOf, filter_map, map_map, originalsOf, map_map]
  rfl

theorem independentSourceCount_eventOf :
    (eventOf lex detect first rest).independentSourceCount =
      ((originalsOf (digest lex) (verbatim lex) [] [] (first :: rest)).map
        (fun m ↦ m.item.sourceCode)).toFinset.card := by
  rw [originalsOf, map_map, card_toFinset, ← independence_eq lex [] [] (first :: rest)]
  simp only [eventOf, map_map, map_nil]
  rfl

end Walk

section Counts

variable {lex : Lexicon}

structure Counted (lex : Lexicon) (articles : List ArticleInput) (event : ConsolidatedEvent) :
    Prop where
  ids : event.articleIds = articles.map ArticleInput.articleId
  one_le : 1 ≤ event.independentSourceCount
  le_sources : event.independentSourceCount ≤
    (articles.map ArticleInput.sourceCode).toFinset.card
  copies : ∀ (i : ℕ) (m : GroupMember) (a : ArticleInput), event.members[i]? = some m →
    articles[i]? = some a → m.isIndependent = false →
      ∃ j < i, ∃ earlier, articles[j]? = some earlier ∧
        (hash lex earlier = hash lex a ∨
          event.members[j]?.any GroupMember.isIndependent ∧
            syndicationTitleThreshold ≤ titleSimilarity lex a.title earlier.title)
  article_count : event.articleCount = event.originals.length + event.syndicationCount

theorem flagged_fst (members : List Member) :
    (markOriginals (digest lex) (verbatim lex) [] [] members).map Prod.fst = members :=
  markOriginals_fst [] [] members

theorem counted_eventOf (detect : Bool) (first : Member) (rest : List Member) :
    Counted lex ((first :: rest).map Entry.item) (eventOf lex detect first rest) where
  ids := articleIds_eventOf detect first rest
  one_le := by
    rw [independentSourceCount_eventOf, Nat.one_le_iff_ne_zero, Finset.card_ne_zero]
    exact ⟨first.item.sourceCode, mem_toFinset.mpr mem_cons_self⟩
  le_sources := by
    rw [independentSourceCount_eventOf]
    refine Finset.card_le_card (fun code hcode ↦ ?_)
    rw [mem_toFinset] at hcode ⊢
    obtain ⟨m, hm, rfl⟩ := mem_map.mp hcode
    obtain ⟨p, hp, rfl⟩ := mem_map.mp hm
    have hmem : p.1 ∈ first :: rest := by
      rw [← flagged_fst (first :: rest)]
      exact mem_map.mpr ⟨p, mem_of_mem_filter hp, rfl⟩
    exact mem_map.mpr ⟨p.1.item, mem_map.mpr ⟨p.1, hmem, rfl⟩, rfl⟩
  copies i m a hm ha hcopy := by
    rw [members_eventOf] at hm ⊢
    obtain ⟨⟨member, original⟩, hmark, rfl⟩ :=
      Option.map_eq_some_iff.mp ((getElem?_map ..).symm.trans hm)
    obtain rfl : original = false := hcopy
    have hmember : (first :: rest)[i]? = some member := by
      rw [← flagged_fst (first :: rest), getElem?_map, hmark]
      rfl
    rw [getElem?_map, hmember] at ha
    obtain rfl : member.item = a := Option.some.inj ha
    obtain (hseen | ⟨j, hj, b, hb, hkey⟩) | ⟨b, hb, -⟩ | ⟨j, hj, b, hb, halike⟩ :=
      of_mark_false hmark
    · cases hseen
    · exact ⟨j, hj, b.item, by rw [getElem?_map, hb]; rfl, .inl hkey⟩
    · cases hb
    · have hearlier : (first :: rest)[j]? = some b := by
        rw [← flagged_fst (first :: rest), getElem?_map, hb]
        rfl
      refine ⟨j, hj, b.item, by rw [getElem?_map, hearlier]; rfl, .inr ⟨?_, ?_⟩⟩
      · rw [getElem?_map, hb]
        rfl
      · exact of_decide_eq_true halike
  article_count := by
    have hcount : ∀ l : List (Member × Bool), l.length =
        (l.filter Prod.snd).length + (l.filter (fun p ↦ !p.2)).length := fun l ↦ by
      rw [← countP_eq_length_filter, ← countP_eq_length_filter]
      rw [l.length_eq_countP_add_countP Prod.snd]
      simp only [Bool.not_eq_true, Bool.decide_eq_false]
    have hwalk := hcount (independence lex [] [] (first :: rest))
    rw [← length_map (f := Prod.fst), independence_fst] at hwalk
    rw [originals_eventOf, originalsOf, ← independence_eq lex [] [] (first :: rest),
      length_map, length_map]
    exact hwalk

end Counts

section Copies

variable {lex : Lexicon} {detect : Bool} {members members' copies : List Member}

def ids (members : List Member) : List ℤ := members.map (fun m ↦ m.item.articleId)

def inOrder (members : List Member) : List Member :=
  members.insertionSort (fun a b ↦ Earlier a.item b.item)

theorem pairwise_inOrder (members : List Member) :
    (inOrder members).Pairwise (fun a b ↦ Earlier a.item b.item) := by
  have : Std.Total (fun a b : Member ↦ Earlier a.item b.item) :=
    ⟨fun a b ↦ Std.Total.total a.item b.item⟩
  have : IsTrans Member (fun a b ↦ Earlier a.item b.item) :=
    ⟨fun _ _ _ h h' ↦ (inferInstance : IsTrans ArticleInput Earlier).trans _ _ _ h h'⟩
  exact pairwise_insertionSort _ members

theorem perm_inOrder (members : List Member) : (inOrder members).Perm members :=
  perm_insertionSort _ members

theorem articleId_eq_of_earlier {a b : ArticleInput} (hab : Earlier a b) (hba : Earlier b a) :
    a.articleId = b.articleId := by
  have hkey : sortKey a = sortKey b := le_antisymm hab hba
  simp only [sortKey, toLex_inj, Prod.mk.injEq] at hkey
  exact hkey.2.2

theorem eq_of_inOrder {l l' : List Member} (h : l.Perm l') (hids : (ids l).Nodup)
    (hl : l.Pairwise (fun a b ↦ Earlier a.item b.item))
    (hl' : l'.Pairwise (fun a b ↦ Earlier a.item b.item)) : l = l' := by
  refine h.eq_of_pairwise (fun a b ha hb hab hba ↦ ?_) hl hl'
  exact inj_on_of_nodup_map hids ha (h.mem_iff.mpr hb) (articleId_eq_of_earlier hab hba)

def wasThere (members : List Member) (m : Member) : Bool := m.item.articleId ∈ ids members

theorem wasThere_of_mem {m : Member} (h : m ∈ members) : wasThere members m :=
  decide_eq_true (mem_map.mpr ⟨m, h, rfl⟩)

section Appended

variable (hperm : members'.Perm (members ++ copies)) (hids : (ids members').Nodup)

include hperm hids

theorem not_wasThere {c : Member} (hc : c ∈ copies) : wasThere members c = false := by
  have hall : (ids members ++ ids copies).Nodup := by
    rw [ids, ids, ← map_append]
    exact (hperm.map _).nodup_iff.mp hids
  rw [wasThere, decide_eq_false_iff_not]
  intro hmem
  exact (disjoint_of_nodup_append hall) hmem (mem_map.mpr ⟨c, hc, rfl⟩)

theorem filter_wasThere : (inOrder members').filter (wasThere members) = inOrder members := by
  have hmembers : (members ++ copies).filter (wasThere members) = members := by
    rw [filter_append, filter_eq_self.mpr (fun m hm ↦ wasThere_of_mem hm),
      filter_eq_nil_iff.mpr (fun c hc ↦ by
        rw [not_wasThere hperm hids hc]
        exact Bool.false_ne_true), append_nil]
  have hall : ((inOrder members').filter (wasThere members)).Perm members := by
    have hfiltered := ((perm_inOrder members').trans hperm).filter (wasThere members)
    rwa [hmembers] at hfiltered
  refine eq_of_inOrder (hall.trans (perm_inOrder members).symm) ?_
    ((pairwise_inOrder members').filter _) (pairwise_inOrder members)
  have hsub : ((inOrder members').filter (wasThere members)).Sublist (inOrder members') :=
    filter_sublist
  exact (hsub.map _).nodup (((perm_inOrder members').map _).nodup_iff.mpr hids)

theorem withCopies_inOrder
    (hcopies : ∀ c ∈ copies, ∃ m ∈ members, hash lex m.item = hash lex c.item ∧
      Earlier m.item c.item) :
    WithCopies (digest lex) [] (inOrder members) (inOrder members') := by
  rw [← filter_wasThere hperm hids]
  refine withCopies_filter (fun front c back hsplit hc ↦ .inr ?_)
  have hmem : c ∈ members ++ copies := by
    rw [← ((perm_inOrder members').trans hperm).mem_iff, hsplit]
    exact mem_append_right _ mem_cons_self
  have hcopy : c ∈ copies := by
    refine (mem_append.mp hmem).resolve_left (fun h ↦ ?_)
    rw [wasThere_of_mem h] at hc
    cases hc
  obtain ⟨m, hm, hhash, hearlier⟩ := hcopies c hcopy
  have hne : m.item.articleId ≠ c.item.articleId := by
    intro he
    have hthere := wasThere_of_mem hm
    rw [wasThere, he] at hthere
    rw [wasThere, hthere] at hc
    cases hc
  have hm' : m ∈ front ++ c :: back := by
    rw [← hsplit, ((perm_inOrder members').trans hperm).mem_iff]
    exact mem_append_left _ hm
  refine ⟨m, ?_, wasThere_of_mem hm, hhash⟩
  rcases mem_append.mp hm' with hfront | hback
  · exact hfront
  · rcases mem_cons.mp hback with rfl | hback
    · exact absurd rfl hne
    · -- after the copy the member would not be the earlier one
      have hpairs := hsplit ▸ pairwise_inOrder members'
      have hafter := rel_of_pairwise_cons (pairwise_append.mp hpairs).2.1 hback
      exact absurd (articleId_eq_of_earlier hearlier hafter) hne

theorem buildEvent_withCopies
    (hcopies : ∀ c ∈ copies, ∃ m ∈ members, hash lex m.item = hash lex c.item ∧
      Earlier m.item c.item) {event : ConsolidatedEvent}
    (h : buildEvent lex detect members = some event) :
    ∃ event', buildEvent lex detect members' = some event' ∧
      event'.independentSourceCount = event.independentSourceCount ∧
      event'.originals = event.originals := by
  have hwith := withCopies_inOrder hperm hids hcopies
  rw [buildEvent] at h ⊢
  rw [inOrder, inOrder] at hwith
  cases hmembers : members.insertionSort (fun a b ↦ Earlier a.item b.item) with
  | nil =>
    rw [hmembers] at h
    cases h
  | cons first rest =>
    rw [hmembers] at h hwith
    obtain rfl := Option.some.inj h
    cases hmembers' : members'.insertionSort (fun a b ↦ Earlier a.item b.item) with
    | nil =>
      rw [hmembers'] at hwith
      cases hwith
    | cons first' rest' =>
      rw [hmembers'] at hwith
      have hsame : originalsOf (digest lex) (verbatim lex) [] [] (first' :: rest') =
          originalsOf (digest lex) (verbatim lex) [] [] (first :: rest) := hwith.originalsOf_eq
      refine ⟨_, rfl, ?_, ?_⟩
      · rw [independentSourceCount_eventOf, independentSourceCount_eventOf, hsame]
      · rw [originals_eventOf, originals_eventOf, hsame]

end Appended

theorem counted_buildEvent {event : ConsolidatedEvent}
    (h : buildEvent lex detect members = some event) :
    Counted lex ((inOrder members).map Entry.item) event := by
  rw [buildEvent] at h
  rw [inOrder]
  cases hmembers : members.insertionSort (fun a b ↦ Earlier a.item b.item) with
  | nil =>
    rw [hmembers] at h
    cases h
  | cons first rest =>
    rw [hmembers] at h
    obtain rfl := Option.some.inj h
    exact counted_eventOf detect first rest

theorem counted_consolidate {batch : List ArticleInput} {events : List ConsolidatedEvent}
    (hids : (batch.map ArticleInput.articleId).Nodup)
    (h : consolidate lex detect batch = some events) :
    ∀ event ∈ events, ∃ articles : List ArticleInput, (∀ a ∈ articles, a ∈ batch) ∧
      articles.Pairwise Earlier ∧ Counted lex articles event := by
  obtain ⟨groups, hgroups, -⟩ := Option.bind_eq_some_iff.mp h
  have hgrown := grown_groupsOf hgroups
  obtain ⟨events', hevents, hbuilt⟩ := exists_mapM_forall₂
    (P := fun g event ↦ g ∈ groups ∧ buildEvent lex detect g = some event) (fun g hg ↦ by
      obtain ⟨event, hevent, -⟩ := exists_buildEvent detect hgrown (sorted_ascending hids) hg
      exact ⟨event, hevent, hg, hevent⟩)
  have hsame : events = events' := by
    rw [consolidate, hgroups, Option.bind_some, hevents] at h
    exact (Option.some.inj h).symm
  rw [hsame]
  intro event hevent
  obtain ⟨g, hg, -, hbuild⟩ := exists_of_mem_right hbuilt hevent
  refine ⟨_, fun a ha ↦ ?_, pairwise_map.mpr (pairwise_inOrder g), counted_buildEvent hbuild⟩
  obtain ⟨m, hm, rfl⟩ := mem_map.mp ha
  have hplaced := (hgrown.ordered g hg).subset
    (mem_map.mpr ⟨m, (perm_inOrder g).mem_iff.mp hm, rfl⟩)
  exact (mem_insertionSort _).mp hplaced

end Copies

/-- An event's counts are those of its originals, each other member repeats something
before it, and copies put in later change neither. -/
theorem copies_not_counted (lex : Lexicon) (detect : Bool) :
    (∀ members event, (ids members).Nodup → buildEvent lex detect members = some event →
      ∃ articles : List ArticleInput, articles.Perm (members.map Entry.item) ∧
        articles.Pairwise Earlier ∧ Counted lex articles event) ∧
    (∀ batch events, (batch.map ArticleInput.articleId).Nodup →
      consolidate lex detect batch = some events →
      ∀ event ∈ events, ∃ articles : List ArticleInput, (∀ a ∈ articles, a ∈ batch) ∧
        articles.Pairwise Earlier ∧ Counted lex articles event) ∧
    ∀ members members' copies event, members'.Perm (members ++ copies) → (ids members').Nodup →
      (∀ c ∈ copies, ∃ m ∈ members, hash lex m.item = hash lex c.item ∧ Earlier m.item c.item) →
      buildEvent lex detect members = some event →
        ∃ event', buildEvent lex detect members' = some event' ∧
          event'.independentSourceCount = event.independentSourceCount ∧
          event'.originals = event.originals := by
  refine ⟨fun members event _ hevent ↦ ?_, fun batch events hids h ↦ counted_consolidate hids h,
    fun members members' copies event hperm hids hcopies h ↦
      buildEvent_withCopies hperm hids hcopies h⟩
  exact ⟨_, (perm_inOrder members).map _, pairwise_map.mpr (pairwise_inOrder members),
    counted_buildEvent hevent⟩

/-- The wire's item again, from another source. -/
def copiedItem : ArticleInput := untitled 4 "evening" "" "https://a.org/4" "x"

theorem copies_not_counted_wire :
    ∃ event event' events, buildEvent blankLexicon true
        [⟨wireItem, none⟩, ⟨otherItem, none⟩] = some event ∧
      buildEvent blankLexicon true
        [⟨wireItem, none⟩, ⟨otherItem, none⟩, ⟨copiedItem, none⟩] = some event' ∧
      consolidate blankLexicon true [wireItem] = some events ∧
      1 ≤ event.independentSourceCount ∧ (∀ event ∈ events, 1 ≤ event.independentSourceCount) ∧
      event'.independentSourceCount = event.independentSourceCount ∧
      event'.originals = event.originals := by
  obtain ⟨hcounted, hbatch, hcopies⟩ := copies_not_counted blankLexicon true
  obtain ⟨event, hevent⟩ : ∃ event, buildEvent blankLexicon true
      [⟨wireItem, none⟩, ⟨otherItem, none⟩] = some event := ⟨_, rfl⟩
  obtain ⟨events, hevents⟩ : ∃ events, consolidate blankLexicon true [wireItem] = some events :=
    ⟨_, rfl⟩
  obtain ⟨event', hevent', hsources, horiginals⟩ := hcopies _
    [⟨wireItem, none⟩, ⟨otherItem, none⟩, ⟨copiedItem, none⟩] [⟨copiedItem, none⟩] event
    (List.Perm.refl _) (by decide)
    (fun c hc ↦ ⟨⟨wireItem, none⟩, mem_cons_self, by
      obtain rfl := mem_singleton.mp hc
      exact ⟨rfl, by decide⟩⟩) hevent
  obtain ⟨_, -, -, hcount⟩ := hcounted _ event (by decide) hevent
  refine ⟨event, event', events, hevent, hevent', hevents, hcount.one_le, fun e he ↦ ?_, hsources,
    horiginals⟩
  obtain ⟨_, -, -, hcount⟩ := hbatch _ events (by decide) hevents e he
  exact hcount.one_le

end TalaPala.News
