import TalaPala.Clock
import TalaPala.News.Urls
import TalaPala.Library.Checked
import TalaPala.Library.GreedyGroups
import TalaPala.Forecast.Intervals
import Mathlib.Data.Char
import Mathlib.Data.Prod.Lex
import Mathlib.Data.List.Lex
import Mathlib.Data.Finset.Sort

namespace TalaPala.News

open Library Library.GreedyGroups List

structure ArticleInput where
  articleId : ℤ
  sourceCode : Text
  availableAt : Instant
  publishedAt : Option Instant
  externalId : Text
  url : Text
  canonicalUrl : Text
  title : Text
  summary : Text
  contentHash : Text
  entityCodes : Option (Finset Text)

/-- What consolidation asks of the text, from `dedupe`, `entities` and `classify` down to
the string library. The canonical form is `none` where it raises. -/
structure Lexicon where
  canonicalize : Text → Option Text
  normalize : Text → Text
  split : Text → List Text
  sha256 : Text → Text
  sequenceRatio : Text → Text → ℚ
  extractCodes : Text → Text → Finset Text
  /-- The rule and the category; none where no rule fires. -/
  classify : Text → Text → Option (Text × Text)
  opposedRules : Text → List Text

inductive MatchReason
  | seed
  | sourceItemId
  | canonicalUrl
  | contentHash
  | titleKey
  | nearTitle
  | entityTime
  deriving DecidableEq

def consolidationVersion : String := "consolidate-1.0.0"

def matchConfidence : MatchReason → ℚ
  | .seed => 1
  | .sourceItemId => 1
  | .canonicalUrl => 0.98
  | .contentHash => 0.95
  | .titleKey => 0.90
  | .nearTitle => 0.80
  | .entityTime => 0.60

def matchOrder : List MatchReason :=
  [.sourceItemId, .canonicalUrl, .contentHash, .titleKey, .nearTitle, .entityTime]

def nearTitleWindow : ℤ := 6 * 3600 * 1000000

def entityWindow : ℤ := 3 * 3600 * 1000000

def titleKeyWindow : ℤ := 24 * 3600 * 1000000

def nearTitleThreshold : ℚ := 0.85

def entityTitleFloor : ℚ := 0.55

def entityOverlapThreshold : ℚ := 0.60

def syndicationTitleThreshold : ℚ := 0.95

def wideSpan : ℤ := 24 * 3600 * 1000000

def wideSpanPenalty : ℚ := 0.10

def stopwords : List Text :=
  ["a", "an", "and", "as", "at", "by", "for", "from", "in", "of", "on", "or", "the", "to",
    "with"].map String.toList

abbrev Edge := MatchReason × ℚ

section Lexical

variable (lex : Lexicon)

def normalizeText (value : Text) : Text := if value = [] then [] else lex.normalize value

def canonicalUrl (url : Text) : Option Text :=
  if strip url = [] then some [] else lex.canonicalize (strip url)

def contentHash (title summary : Text) : Text :=
  lex.sha256 (normalizeText lex title ++ '\n' :: normalizeText lex summary ++ ['\n'])

def contentWords (title : Text) : List Text :=
  (lex.split (normalizeText lex title)).filter (· ∉ stopwords)

def titleTokens (title : Text) : Finset Text := (contentWords lex title).toFinset

def normalizeTitle (title : Text) : Text := List.intercalate [' '] (contentWords lex title)

def jaccard (a b : Finset Text) : ℚ := ((a ∩ b).card : ℚ) / (a ∪ b).card

def titleSimilarity (left right : Text) : ℚ :=
  let a := normalizeTitle lex left
  let b := normalizeTitle lex right
  if a = [] ∨ b = [] then 0
  else if a = b then 1
  else max (lex.sequenceRatio a b) (jaccard (titleTokens lex left) (titleTokens lex right))

def overlap (a b : Finset Text) : ℚ := if a = ∅ ∨ b = ∅ then 0 else jaccard a b

end Lexical

section Edges

variable (lex : Lexicon)

def canonical (item : ArticleInput) : Option Text :=
  if item.canonicalUrl ≠ [] then some item.canonicalUrl else canonicalUrl lex item.url

def hash (item : ArticleInput) : Text :=
  if item.contentHash ≠ [] then item.contentHash else contentHash lex item.title item.summary

def entityCodesOf (item : ArticleInput) : Finset Text :=
  item.entityCodes.getD (lex.extractCodes item.title item.summary)

def proximity (left right : ArticleInput) : ℤ :=
  match left.publishedAt, right.publishedAt with
  | some l, some r => |l - r|
  | _, _ => |left.availableAt - right.availableAt|

def storyEdge (candidate existing : ArticleInput) : Option Edge :=
  let gap := proximity candidate existing
  let key := normalizeTitle lex candidate.title
  let similarity := titleSimilarity lex candidate.title existing.title
  if key ≠ [] ∧ key = normalizeTitle lex existing.title ∧ gap ≤ titleKeyWindow then
    some (.titleKey, 1)
  else if nearTitleThreshold ≤ similarity ∧ gap ≤ nearTitleWindow then
    some (.nearTitle, similarity)
  else if entityTitleFloor ≤ similarity ∧ gap ≤ entityWindow ∧
      entityOverlapThreshold ≤ overlap (entityCodesOf lex candidate) (entityCodesOf lex existing) then
    some (.entityTime, similarity)
  else none

def SameItem (candidate existing : ArticleInput) : Prop :=
  candidate.externalId ≠ [] ∧ candidate.sourceCode = existing.sourceCode ∧
    candidate.externalId = existing.externalId

instance : DecidableRel SameItem := fun _ _ ↦ inferInstanceAs (Decidable (_ ∧ _ ∧ _))

/-- The strongest match between two articles; the outer `none` is the ValueError. -/
def edge (candidate existing : ArticleInput) : Option (Option Edge) :=
  if SameItem candidate existing then some (some (.sourceItemId, 1))
  else match canonical lex candidate, canonical lex existing with
    | some url, some existingUrl =>
      if url ≠ [] ∧ url = existingUrl then some (some (.canonicalUrl, 1))
      else if hash lex candidate = hash lex existing then some (some (.contentHash, 1))
      else some (storyEdge lex candidate existing)
    | _, _ => none

def sortKey (item : ArticleInput) : ℤ ×ₗ ℤ ×ₗ ℤ :=
  toLex (item.publishedAt.getD item.availableAt, toLex (item.availableAt, item.articleId))

def Earlier (a b : ArticleInput) : Prop := sortKey a ≤ sortKey b

instance : DecidableRel Earlier := fun a b ↦ inferInstanceAs (Decidable (sortKey a ≤ sortKey b))

instance : Std.Total Earlier := ⟨fun a b ↦ le_total (sortKey a) (sortKey b)⟩

instance : IsTrans ArticleInput Earlier := ⟨fun _ _ _ h h' ↦ le_trans (α := ℤ ×ₗ ℤ ×ₗ ℤ) h h'⟩

def rank (edge : Edge) : ℕ := matchOrder.idxOf edge.1

def unbeatable (edge : Edge) : Bool := edge.1 = .sourceItemId

abbrev Member := Entry ArticleInput Edge

def groupsOf (batch : List ArticleInput) : Option (List (List Member)) :=
  groupsFrom (edge lex) rank unbeatable [] (batch.insertionSort Earlier)

end Edges

structure GroupMember where
  articleId : ℤ
  similarity : ℚ
  matchReason : MatchReason
  isPrimary : Bool
  isIndependent : Bool

structure ConsolidatedEvent where
  primaryArticleId : ℤ
  members : List GroupMember
  method : MatchReason
  methodVersion : String
  articleCount : ℕ
  independentSourceCount : ℕ
  syndicationCount : ℕ
  sourceDiversity : ℚ
  confidence : ℚ
  conflicting : Bool
  firstPublishedAt : Option Instant
  firstSeenAt : Instant
  lastUpdatedAt : Instant
  availableAt : Instant
  sourceCodes : List Text
  entityCodes : List Text
  categories : List Text

def ConsolidatedEvent.articleIds (event : ConsolidatedEvent) : List ℤ :=
  event.members.map GroupMember.articleId

section Events

variable (lex : Lexicon)

def independence : List Text → List ArticleInput → List Member → List (Member × Bool)
  | _, _, [] => []
  | seenHashes, originals, member :: rest =>
    let digest := hash lex member.item
    let verbatim := digest ∈ seenHashes || originals.any (fun earlier ↦
      syndicationTitleThreshold ≤ titleSimilarity lex member.item.title earlier.title)
    (member, !verbatim) ::
      independence (digest :: seenHashes)
        (if verbatim then originals else originals ++ [member.item]) rest

def opposing : List Text → Bool
  | [] => false
  | ruleId :: rest => rest.any (· ∈ lex.opposedRules ruleId) || opposing rest

def conflicts (originals : List ArticleInput) : Bool × List Text :=
  let results := originals.filterMap (fun item ↦ lex.classify item.title item.summary)
  (opposing lex (results.map Prod.fst), (results.map Prod.snd).dedup.insertionSort (· ≤ ·))

def reasonOf (member : Member) : MatchReason := (member.edge.map Prod.fst).getD .seed

def similarityOf (member : Member) : ℚ := (member.edge.map Prod.snd).getD 1

/-- `max(reasons, key=_MATCH_ORDER.index)`, or the seed where there are none. -/
def weakest (members : List Member) : MatchReason :=
  match (members.map reasonOf).filter (· ≠ .seed) with
  | [] => .seed
  | first :: rest => rest.foldl (fun best reason ↦
      if matchOrder.idxOf best < matchOrder.idxOf reason then reason else best) first

def eventOf (detectConflicts : Bool) (first : Member) (rest : List Member) : ConsolidatedEvent :=
  let ordered := first :: rest
  let flagged := independence lex [] [] ordered
  let originals := (flagged.filter Prod.snd).map (fun p ↦ p.1.item)
  let sources := (originals.map ArticleInput.sourceCode).dedup
  let published := ordered.filterMap (fun m ↦ m.item.publishedAt)
  let firstSeen := (rest.map (fun m ↦ m.item.availableAt)).foldl min first.item.availableAt
  let lastSeen := (rest.map (fun m ↦ m.item.availableAt)).foldl max first.item.availableAt
  let confidence := matchConfidence (weakest ordered) -
    if wideSpan < lastSeen - firstSeen then wideSpanPenalty else 0
  let (conflicting, categories) :=
    if detectConflicts then conflicts lex originals else (false, [])
  { primaryArticleId := first.item.articleId
    members := flagged.map (fun (m, independent) ↦
      { articleId := m.item.articleId
        similarity := Forecast.roundTo 4 (similarityOf m)
        matchReason := reasonOf m
        isPrimary := m.item.articleId = first.item.articleId
        isIndependent := independent })
    method := weakest ordered
    methodVersion := consolidationVersion
    articleCount := ordered.length
    independentSourceCount := sources.length
    syndicationCount := (flagged.filter (fun p ↦ !p.2)).length
    sourceDiversity := Forecast.roundTo 4 (sources.length / ordered.length)
    confidence := Forecast.roundTo 4 (max 0 (min 1 confidence))
    conflicting := conflicting
    firstPublishedAt := published.head?.map (fun p ↦ published.tail.foldl min p)
    firstSeenAt := firstSeen
    lastUpdatedAt := lastSeen
    availableAt := firstSeen
    sourceCodes := (ordered.map (fun m ↦ m.item.sourceCode)).dedup.insertionSort (· ≤ ·)
    entityCodes := ((ordered.map (fun m ↦ entityCodesOf lex m.item)).foldr (· ∪ ·) ∅).sort (· ≤ ·)
    categories := categories }

/-- `none` is the IndexError of a group without members. -/
def buildEvent (detectConflicts : Bool) (members : List Member) : Option ConsolidatedEvent :=
  match members.insertionSort (fun a b ↦ Earlier a.item b.item) with
  | [] => none
  | first :: rest => some (eventOf lex detectConflicts first rest)

def consolidate (detectConflicts : Bool) (batch : List ArticleInput) :
    Option (List ConsolidatedEvent) :=
  (groupsOf lex batch).bind (fun groups ↦ groups.mapM (buildEvent lex detectConflicts))

end Events

section Edges

variable {lex : Lexicon} {a b : ArticleInput}

def SameIdentity (lex : Lexicon) (a b : ArticleInput) : Prop :=
  SameItem a b ∨ (∃ url ≠ [], canonical lex a = some url ∧ canonical lex b = some url) ∨
    hash lex a = hash lex b

theorem SameItem.symm (h : SameItem a b) : SameItem b a :=
  ⟨h.2.2 ▸ h.1, h.2.1.symm, h.2.2.symm⟩

theorem SameIdentity.symm (h : SameIdentity lex a b) : SameIdentity lex b a := by
  rcases h with hitem | ⟨url, hne, ha, hb⟩ | hhash
  · exact .inl hitem.symm
  · exact .inr (.inl ⟨url, hne, hb, ha⟩)
  · exact .inr (.inr hhash.symm)

theorem unbeatable_least (e : Edge) (h : unbeatable e) (other : Edge) : rank e ≤ rank other := by
  have hreason : e.1 = .sourceItemId := of_decide_eq_true h
  rw [rank, hreason]
  exact Nat.zero_le _

theorem unbeatable_of_rank_le (e other : Edge) (h : unbeatable other) (hle : rank e ≤ rank other) :
    unbeatable e := by
  have hreason : other.1 = .sourceItemId := of_decide_eq_true h
  rw [rank, rank, hreason] at hle
  obtain ⟨reason, similarity⟩ := e
  cases reason with
  | sourceItemId => rfl
  | _ => simp [matchOrder] at hle

theorem rank_storyEdge {e : Edge} (h : storyEdge lex a b = some e) : 3 ≤ rank e := by
  simp only [storyEdge] at h
  split_ifs at h <;> obtain rfl := Option.some.inj h <;> simp [rank, matchOrder]

inductive Compared (lex : Lexicon) (a b : ArticleInput) : Option (Option Edge) → Prop
  | item : SameItem a b → Compared lex a b (some (some (.sourceItemId, 1)))
  | url (url : Text) : ¬SameItem a b → url ≠ [] → canonical lex a = some url →
      canonical lex b = some url → Compared lex a b (some (some (.canonicalUrl, 1)))
  | hash : ¬SameItem a b → hash lex a = hash lex b →
      Compared lex a b (some (some (.contentHash, 1)))
  | story : ¬SameIdentity lex a b → Compared lex a b (some (storyEdge lex a b))
  | raises : ¬SameItem a b → (canonical lex a = none ∨ canonical lex b = none) →
      Compared lex a b none

theorem edge_compared (lex : Lexicon) (a b : ArticleInput) : Compared lex a b (edge lex a b) := by
  rw [edge]
  by_cases hitem : SameItem a b
  · rw [if_pos hitem]
    exact .item hitem
  rw [if_neg hitem]
  cases hurl : canonical lex a with
  | none => exact .raises hitem (.inl hurl)
  | some url =>
    cases hother : canonical lex b with
    | none => exact .raises hitem (.inr hother)
    | some other =>
      dsimp only
      split_ifs with hsame hhash
      · obtain ⟨hne, rfl⟩ := hsame
        exact .url url hitem hne hurl hother
      · exact .hash hitem hhash
      · refine .story ?_
        rintro (h | ⟨url', hne, ha, hb⟩ | h)
        · exact hitem h
        · rw [hurl, Option.some.injEq] at ha
          rw [hother, Option.some.injEq] at hb
          exact hsame ⟨ha ▸ hne, ha.trans hb.symm⟩
        · exact hhash h

theorem edge_isSome_iff : (edge lex a b).isSome ↔
    SameItem a b ∨ (canonical lex a).isSome ∧ (canonical lex b).isSome := by
  by_cases hitem : SameItem a b
  · simp [edge, hitem]
  · rw [edge, if_neg hitem, or_iff_right hitem]
    cases canonical lex a <;> cases canonical lex b <;> simp
    split_ifs <;> rfl

variable (lex) in
theorem unbeatable_iff_sameItem : (∃ e, edge lex a b = some (some e) ∧ unbeatable e) ↔
    SameItem a b := by
  constructor
  · rintro ⟨e, hedge, hunbeatable⟩
    have hcompared := edge_compared lex a b
    rw [hedge] at hcompared
    have hproven := unbeatable_least e hunbeatable (.sourceItemId, 1)
    generalize hresult : some (some e) = result at hcompared
    cases hcompared with
    | item h => exact h
    | story _ =>
      have hlow := rank_storyEdge (Option.some.inj hresult).symm
      simp [rank, matchOrder] at hproven hlow
      omega
    | raises => cases hresult
    | _ =>
      obtain rfl := Option.some.inj (Option.some.inj hresult)
      cases hunbeatable
  · intro hitem
    exact ⟨(.sourceItemId, 1), by rw [edge, if_pos hitem], rfl⟩

def Proven (e : Edge) : Prop := rank e < 3

theorem identifies (lex : Lexicon) :
    Identifies (edge lex) rank unbeatable (SameIdentity lex) Proven where
  found a b result halike hedge := by
    have hcompared := edge_compared lex a b
    rw [hedge] at hcompared
    cases hcompared with
    | story hnot => exact absurd halike hnot
    | _ => exact ⟨_, rfl, by simp [Proven, rank, matchOrder]⟩
  final_strong e h := (unbeatable_least e h (.sourceItemId, 1)).trans_lt
    (by simp [rank, matchOrder])
  strong_alike a b e hedge hproven := by
    have hcompared := edge_compared lex a b
    rw [hedge] at hcompared
    generalize hresult : some (some e) = result at hcompared
    cases hcompared with
    | item h => exact .inl h
    | url url _ hne ha hb => exact .inr (.inl ⟨url, hne, ha, hb⟩)
    | hash _ h => exact .inr (.inr h)
    | story _ => exact absurd hproven (rank_storyEdge (Option.some.inj hresult).symm).not_gt
    | raises => cases hresult
  ranked _ _ hstrong hle := hle.trans_lt hstrong
  symm _ _ := SameIdentity.symm

theorem edge_reason_ne_seed {e : Edge} (h : edge lex a b = some (some e)) : e.1 ≠ .seed := by
  have hcompared := edge_compared lex a b
  rw [h] at hcompared
  generalize hresult : some (some e) = result at hcompared
  cases hcompared with
  | story _ =>
    have hstory := (Option.some.inj hresult).symm
    simp only [storyEdge] at hstory
    split_ifs at hstory <;> obtain rfl := Option.some.inj hstory <;> simp
  | raises => cases hresult
  | _ =>
    obtain rfl := Option.some.inj (Option.some.inj hresult)
    decide

end Edges

section Order

variable {lex : Lexicon} {batch : List ArticleInput}

theorem eq_of_earlier (hids : (batch.map ArticleInput.articleId).Nodup) {a b : ArticleInput}
    (ha : a ∈ batch) (hb : b ∈ batch) (hab : Earlier a b) (hba : Earlier b a) : a = b := by
  have hkey : sortKey a = sortKey b := le_antisymm hab hba
  simp only [sortKey, toLex_inj, Prod.mk.injEq] at hkey
  exact inj_on_of_nodup_map hids ha hb hkey.2.2

theorem sorted_of_perm (hids : (batch.map ArticleInput.articleId).Nodup)
    {batch' : List ArticleInput} (h : batch'.Perm batch) :
    batch'.insertionSort Earlier = batch.insertionSort Earlier := by
  have hperm := ((batch'.perm_insertionSort Earlier).trans h).trans
    (batch.perm_insertionSort Earlier).symm
  refine hperm.eq_of_pairwise (fun a b ha hb hab hba ↦ ?_) (batch'.pairwise_insertionSort Earlier)
    (batch.pairwise_insertionSort Earlier)
  exact eq_of_earlier hids (h.mem_iff.mp ((mem_insertionSort _).mp ha))
    ((mem_insertionSort _).mp hb) hab hba

theorem sorted_ascending (hids : (batch.map ArticleInput.articleId).Nodup) :
    (batch.insertionSort Earlier).Pairwise (fun a b ↦ sortKey a < sortKey b) := by
  have hperm := batch.perm_insertionSort Earlier
  have hne : (batch.insertionSort Earlier).Pairwise (fun a b ↦ a.articleId ≠ b.articleId) :=
    pairwise_map.mp ((hperm.map ArticleInput.articleId).nodup_iff.mpr hids)
  refine ((batch.pairwise_insertionSort Earlier).and hne).imp (fun {a b} h ↦ ?_)
  refine lt_of_le_of_ne h.1 (fun hkey ↦ h.2 ?_)
  simp only [sortKey, toLex_inj, Prod.mk.injEq] at hkey
  exact hkey.2.2

theorem grown_groupsOf {groups : List (List Member)} (h : groupsOf lex batch = some groups) :
    Grown (edge lex) (batch.insertionSort Earlier) groups := by
  have hgrown := groupsFrom_grown unbeatable_least .start h
  rwa [nil_append] at hgrown

end Order

section Events

variable {lex : Lexicon} {batch : List ArticleInput}

structure Explains (lex : Lexicon) (articles : List ArticleInput) (event : ConsolidatedEvent) :
    Prop where
  ids : event.articleIds = articles.map ArticleInput.articleId
  ascending : articles.Pairwise (fun a b ↦ sortKey a < sortKey b)
  primary : ∃ first ∈ articles, event.primaryArticleId = first.articleId ∧
    ∀ a ∈ articles, sortKey first ≤ sortKey a
  edges : ∀ (i : ℕ) (a : ArticleInput) (m : GroupMember), articles[i]? = some a →
    event.members[i]? = some m → (i = 0 ∧ m.matchReason = .seed) ∨
      ∃ j < i, ∃ existing similarity, articles[j]? = some existing ∧ m.matchReason ≠ .seed ∧
        edge lex a existing = some (some (m.matchReason, similarity)) ∧
        m.similarity = Forecast.roundTo 4 similarity

theorem independence_fst (lex : Lexicon) (seen : List Text) (originals : List ArticleInput)
    (members : List Member) : (independence lex seen originals members).map Prod.fst = members := by
  induction members generalizing seen originals with
  | nil => rfl
  | cons member rest ih => rw [independence, map_cons, ih]

theorem member_eventOf {detect : Bool} {first : Member} {rest : List Member} {i : ℕ}
    {m : GroupMember} (h : (eventOf lex detect first rest).members[i]? = some m) :
    ∃ member, (first :: rest)[i]? = some member ∧ m.matchReason = reasonOf member ∧
      m.similarity = Forecast.roundTo 4 (similarityOf member) := by
  obtain ⟨⟨member, independent⟩, hflagged, rfl⟩ :=
    Option.map_eq_some_iff.mp ((getElem?_map ..).symm.trans h)
  refine ⟨member, ?_, rfl, rfl⟩
  rw [← independence_fst lex [] [] (first :: rest), getElem?_map, hflagged]
  rfl

theorem articleIds_eventOf (detect : Bool) (first : Member) (rest : List Member) :
    (eventOf lex detect first rest).articleIds =
      ((first :: rest).map Entry.item).map ArticleInput.articleId := by
  conv_rhs => rw [← independence_fst lex [] [] (first :: rest)]
  simp only [ConsolidatedEvent.articleIds, eventOf, map_map]
  rfl

theorem exists_buildEvent (detect : Bool) {placed : List ArticleInput} {groups : List (List Member)}
    (hgrown : Grown (edge lex) placed groups)
    (hascending : placed.Pairwise (fun a b ↦ sortKey a < sortKey b)) {g : List Member}
    (hg : g ∈ groups) : ∃ event, buildEvent lex detect g = some event ∧
      Explains lex (g.map Entry.item) event := by
  have hsorted := hascending.sublist (hgrown.ordered g hg)
  have hkeep : g.insertionSort (fun a b ↦ Earlier a.item b.item) = g :=
    List.Pairwise.insertionSort_eq ((pairwise_map.mp hsorted).imp (fun h ↦ le_of_lt h))
  rw [buildEvent, hkeep]
  cases g with
  | nil => exact absurd rfl (hgrown.nonempty [] hg)
  | cons first rest =>
    refine ⟨_, rfl, articleIds_eventOf detect first rest, hsorted, ?_, fun i a m ha hm ↦ ?_⟩
    · refine ⟨first.item, mem_cons_self, rfl, fun a ha ↦ ?_⟩
      rcases mem_cons.mp ha with rfl | ha
      · exact le_rfl
      · exact le_of_lt (rel_of_pairwise_cons hsorted ha)
    · obtain ⟨member, hmember, hreason, hsimilarity⟩ := member_eventOf hm
      rw [getElem?_map, hmember, Option.map_some, Option.some.injEq] at ha
      subst ha
      obtain ⟨hlt, hget⟩ := List.getElem?_eq_some_iff.mp hmember
      have hsplit : first :: rest = (first :: rest).take i ++ member ::
          (first :: rest).drop (i + 1) := by
        rw [← hget, cons_getElem_drop_succ, take_append_drop]
      obtain ⟨hfront, hedge⟩ | ⟨existing, hexisting, ⟨reason, similarity⟩, hedge, hfound⟩ :=
        hgrown.edges _ hg _ _ _ hsplit
      · left
        rw [take_eq_nil_iff] at hfront
        refine ⟨hfront.resolve_right (cons_ne_nil _ _), ?_⟩
        rw [hreason, reasonOf, hedge]
        rfl
      · right
        obtain ⟨j, hj⟩ := mem_iff_getElem?.mp hexisting
        have hji : j < i := by
          have hlength := (List.getElem?_eq_some_iff.mp hj).1
          rw [length_take] at hlength
          omega
        rw [getElem?_take_of_lt hji] at hj
        rw [hreason, hsimilarity, reasonOf, similarityOf, hedge]
        refine ⟨j, hji, existing.item, similarity, ?_, edge_reason_ne_seed hfound, hfound, rfl⟩
        rw [getElem?_map, hj]
        rfl

theorem consolidate_groups (detect : Bool) (hids : (batch.map ArticleInput.articleId).Nodup)
    {groups : List (List Member)} (h : groupsOf lex batch = some groups) :
    ∃ events, consolidate lex detect batch = some events ∧
      List.Forall₂ (fun g event ↦ Explains lex (g.map Entry.item) event) groups events := by
  obtain ⟨events, hevents, hexplains⟩ := exists_mapM_forall₂ (fun g hg ↦
    exists_buildEvent detect (grown_groupsOf h) (sorted_ascending hids) hg)
  refine ⟨events, ?_, hexplains⟩
  rw [consolidate, h]
  exact hevents

end Events

section Identity

variable {lex : Lexicon} {batch : List ArticleInput}

def Partitions (lex : Lexicon) (batch : List ArticleInput) (events : List ConsolidatedEvent) :
    Prop :=
  ∃ groups : List (List ArticleInput), groups.flatten.Perm batch ∧
    List.Forall₂ (Explains lex) groups events

def IdentityRespected (lex : Lexicon) (batch : List ArticleInput)
    (events : List ConsolidatedEvent) : Prop :=
  ∀ a ∈ batch, ∀ b ∈ batch, SameIdentity lex a b →
    ∃ event ∈ events, a.articleId ∈ event.articleIds ∧ b.articleId ∈ event.articleIds

/-- The canonical URLs of the article and of the members it is compared with exist. Groups
after one that holds its own source item are not looked at. -/
def Readable (lex : Lexicon) (groups : List (List Member)) (item : ArticleInput) : Prop :=
  ∀ (j : ℕ) (g : List Member), groups[j]? = some g →
    (∀ (i : ℕ) (g' : List Member), i < j → groups[i]? = some g' → ∀ e ∈ g', ¬SameItem item e.item) →
    ∀ e ∈ g, SameItem item e.item ∨ (canonical lex item).isSome ∧ (canonical lex e.item).isSome

theorem comparable_iff {groups : List (List Member)} {item : ArticleInput} :
    Comparable (edge lex) unbeatable groups item ↔ Readable lex groups item := by
  have hfinal : ∀ e : Member, (∀ found, edge lex item e.item = some (some found) →
      ¬unbeatable found) ↔ ¬SameItem item e.item := fun e ↦ by
    rw [← unbeatable_iff_sameItem lex]
    push Not
    rfl
  simp only [Comparable, Readable, edge_isSome_iff, hfinal]

def Unbridged (lex : Lexicon) (batch : List ArticleInput) : Prop :=
  ∀ front item rest groups, batch.insertionSort Earlier = front ++ item :: rest →
    groupsFrom (edge lex) rank unbeatable [] front = some groups →
    Readable lex groups item ∧ LinksOne (SameIdentity lex) groups item

theorem unbridged_iff : Unbridged lex batch ↔
    AllComparable (edge lex) rank unbeatable (batch.insertionSort Earlier) ∧
      Bridgeless (edge lex) rank unbeatable (SameIdentity lex) (batch.insertionSort Earlier) := by
  constructor
  · intro h
    exact ⟨fun front item rest groups hl hf ↦
      comparable_iff.mpr (h front item rest groups hl hf).1,
      fun front item rest groups hl hf ↦ (h front item rest groups hl hf).2⟩
  · intro h front item rest groups hl hf
    exact ⟨comparable_iff.mp (h.1 front item rest groups hl hf), h.2 front item rest groups hl hf⟩

theorem event_iff_together (hids : (batch.map ArticleInput.articleId).Nodup)
    {groups : List (List Member)} {events : List ConsolidatedEvent}
    (hgrown : Grown (edge lex) (batch.insertionSort Earlier) groups)
    (hexplains : List.Forall₂ (fun g event ↦ Explains lex (g.map Entry.item) event) groups events)
    {a b : ArticleInput} (ha : a ∈ batch) (hb : b ∈ batch) :
    (∃ event ∈ events, a.articleId ∈ event.articleIds ∧ b.articleId ∈ event.articleIds) ↔
      Together groups a b := by
  have hmem : ∀ g ∈ groups, ∀ c ∈ batch, c.articleId ∈
      (g.map Entry.item).map ArticleInput.articleId → c ∈ g.map Entry.item := by
    intro g hg c hc hid
    obtain ⟨d, hd, heq⟩ := mem_map.mp hid
    have hd' : d ∈ batch := (batch.perm_insertionSort Earlier).mem_iff.mp
      (hgrown.perm.mem_iff.mp (mem_items.mpr ⟨g, hg, hd⟩))
    exact inj_on_of_nodup_map hids hd' hc heq ▸ hd
  constructor
  · rintro ⟨event, hevent, hid, hid'⟩
    obtain ⟨g, hg, hexplain⟩ := exists_of_mem_right hexplains hevent
    rw [hexplain.ids] at hid hid'
    exact ⟨g, hg, hmem g hg a ha hid, hmem g hg b hb hid'⟩
  · rintro ⟨g, hg, hga, hgb⟩
    obtain ⟨event, hevent, hexplain⟩ := exists_of_mem_left hexplains hg
    refine ⟨event, hevent, ?_⟩
    rw [hexplain.ids]
    exact ⟨mem_map.mpr ⟨a, hga, rfl⟩, mem_map.mpr ⟨b, hgb, rfl⟩⟩

theorem partitions_of_explains {groups : List (List Member)} {events : List ConsolidatedEvent}
    (hgrown : Grown (edge lex) (batch.insertionSort Earlier) groups)
    (hexplains : List.Forall₂ (fun g event ↦ Explains lex (g.map Entry.item) event) groups events) :
    Partitions lex batch events := by
  refine ⟨groups.map (List.map Entry.item), ?_, List.forall₂_map_left_iff.mpr hexplains⟩
  have hperm := hgrown.perm.trans (batch.perm_insertionSort Earlier)
  rwa [items, map_flatten] at hperm

theorem identity_iff_bridgeless (detect : Bool) (hids : (batch.map ArticleInput.articleId).Nodup)
    {groups : List (List Member)} (h : groupsOf lex batch = some groups) :
    (∃ events, consolidate lex detect batch = some events ∧ IdentityRespected lex batch events) ↔
      Bridgeless (edge lex) rank unbeatable (SameIdentity lex) (batch.insertionSort Earlier) := by
  have hsorted := batch.perm_insertionSort Earlier
  have hgrown := grown_groupsOf h
  obtain ⟨events, hevents, hexplains⟩ := consolidate_groups detect hids h
  constructor
  · rintro ⟨events', hevents', hrespected⟩
    rw [hevents, Option.some.injEq] at hevents'
    subst hevents'
    refine bridgeless_of_together unbeatable_least (hsorted.nodup_iff.mpr hids.of_map) h ?_
    intro a ha b hb halike
    have ha' := hsorted.mem_iff.mp ha
    have hb' := hsorted.mem_iff.mp hb
    exact (event_iff_together hids hgrown hexplains ha' hb').mp (hrespected a ha' b hb' halike)
  · intro hbridgeless
    refine ⟨events, hevents, fun a ha b hb halike ↦ ?_⟩
    refine (event_iff_together hids hgrown hexplains ha hb).mpr ?_
    exact together_of_bridgeless unbeatable_least (identifies lex) hbridgeless h a
      (hsorted.mem_iff.mpr ha) b (hsorted.mem_iff.mpr hb) halike

/-- The result does not depend on the order of the batch, which it parts where there is
one; and identity is respected if and only if no article bridges two groups. -/
theorem consolidate_identity_iff (lex : Lexicon) (detect : Bool) (batch : List ArticleInput)
    (hids : (batch.map ArticleInput.articleId).Nodup) :
    (∀ batch', batch'.Perm batch →
      consolidate lex detect batch' = consolidate lex detect batch) ∧
    (∀ events, consolidate lex detect batch = some events → Partitions lex batch events) ∧
    ((∃ events, consolidate lex detect batch = some events ∧
      IdentityRespected lex batch events) ↔ Unbridged lex batch) := by
  refine ⟨fun batch' hperm ↦ ?_, fun events hevents ↦ ?_, ?_⟩
  · rw [consolidate, consolidate, groupsOf, groupsOf, sorted_of_perm hids hperm]
  · obtain ⟨groups, hgroups, -⟩ := Option.bind_eq_some_iff.mp hevents
    obtain ⟨events', hevents', hexplains⟩ := consolidate_groups detect hids hgroups
    rw [hevents, Option.some.injEq] at hevents'
    subst hevents'
    exact partitions_of_explains (grown_groupsOf hgroups) hexplains
  · have hsome : (groupsFrom (edge lex) rank unbeatable [] (batch.insertionSort Earlier)).isSome ↔
        AllComparable (edge lex) rank unbeatable (batch.insertionSort Earlier) :=
      groupsFrom_isSome_iff unbeatable_least unbeatable_of_rank_le
    rw [unbridged_iff]
    cases hgroups : groupsOf lex batch with
    | none =>
      rw [groupsOf] at hgroups
      rw [hgroups] at hsome
      constructor
      · rintro ⟨events, hevents, -⟩
        rw [consolidate, groupsOf, hgroups] at hevents
        cases hevents
      · rintro ⟨hall, -⟩
        cases hsome.mpr hall
    | some groups =>
      rw [identity_iff_bridgeless detect hids hgroups]
      rw [groupsOf] at hgroups
      rw [hgroups] at hsome
      exact (and_iff_right (hsome.mp rfl)).symm

end Identity

section Bridge

def blankLexicon : Lexicon where
  canonicalize url := some url
  normalize value := value
  split value := if value = [] then [] else [value]
  sha256 payload := payload
  sequenceRatio _ _ := 0
  extractCodes _ _ := ∅
  classify _ _ := none
  opposedRules _ := []

def untitled (articleId : ℤ) (sourceCode externalId canonicalUrl contentHash : String) :
    ArticleInput where
  articleId := articleId
  sourceCode := sourceCode.toList
  availableAt := articleId
  publishedAt := none
  externalId := externalId.toList
  url := []
  canonicalUrl := canonicalUrl.toList
  title := []
  summary := []
  contentHash := contentHash.toList
  entityCodes := none

def wireItem : ArticleInput := untitled 1 "wire" "7" "https://a.org/1" "x"

def otherItem : ArticleInput := untitled 2 "daily" "" "https://a.org/2" "y"

def bridgeItem : ArticleInput := untitled 3 "wire" "7" "https://a.org/2" "z"

theorem consolidate_two_unrelated :
    (∃ events, consolidate blankLexicon true [otherItem, wireItem] = some events ∧
      IdentityRespected blankLexicon [otherItem, wireItem] events) ↔
      Unbridged blankLexicon [otherItem, wireItem] :=
  (consolidate_identity_iff blankLexicon true [otherItem, wireItem] (by decide)).2.2

theorem storyEdge_untitled {lex : Lexicon} {a b : ArticleInput}
    (h : normalizeTitle lex a.title = []) : storyEdge lex a b = none := by
  have hsimilarity : titleSimilarity lex a.title b.title = 0 := by
    rw [titleSimilarity]
    exact if_pos (.inl h)
  rw [storyEdge, hsimilarity, if_neg (fun hkey ↦ hkey.1 h), if_neg, if_neg]
  · exact fun hlow ↦ absurd hlow.1 (by norm_num [entityTitleFloor])
  · exact fun hlow ↦ absurd hlow.1 (by norm_num [nearTitleThreshold])

theorem edge_otherItem_wireItem : edge blankLexicon otherItem wireItem = some none := by
  rw [edge, if_neg (by decide)]
  exact congrArg some (storyEdge_untitled rfl)

theorem groups_before_bridge : groupsFrom (edge blankLexicon) rank unbeatable []
    [wireItem, otherItem] = some [[⟨wireItem, none⟩], [⟨otherItem, none⟩]] := by
  simp [groupsFrom, place, scanGroups, scanMembers, edge_otherItem_wireItem]

theorem bridge_parts_identity :
    ([wireItem, otherItem, bridgeItem].map ArticleInput.articleId).Nodup ∧
    ¬∃ events, consolidate blankLexicon true [wireItem, otherItem, bridgeItem] = some events ∧
      IdentityRespected blankLexicon [wireItem, otherItem, bridgeItem] events := by
  have hids : ([wireItem, otherItem, bridgeItem].map ArticleInput.articleId).Nodup := by decide
  refine ⟨hids, ?_⟩
  rintro ⟨events, hevents, hrespected⟩
  obtain ⟨groups, hgroups, -⟩ := Option.bind_eq_some_iff.mp hevents
  have hbridgeless := (identity_iff_bridgeless true hids hgroups).mp ⟨events, hevents, hrespected⟩
  have hsorted : [wireItem, otherItem, bridgeItem].insertionSort Earlier =
      [wireItem, otherItem] ++ bridgeItem :: [] :=
    List.Pairwise.insertionSort_eq (by decide)
  have hone := hbridgeless _ _ _ _ hsorted groups_before_bridge 0 1 _ _ rfl rfl
    ⟨_, mem_cons_self, .inl (by decide)⟩
    ⟨_, mem_cons_self, .inr (.inl ⟨"https://a.org/2".toList, by decide, rfl, rfl⟩)⟩
  cases hone

end Bridge

end TalaPala.News
