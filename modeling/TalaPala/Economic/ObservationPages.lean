import TalaPala.Economic.PointInTime

namespace TalaPala.Economic

open Library List

def maxObservationLimit : ℕ := 5000

structure Provenance where
  code : String
  measure : String
  unit : String
  frequency : String
  calendar : String
  providerCode : String
  qualityTier : String
  basePeriod : String
  splicePolicy : String
  notes : String

structure SeriesRow where
  id : ℕ
  provenance : Provenance
  projectionCount : ℕ

structure ObservationQuery where
  asOf : Instant
  asOfProvided : Bool
  start : Option Date
  stop : Option Date
  before : Option Date
  limit : ℕ
  includeProjections : Bool
  ordered : ∀ first ∈ start, ∀ last ∈ stop, first ≤ last
  limit_pos : 1 ≤ limit
  limit_le : limit ≤ maxObservationLimit

def ObservationQuery.fetchLimit (q : ObservationQuery) : ℕ :=
  if q.limit < 1 then 1 else q.limit + 1

structure ObservationItem where
  refPeriodStart : Date
  refPeriodEnd : Date
  refPeriodLabel : String
  value : Value
  vintage : ℕ
  availableAt : Instant
  publishedAt : Option Instant
  isProjection : Bool
  isNowcast : Bool
  deriving DecidableEq

def Observation.item (row : Observation) : ObservationItem where
  refPeriodStart := row.refPeriodStart
  refPeriodEnd := row.refPeriodEnd
  refPeriodLabel := row.refPeriodLabel
  value := row.value
  vintage := row.vintage
  availableAt := row.availableAt
  publishedAt := row.publishedAt
  isProjection := row.isProjection
  isNowcast := row.isNowcast

structure ObservationsResponse where
  provenance : Provenance
  asOf : Instant
  asOfProvided : Bool
  effectiveWindow : Option Date × Option Date × Option Date
  vintagesUsed : List ℕ
  includeProjections : Bool
  projectionsInPage : ℕ
  projectionsAvailable : ℕ
  hasMore : Bool
  nextBefore : Option Date
  observations : List ObservationItem
  count : ℕ

def buildObservationsResponse (range : List Observation → List Observation) (series : SeriesRow)
    (rows : List Observation) (q : ObservationQuery) : ObservationsResponse :=
  let reduced := applyPointInTime range rows q.asOf q.includeProjections
  let hasMore := decide (q.limit < reduced.length)
  let selected := if hasMore then reduced.take q.limit else reduced
  { provenance := series.provenance
    asOf := q.asOf
    asOfProvided := q.asOfProvided
    effectiveWindow := (q.start, q.stop, q.before)
    vintagesUsed := ((selected.map Observation.vintage).dedup).insertionSort (· ≤ ·)
    includeProjections := q.includeProjections
    projectionsInPage := selected.countP Observation.isProjection
    projectionsAvailable := series.projectionCount
    hasMore := hasMore
    nextBefore := if hasMore then selected.getLast?.map Observation.refPeriodStart else none
    observations := selected.reverse.map Observation.item
    count := selected.length }

def observations (range : List Observation → List Observation) (table : List Observation)
    (series : SeriesRow) (q : ObservationQuery) : ObservationsResponse :=
  buildObservationsResponse range series
    (observationsSelect table series.id q.asOf q.start q.stop q.before q.includeProjections
      q.fetchLimit) q

/-- The pages of a client, newest first, that asks again with `before=next_before` until
it is null. A map may be walked in another order each time. -/
inductive FollowsPages (table : List Observation) (series : SeriesRow) :
    ObservationQuery → List ObservationsResponse → Prop
  | last {q : ObservationQuery} {range : List Observation → List Observation}
      (hrange : ∀ l, (range l).Perm l) (h : (observations range table series q).nextBefore = none) :
      FollowsPages table series q [observations range table series q]
  | more {q : ObservationQuery} {range : List Observation → List Observation} {bound : Date}
      {pages : List ObservationsResponse} (hrange : ∀ l, (range l).Perm l)
      (h : (observations range table series q).nextBefore = some bound)
      (rest : FollowsPages table series { q with before := some bound } pages) :
      FollowsPages table series q (observations range table series q :: pages)

section Pages

variable {table : List Observation} {series : SeriesRow} {q : ObservationQuery}
  {range : List Observation → List Observation}

def pointInTimeView (table : List Observation) (series : SeriesRow) (q : ObservationQuery) :
    List Observation :=
  (pointInTimeStatement .postgresql series.id q.asOf q.start q.stop q.includeProjections
    table).filter (fun row ↦ q.before.all (fun bound ↦ row.refPeriodStart < bound))

theorem pointInTimeView_ascending :
    AscendingBy Observation.refPeriodStart (pointInTimeView table series q) :=
  (pointInTimeStatement_ascending _ _ _ _ _ _ _).filter _

theorem applyPointInTime_of_descending (hrange : ∀ l, (range l).Perm l) {rows : List Observation}
    {asOf : Instant} {includeProjections : Bool}
    (hknown : ∀ row ∈ rows, knowable asOf includeProjections row = true)
    (hasc : AscendingBy Observation.refPeriodStart rows.reverse) :
    applyPointInTime range rows asOf includeProjections = rows := by
  have hnodup : (rows.map Observation.refPeriodStart).Nodup := by
    rw [← nodup_reverse, ← map_reverse]
    exact pairwise_map.mpr (hasc.imp ne_of_lt)
  have hinj : ∀ row ∈ rows, ∀ other ∈ rows, row.refPeriodStart = other.refPeriodStart →
      row = other := fun row hrow other hother ↦ inj_on_of_nodup_map hnodup hrow hother
  have hself : IsSelection Observation.refPeriodStart servedBefore rows rows :=
    ⟨hnodup, fun row hrow ↦ ⟨hrow, fun other hother hsame ↦
      hinj other hother row hrow hsame ▸ servedBefore_refl _⟩, fun row hrow ↦ ⟨row, hrow, rfl⟩⟩
  have hreduced := applyPointInTime_isSelection hrange rows asOf includeProjections
  rw [filter_eq_self.mpr hknown] at hreduced
  refine reverse_injective ?_
  exact (hreduced.of_perm (reverse_perm _)).eq (hself.of_perm (reverse_perm _))
    (fun row hrow other hother hsame _ _ ↦ hinj row hrow other hother hsame)
    (applyPointInTime_reverse hrange _ _ _) hasc

section Page

variable (hunique : (table.map (fun row ↦ (row.period, row.vintage))).Nodup)
  (hrange : ∀ l, (range l).Perm l)
include hunique hrange

theorem reduced_eq :
    applyPointInTime range (observationsSelect table series.id q.asOf q.start q.stop q.before
        q.includeProjections q.fetchLimit) q.asOf q.includeProjections =
      (pointInTimeView table series q).reverse.take (q.limit + 1) := by
  have hfetch : q.fetchLimit = q.limit + 1 := by
    have hpos := q.limit_pos
    rw [ObservationQuery.fetchLimit, if_neg (by omega)]
  have hview : ∀ row ∈ pointInTimeView table series q,
      knowable q.asOf q.includeProjections row = true := by
    intro row hrow
    have hsel := pointInTimeStatement_isSelection .postgresql series.id q.asOf q.start q.stop
      q.includeProjections table
    have hkept := (hsel.best row (mem_filter.mp hrow).1).1
    exact (Bool.and_eq_true_iff.mp (mem_filter.mp hkept).2).2
  rw [observationsSelect_eq hunique, hfetch, filter_reverse]
  refine applyPointInTime_of_descending hrange (fun row hrow ↦ ?_) ?_
  · exact hview row (mem_reverse.mp (mem_of_mem_take hrow))
  · exact pairwise_reverse.mpr
      ((pairwise_reverse.mpr pointInTimeView_ascending).sublist (take_sublist _ _))

variable (series q)

theorem observations_page :
    (observations range table series q).observations =
        (newest q.limit (pointInTimeView table series q)).map Observation.item ∧
      (observations range table series q).hasMore =
        decide (q.limit < (pointInTimeView table series q).length) ∧
      (observations range table series q).nextBefore =
        if q.limit < (pointInTimeView table series q).length then
          (newest q.limit (pointInTimeView table series q)).head?.map Observation.refPeriodStart
        else none := by
  have hlength : q.limit <
      ((pointInTimeView table series q).reverse.take (q.limit + 1)).length ↔
        q.limit < (pointInTimeView table series q).length := by
    rw [length_take, length_reverse]
    omega
  have hselected : (if q.limit < (pointInTimeView table series q).length then
      ((pointInTimeView table series q).reverse.take (q.limit + 1)).take q.limit
      else (pointInTimeView table series q).reverse.take (q.limit + 1)) =
        (newest q.limit (pointInTimeView table series q)).reverse := by
    rw [newest, reverse_reverse]
    split_ifs with hmore
    · rw [take_take, Nat.min_eq_left (Nat.le_succ _)]
    · rw [take_of_length_le (by rw [length_reverse]; omega),
        take_of_length_le (by rw [length_reverse]; omega)]
  simp only [observations, buildObservationsResponse, reduced_eq hunique hrange, hlength,
    decide_eq_true_eq, hselected, reverse_reverse, getLast?_reverse, and_self]

theorem hasMore_iff :
    ((observations range table series q).hasMore = true ↔
      ∃ row ∈ pointInTimeView table series q,
        ∀ item ∈ (observations range table series q).observations,
          row.refPeriodStart < item.refPeriodStart) ∧
    ((observations range table series q).nextBefore.isSome = true ↔
      (observations range table series q).hasMore = true) := by
  obtain ⟨hitems, hmore, hnext⟩ := observations_page series q hunique hrange
  have hpos := q.limit_pos
  rw [hitems, hmore, hnext, decide_eq_true_eq]
  constructor
  · constructor
    · intro hlt
      have hsplit := take_append_newest q.limit (pointInTimeView table series q)
      have hasc : AscendingBy Observation.refPeriodStart (pointInTimeView table series q) :=
        pointInTimeView_ascending
      obtain ⟨row, hrow⟩ := exists_mem_of_length_pos (l := (pointInTimeView table series
        q).take ((pointInTimeView table series q).length - q.limit))
        (by rw [length_take]; omega)
      refine ⟨row, mem_of_mem_take hrow, fun item hitem ↦ ?_⟩
      obtain ⟨newer, hnewer, rfl⟩ := mem_map.mp hitem
      rw [← hsplit] at hasc
      exact (pairwise_append.mp hasc).2.2 row hrow newer hnewer
    · rintro ⟨row, hrow, hall⟩
      by_contra hnot
      rw [newest_of_length_le (not_lt.mp hnot)] at hall
      exact absurd (hall _ (mem_map_of_mem hrow)) (lt_irrefl _)
  · split_ifs with hlt
    · refine iff_of_true ?_ hlt
      rw [Option.isSome_map, isSome_head?, ← length_pos_iff, length_newest]
      omega
    · exact iff_of_false Bool.false_ne_true hlt

end Page

theorem pointInTimeView_before {first : Observation} {rest : List Observation}
    (h : newest q.limit (pointInTimeView table series q) = first :: rest) :
    pointInTimeView table series { q with before := some first.refPeriodStart } =
      (pointInTimeView table series q).take
        ((pointInTimeView table series q).length - q.limit) := by
  have hfirst : first ∈ pointInTimeView table series q :=
    (newest_suffix q.limit _).subset (h ▸ mem_cons_self)
  have hbefore := (mem_filter.mp hfirst).2
  rw [← pointInTimeView_ascending.filter_before_newest h]
  rw [pointInTimeView, pointInTimeView, filter_filter]
  refine filter_congr (fun row _ ↦ ?_)
  rw [Option.all_some, Bool.eq_iff_iff, Bool.and_eq_true, decide_eq_true_eq]
  refine (and_iff_left_of_imp (fun hlt ↦ ?_)).symm
  rw [Option.all_eq_true] at hbefore ⊢
  exact fun bound hbound ↦ decide_eq_true (hlt.trans (of_decide_eq_true (hbefore bound hbound)))

section Run

variable (hunique : (table.map (fun row ↦ (row.period, row.vintage))).Nodup)
include hunique

theorem exists_followsPages (q : ObservationQuery) :
    ∃ pages, FollowsPages table series q pages := by
  have hrange : ∀ l : List Observation, (id l).Perm l := fun l ↦ List.Perm.refl l
  induction hn : (pointInTimeView table series q).length using Nat.strong_induction_on
    generalizing q with
  | _ n ih =>
    obtain ⟨-, -, hnext⟩ := observations_page series q hunique hrange
    have hpos := q.limit_pos
    split_ifs at hnext with hmore
    · cases hnewest : newest q.limit (pointInTimeView table series q) with
      | nil =>
        have hlength := congrArg List.length hnewest
        rw [length_newest, length_nil] at hlength
        omega
      | cons first rest =>
        rw [hnewest] at hnext
        obtain ⟨pages, hpages⟩ := ih _
          (by rw [pointInTimeView_before hnewest, length_take]; omega)
          { q with before := some first.refPeriodStart } rfl
        exact ⟨_, .more hrange hnext hpages⟩
    · exact ⟨_, .last hrange hnext⟩

theorem FollowsPages.cut (hrange : ∀ l, (range l).Perm l) {bound : Date}
    (h : (observations range table series q).nextBefore = some bound) :
    pointInTimeView table series { q with before := some bound } ++
        newest q.limit (pointInTimeView table series q) = pointInTimeView table series q ∧
      pointInTimeView table series { q with before := some bound } ≠ [] ∧
      newest q.limit (pointInTimeView table series q) ≠ [] ∧
      ∀ row ∈ pointInTimeView table series q, row.refPeriodStart < bound →
        row ∈ pointInTimeView table series { q with before := some bound } := by
  obtain ⟨-, -, hnext⟩ := observations_page series q hunique hrange
  rw [h] at hnext
  split_ifs at hnext with hmore
  obtain ⟨first, hfirst, rfl⟩ := Option.map_eq_some_iff.mp hnext.symm
  obtain ⟨rest, hcons⟩ := head?_eq_some_iff.mp hfirst
  have hview := pointInTimeView_before hcons
  refine ⟨by rw [hview, take_append_newest], ?_, hcons ▸ cons_ne_nil _ _,
    fun row hrow hlt ↦ ?_⟩
  · rw [hview, ← length_pos_iff, length_take]
    omega
  · rw [hview, ← pointInTimeView_ascending.filter_before_newest hcons]
    exact mem_filter.mpr ⟨hrow, decide_eq_true hlt⟩

theorem FollowsPages.flatMap {pages : List ObservationsResponse}
    (h : FollowsPages table series q pages) :
    pages.reverse.flatMap ObservationsResponse.observations =
      (pointInTimeView table series q).map Observation.item := by
  induction h with
  | @last q range hrange hlast =>
    obtain ⟨hitems, -, hnext⟩ := observations_page series q hunique hrange
    rw [reverse_singleton, flatMap_singleton, hitems]
    have hcursor := (hasMore_iff series q hunique hrange).2
    obtain ⟨-, hmore, -⟩ := observations_page series q hunique hrange
    rw [hlast, hmore, decide_eq_true_eq] at hcursor
    rw [newest_of_length_le (not_lt.mp (fun hlt ↦ Bool.false_ne_true (hcursor.mpr hlt)))]
  | @more q range bound pages hrange hmore _ ih =>
    obtain ⟨hitems, -, -⟩ := observations_page series q hunique hrange
    obtain ⟨hsplit, -, -, -⟩ := FollowsPages.cut hunique hrange hmore
    rw [reverse_cons, flatMap_append, ih, flatMap_singleton, hitems, ← map_append, hsplit]

theorem FollowsPages.nonempty {pages : List ObservationsResponse}
    (h : FollowsPages table series q pages) (hview : pointInTimeView table series q ≠ []) :
    ∀ page ∈ pages, page.observations ≠ [] := by
  have hfirst : ∀ {q range}, (∀ l, (range l).Perm l) → pointInTimeView table series q ≠ [] →
      (observations range table series q).observations ≠ [] := by
    intro q range hrange hview
    have hpos := q.limit_pos
    have hlength := length_pos_iff.mpr hview
    obtain ⟨hitems, -, -⟩ := observations_page series q hunique hrange
    rw [hitems, ← length_pos_iff, length_map, length_newest]
    omega
  induction h with
  | last hrange _ => exact forall_mem_singleton.mpr (hfirst hrange hview)
  | more hrange hmore _ ih =>
    obtain ⟨-, hrest, -, -⟩ := FollowsPages.cut hunique hrange hmore
    exact forall_mem_cons.mpr ⟨hfirst hrange hview, ih hrest⟩

theorem FollowsPages.hasMore_iff {pages : List ObservationsResponse}
    (h : FollowsPages table series q pages) :
    ∀ page ∈ pages,
      (page.hasMore = true ↔ ∃ row ∈ pointInTimeView table series q,
        ∀ item ∈ page.observations, row.refPeriodStart < item.refPeriodStart) ∧
      (page.nextBefore.isSome = true ↔ page.hasMore = true) := by
  induction h with
  | last hrange _ => exact forall_mem_singleton.mpr (Economic.hasMore_iff _ _ hunique hrange)
  | @more q range bound pages hrange hmore hrest ih =>
    obtain ⟨hsplit, hne, -, holder⟩ := FollowsPages.cut hunique hrange hmore
    refine forall_mem_cons.mpr ⟨Economic.hasMore_iff _ _ hunique hrange, fun page hpage ↦ ?_⟩
    obtain ⟨hiff, hcursor⟩ := ih page hpage
    refine ⟨hiff.trans ?_, hcursor⟩
    constructor
    · rintro ⟨row, hrow, hall⟩
      exact ⟨row, hsplit ▸ mem_append_left _ hrow, hall⟩
    · rintro ⟨row, hrow, hall⟩
      obtain ⟨item, hitem⟩ := exists_mem_of_ne_nil _
        (FollowsPages.nonempty hunique hrest hne page hpage)
      have hmem : item ∈ pages.reverse.flatMap ObservationsResponse.observations :=
        mem_flatMap.mpr ⟨page, mem_reverse.mpr hpage, hitem⟩
      rw [FollowsPages.flatMap hunique hrest] at hmem
      obtain ⟨newer, hnewer, rfl⟩ := mem_map.mp hmem
      have hbound := (mem_filter.mp hnewer).2
      rw [Option.all_some, decide_eq_true_eq] at hbound
      exact ⟨row, holder row hrow ((hall _ hitem).trans hbound), hall⟩

end Run

end Pages

/-- Paging ends, and the pages from the oldest on are the point-in-time view, each
period once and with its row there. -/
theorem paging_observations_exact {table : List Observation}
    (hunique : (table.map (fun row ↦ (row.period, row.vintage))).Nodup) (series : SeriesRow)
    (q : ObservationQuery) :
    (∃ pages, FollowsPages table series q pages) ∧
    ∀ pages, FollowsPages table series q pages →
      pages.reverse.flatMap ObservationsResponse.observations =
        (pointInTimeView table series q).map Observation.item ∧
      AscendingBy ObservationItem.refPeriodStart
        (pages.reverse.flatMap ObservationsResponse.observations) ∧
      ∀ page ∈ pages,
        (page.hasMore = true ↔ ∃ row ∈ pointInTimeView table series q,
          ∀ item ∈ page.observations, row.refPeriodStart < item.refPeriodStart) ∧
        (page.nextBefore.isSome = true ↔ page.hasMore = true) := by
  refine ⟨exists_followsPages hunique q, fun pages hpages ↦ ⟨hpages.flatMap hunique, ?_,
    hpages.hasMore_iff hunique⟩⟩
  rw [hpages.flatMap hunique]
  exact pairwise_map.mpr pointInTimeView_ascending

section Example

def publishedSeries : SeriesRow where
  id := 1
  provenance := ⟨"CPI", "index", "1400=100", "monthly", "jalali", "sci", "official", "1400", "none",
    ""⟩
  projectionCount := 1

def onePerPage : ObservationQuery where
  asOf := 10
  asOfProvided := true
  start := none
  stop := none
  before := none
  limit := 1
  includeProjections := false
  ordered := fun _ h ↦ absurd h (Option.not_mem_none _)
  limit_pos := le_rfl
  limit_le := by decide

/-- Two periods, one to a page. -/
theorem published_pages :
    (∃ pages, FollowsPages publishedRows publishedSeries onePerPage pages) ∧
      ∀ pages, FollowsPages publishedRows publishedSeries onePerPage pages →
        pages.reverse.flatMap ObservationsResponse.observations =
          [(publishedRow 0 9 1 false 10).item, (publishedRow 31 9 2 false 21).item] := by
  have hunique : (publishedRows.map (fun row ↦ (row.period, row.vintage))).Nodup := by decide
  obtain ⟨hends, hpages⟩ := paging_observations_exact hunique publishedSeries onePerPage
  refine ⟨hends, fun pages h ↦ (hpages pages h).1.trans ?_⟩
  decide

end Example

end TalaPala.Economic
