import TalaPala.Economic.Revisions
import TalaPala.Library.Selection

namespace TalaPala.Economic

open Library Library.Transition List

inductive Dialect
  | postgresql
  | other

def inPeriodRange (seriesId : ℕ) (start stop : Option Date) (row : Observation) : Bool :=
  decide (row.seriesId = seriesId) && start.all (fun bound ↦ bound ≤ row.refPeriodStart) &&
    stop.all (fun bound ↦ row.refPeriodStart ≤ bound)

def knowable (cutoff : Instant) (includeProjections : Bool) (row : Observation) : Bool :=
  decide (row.availableAt ≤ cutoff) && (includeProjections || !row.isProjection)

def newestPeriodFirst (row other : Observation) : Prop :=
  other.refPeriodStart < row.refPeriodStart ∨
    (row.refPeriodStart = other.refPeriodStart ∧ servedBefore row other)

instance : DecidableRel newestPeriodFirst := fun _ _ ↦ inferInstanceAs (Decidable (_ ∨ _))

def pointInTimeStatement (dialectName : Dialect) (seriesId : ℕ) (cutoff : Instant)
    (start stop : Option Date) (includeProjections : Bool) (rows : List Observation) :
    List Observation :=
  let bounded := rows.filter (fun row ↦
    inPeriodRange seriesId start stop row && knowable cutoff includeProjections row)
  let newest := match dialectName with
    | .postgresql =>
      distinctOn Observation.refPeriodStart none (bounded.insertionSort newestPeriodFirst)
    | .other =>
      ((rowNumbers Observation.refPeriodStart servedBefore bounded).filter
        (fun ranked ↦ ranked.2 = 1)).map Prod.fst
  ascending Observation.refPeriodStart newest

def observationsSelect (rows : List Observation) (seriesId : ℕ) (asOf : Instant)
    (start stop before : Option Date) (includeProjections : Bool) (limit : ℕ) :
    List Observation :=
  let bounded := rows.filter (fun row ↦
    inPeriodRange seriesId start stop row && before.all (fun bound ↦ row.refPeriodStart < bound) &&
      knowable asOf includeProjections row)
  (distinctOn Observation.refPeriodStart none (bounded.insertionSort newestPeriodFirst)).take limit

def newerVintage (row other : Observation) : Bool :=
  if row.availableAt ≠ other.availableAt then decide (other.availableAt < row.availableAt)
  else decide (other.vintage < row.vintage)

def applyRow (asOf : Instant) (includeProjections : Bool)
    (best : AList (fun _ : Date ↦ Observation)) (row : Observation) :
    AList (fun _ : Date ↦ Observation) :=
  if asOf < row.availableAt then best
  else if row.isProjection && !includeProjections then best
  else keepBest Observation.refPeriodStart newerVintage best row

def pageLess (row other : Observation) : Bool :=
  if row.refPeriodStart ≠ other.refPeriodStart then
    decide (other.refPeriodStart < row.refPeriodStart)
  else newerVintage row other

/-- `range` is the order a map is walked in, which the language leaves open. -/
def applyPointInTime (range : List Observation → List Observation) (rows : List Observation)
    (asOf : Instant) (includeProjections : Bool) : List Observation :=
  (range (values (rows.foldl (applyRow asOf includeProjections) ∅))).insertionSort
    (fun row other ↦ pageLess other row = false)

theorem newerVintage_iff (row other : Observation) :
    newerVintage row other = true ↔ ¬ servedBefore other row := by
  unfold newerVintage servedBefore Instant
  split
  · rw [decide_eq_true_eq]; omega
  · rw [decide_eq_true_eq]; omega

theorem servedBefore_refl (row : Observation) : servedBefore row row :=
  (Std.Total.total row row).elim id id

instance : Std.Total newestPeriodFirst where
  total a b := by
    unfold newestPeriodFirst servedBefore Date Instant
    omega

instance : IsTrans Observation newestPeriodFirst where
  trans a b c := by
    unfold newestPeriodFirst servedBefore Date Instant
    omega

theorem pageLess_eq_false (row other : Observation) :
    pageLess other row = false ↔ newestPeriodFirst row other := by
  unfold pageLess newestPeriodFirst
  split
  · rw [decide_eq_false_iff_not]
    unfold Date at *
    omega
  · rename_i hsame
    rw [not_not] at hsame
    rw [← Bool.not_eq_true, newerVintage_iff, not_not, hsame]
    simp

instance : Std.Total (fun row other : Observation ↦ pageLess other row = false) where
  total a b := by
    simp only [pageLess_eq_false]
    exact Std.Total.total a b

instance : IsTrans Observation (fun row other ↦ pageLess other row = false) where
  trans a b c := by
    simp only [pageLess_eq_false]
    exact IsTrans.trans a b c

theorem sortedBy_insertionSort (rows : List Observation) :
    SortedBy Observation.refPeriodStart servedBefore (rows.insertionSort newestPeriodFirst) :=
  pairwise_insertionSort newestPeriodFirst rows

theorem applyRow_eq (asOf : Instant) (includeProjections : Bool)
    (best : AList (fun _ : Date ↦ Observation)) (row : Observation) :
    applyRow asOf includeProjections best row =
      if knowable asOf includeProjections row then
        keepBest Observation.refPeriodStart newerVintage best row
      else best := by
  unfold applyRow knowable
  by_cases hlate : asOf < row.availableAt
  · simp [hlate]
  · cases row.isProjection <;> cases includeProjections <;> simp [hlate, not_lt.mp hlate]

theorem foldl_applyRow (asOf : Instant) (includeProjections : Bool) (rows : List Observation)
    (best : AList (fun _ : Date ↦ Observation)) :
    rows.foldl (applyRow asOf includeProjections) best =
      (rows.filter (knowable asOf includeProjections)).foldl
        (keepBest Observation.refPeriodStart newerVintage) best := by
  induction rows generalizing best with
  | nil => rfl
  | cons row rows ih =>
    rw [foldl_cons, ih, applyRow_eq, filter_cons]
    split
    · rw [foldl_cons]
    · rfl

section Page

variable {range : List Observation → List Observation} (hrange : ∀ l, (range l).Perm l)
include hrange

theorem applyPointInTime_isSelection (rows : List Observation) (asOf : Instant)
    (includeProjections : Bool) :
    IsSelection Observation.refPeriodStart servedBefore
      (rows.filter (knowable asOf includeProjections))
      (applyPointInTime range rows asOf includeProjections) := by
  rw [applyPointInTime, foldl_applyRow]
  have hbest : HoldsBest Observation.refPeriodStart servedBefore _ _ :=
    HoldsBest.foldl newerVintage_iff (rows.filter (knowable asOf includeProjections))
  exact hbest.isSelection.of_perm ((perm_insertionSort _ _).trans (hrange _))

theorem applyPointInTime_reverse (rows : List Observation) (asOf : Instant)
    (includeProjections : Bool) :
    AscendingBy Observation.refPeriodStart
      (applyPointInTime range rows asOf includeProjections).reverse := by
  have hnodup := (applyPointInTime_isSelection hrange rows asOf includeProjections).nodup
  rw [AscendingBy, pairwise_reverse]
  rw [applyPointInTime] at hnodup ⊢
  have hsorted := pairwise_insertionSort (fun row other ↦ pageLess other row = false)
    (range (values (rows.foldl (applyRow asOf includeProjections) ∅)))
  refine (hsorted.and (pairwise_map.mp hnodup)).imp ?_
  intro a b hab
  rcases (pageLess_eq_false a b).mp hab.1 with hlt | ⟨he, _⟩
  · exact hlt
  · exact absurd he hab.2

theorem applyPointInTime_idem {range' : List Observation → List Observation}
    (hrange' : ∀ l, (range' l).Perm l) (rows : List Observation) (asOf : Instant)
    (includeProjections : Bool) :
    applyPointInTime range' (applyPointInTime range rows asOf includeProjections) asOf
      includeProjections = applyPointInTime range rows asOf includeProjections := by
  have hsel := applyPointInTime_isSelection hrange rows asOf includeProjections
  have hfilter : (applyPointInTime range rows asOf includeProjections).filter
      (knowable asOf includeProjections) =
      applyPointInTime range rows asOf includeProjections :=
    filter_eq_self.mpr (fun a ha ↦ (mem_filter.mp (hsel.best a ha).1).2)
  have hagain := applyPointInTime_isSelection hrange'
    (applyPointInTime range rows asOf includeProjections) asOf includeProjections
  rw [hfilter] at hagain
  have hself := hsel.self servedBefore_refl
  have huntied : Untied Observation.refPeriodStart servedBefore
      (applyPointInTime range rows asOf includeProjections) :=
    fun a ha b hb hk _ _ ↦ inj_on_of_nodup_map hsel.nodup ha hb hk
  have hrev := (hagain.of_perm (reverse_perm _)).eq (hself.of_perm (reverse_perm _))
    huntied (applyPointInTime_reverse hrange' _ asOf includeProjections)
    (applyPointInTime_reverse hrange rows asOf includeProjections)
  exact reverse_injective hrev

end Page

theorem pointInTimeStatement_isSelection (dialectName : Dialect) (seriesId : ℕ)
    (cutoff : Instant) (start stop : Option Date) (includeProjections : Bool)
    (rows : List Observation) :
    IsSelection Observation.refPeriodStart servedBefore
      (rows.filter (fun row ↦
        inPeriodRange seriesId start stop row && knowable cutoff includeProjections row))
      (pointInTimeStatement dialectName seriesId cutoff start stop includeProjections rows) := by
  unfold pointInTimeStatement
  cases dialectName with
  | postgresql =>
    refine IsSelection.of_perm ?_ (ascending_perm _)
    refine (distinctOn_isSelection servedBefore_refl (sortedBy_insertionSort _)).congr (fun a ↦ ?_)
    exact mem_insertionSort newestPeriodFirst
  | other =>
    refine IsSelection.of_perm ?_ (ascending_perm _)
    rw [rowNumbers_first]
    exact (summarise_isSelection _).1

theorem pointInTimeStatement_ascending (dialectName : Dialect) (seriesId : ℕ)
    (cutoff : Instant) (start stop : Option Date) (includeProjections : Bool)
    (rows : List Observation) : AscendingBy Observation.refPeriodStart
      (pointInTimeStatement dialectName seriesId cutoff start stop includeProjections rows) := by
  have h := pointInTimeStatement_isSelection dialectName seriesId cutoff start stop
    includeProjections rows
  exact ascending_of_nodup (((ascending_perm _).map _).nodup_iff.mp h.nodup)

theorem untied_of_unique {rows : List Observation}
    (hunique : (rows.map (fun row ↦ (row.period, row.vintage))).Nodup) (seriesId : ℕ)
    (start stop : Option Date) (p : Observation → Bool) :
    Untied Observation.refPeriodStart servedBefore
      (rows.filter (fun row ↦ inPeriodRange seriesId start stop row && p row)) := by
  intro a ha b hb hstart hab hba
  obtain ⟨ha, hina⟩ := mem_filter.mp ha
  obtain ⟨hb, hinb⟩ := mem_filter.mp hb
  have hseries : a.seriesId = b.seriesId := by
    simp only [inPeriodRange, Bool.and_eq_true, decide_eq_true_eq] at hina hinb
    rw [hina.1.1.1, hinb.1.1.1]
  have hvintage : a.vintage = b.vintage := by
    unfold servedBefore Instant at *
    omega
  apply inj_on_of_nodup_map hunique ha hb
  rw [Observation.period, Observation.period, hseries, hstart, hvintage]

section Answer

variable {rows rows' : List Observation}
  (hunique : (rows.map (fun row ↦ (row.period, row.vintage))).Nodup) {seriesId : ℕ}
  {cutoff : Instant} {start stop : Option Date} {includeProjections : Bool}
include hunique

theorem pointInTimeStatement_eq
    (hpast : (rows'.filter (fun row ↦ row.availableAt ≤ cutoff)).Perm
      (rows.filter (fun row ↦ row.availableAt ≤ cutoff))) (dialectName : Dialect) :
    pointInTimeStatement dialectName seriesId cutoff start stop includeProjections rows' =
      pointInTimeStatement .postgresql seriesId cutoff start stop includeProjections rows := by
  refine IsSelection.eq ((pointInTimeStatement_isSelection _ _ _ _ _ _ _).congr ?_)
    (pointInTimeStatement_isSelection _ _ _ _ _ _ _) (untied_of_unique hunique _ _ _ _)
    (pointInTimeStatement_ascending _ _ _ _ _ _ _) (pointInTimeStatement_ascending _ _ _ _ _ _ _)
  intro a
  have hmem := hpast.mem_iff (a := a)
  simp only [mem_filter, knowable, Bool.and_eq_true, decide_eq_true_eq] at hmem ⊢
  tauto

theorem applyPointInTime_eq
    (hpast : (rows'.filter (fun row ↦ row.availableAt ≤ cutoff)).Perm
      (rows.filter (fun row ↦ row.availableAt ≤ cutoff)))
    {range : List Observation → List Observation} (hrange : ∀ l, (range l).Perm l)
    {given : List Observation} (hgiven : given.Perm (rows'.filter (inPeriodRange seriesId start stop))) :
    applyPointInTime range given cutoff includeProjections =
      (pointInTimeStatement .postgresql seriesId cutoff start stop includeProjections
        rows).reverse := by
  have hpage := applyPointInTime_isSelection hrange given cutoff includeProjections
  rw [← reverse_inj, reverse_reverse]
  refine IsSelection.eq ((hpage.of_perm (reverse_perm _)).congr ?_)
    (pointInTimeStatement_isSelection _ _ _ _ _ _ _) (untied_of_unique hunique _ _ _ _)
    (applyPointInTime_reverse hrange _ _ _) (pointInTimeStatement_ascending _ _ _ _ _ _ _)
  intro a
  have hmem := hpast.mem_iff (a := a)
  simp only [mem_filter, hgiven.mem_iff, knowable, Bool.and_eq_true, decide_eq_true_eq] at hmem ⊢
  tauto

theorem observationsSelect_eq (before : Option Date) (limit : ℕ) :
    observationsSelect rows seriesId cutoff start stop before includeProjections limit =
      ((pointInTimeStatement .postgresql seriesId cutoff start stop includeProjections
        rows).reverse.filter
          (fun row ↦ before.all (fun bound ↦ row.refPeriodStart < bound))).take limit := by
  let p (date : Date) : Bool := before.all (fun bound ↦ date < bound)
  have hselect : IsSelection Observation.refPeriodStart servedBefore
      (rows.filter (fun row ↦ inPeriodRange seriesId start stop row &&
        (p row.refPeriodStart && knowable cutoff includeProjections row)))
      (distinctOn Observation.refPeriodStart none ((rows.filter (fun row ↦
        inPeriodRange seriesId start stop row && p row.refPeriodStart &&
          knowable cutoff includeProjections row)).insertionSort newestPeriodFirst)) := by
    refine (distinctOn_isSelection servedBefore_refl (sortedBy_insertionSort _)).congr (fun a ↦ ?_)
    simp only [mem_insertionSort, Bool.and_assoc]
  have hstatement := (pointInTimeStatement_isSelection .postgresql seriesId cutoff start stop
    includeProjections rows).filter p
  have hdesc := distinctOn_descending (sortedBy_insertionSort (rows.filter (fun row ↦
    inPeriodRange seriesId start stop row && p row.refPeriodStart &&
      knowable cutoff includeProjections row))) none
  rw [observationsSelect, filter_reverse, ← reverse_reverse (distinctOn _ _ _)]
  refine congrArg (fun l ↦ (List.reverse l).take limit) ?_
  refine IsSelection.eq (hselect.of_perm (reverse_perm _)) (hstatement.congr (fun a ↦ ?_))
    (untied_of_unique hunique _ _ _ _) (pairwise_reverse.mpr hdesc)
    ((pointInTimeStatement_ascending _ _ _ _ _ _ _).filter _)
  simp only [mem_filter, Bool.and_eq_true]
  tauto

end Answer

/-- Both spellings of the statement, the Go statement and the Go reduction of the rows in
any order give one answer, which nothing published after the cutoff moves. -/
theorem one_point_in_time_answer {rows : List Observation}
    (hunique : (rows.map (fun row ↦ (row.period, row.vintage))).Nodup) (seriesId : ℕ)
    (cutoff : Instant) (start stop : Option Date) (includeProjections : Bool) :
    (∀ dialectName,
      pointInTimeStatement dialectName seriesId cutoff start stop includeProjections rows =
        pointInTimeStatement .postgresql seriesId cutoff start stop includeProjections rows) ∧
    AscendingBy Observation.refPeriodStart
      (pointInTimeStatement .postgresql seriesId cutoff start stop includeProjections rows) ∧
    (∀ before limit,
      observationsSelect rows seriesId cutoff start stop before includeProjections limit =
        ((pointInTimeStatement .postgresql seriesId cutoff start stop includeProjections
          rows).reverse.filter
            (fun row ↦ before.all (fun bound ↦ row.refPeriodStart < bound))).take limit) ∧
    (∀ range : List Observation → List Observation, (∀ l, (range l).Perm l) →
      (∀ given, given.Perm (rows.filter (inPeriodRange seriesId start stop)) →
        applyPointInTime range given cutoff includeProjections =
          (pointInTimeStatement .postgresql seriesId cutoff start stop includeProjections
            rows).reverse) ∧
      ∀ range' : List Observation → List Observation, (∀ l, (range' l).Perm l) → ∀ given,
        applyPointInTime range' (applyPointInTime range given cutoff includeProjections) cutoff
          includeProjections = applyPointInTime range given cutoff includeProjections) ∧
    (∀ rows' : List Observation, (rows'.filter (fun row ↦ row.availableAt ≤ cutoff)).Perm
        (rows.filter (fun row ↦ row.availableAt ≤ cutoff)) →
      (∀ dialectName,
        pointInTimeStatement dialectName seriesId cutoff start stop includeProjections rows' =
          pointInTimeStatement .postgresql seriesId cutoff start stop includeProjections rows) ∧
      ∀ range : List Observation → List Observation, (∀ l, (range l).Perm l) →
        ∀ given, given.Perm (rows'.filter (inPeriodRange seriesId start stop)) →
          applyPointInTime range given cutoff includeProjections =
            (pointInTimeStatement .postgresql seriesId cutoff start stop includeProjections
              rows).reverse) := by
  refine ⟨fun _ ↦ pointInTimeStatement_eq hunique (.refl _) _,
    pointInTimeStatement_ascending _ _ _ _ _ _ _, observationsSelect_eq hunique, ?_, ?_⟩
  · intro range hrange
    exact ⟨fun given hgiven ↦ applyPointInTime_eq hunique (.refl _) hrange hgiven,
      fun range' hrange' given ↦ applyPointInTime_idem hrange hrange' given _ _⟩
  · intro rows' hpast
    exact ⟨pointInTimeStatement_eq hunique hpast, fun range hrange given hgiven ↦
      applyPointInTime_eq hunique hpast hrange hgiven⟩

def publishedRow (refPeriodStart : Date) (availableAt : Instant) (vintage : ℕ)
    (isProjection : Bool) (value : ℚ) : Observation where
  seriesId := 1
  refPeriodStart := refPeriodStart
  refPeriodEnd := refPeriodStart + 30
  refPeriodLabel := ""
  value := .finite value
  publishedAt := none
  availableAt := availableAt
  vintage := vintage
  isNowcast := false
  isProjection := isProjection
  sourceDocumentId := none
  collectedAt := availableAt
  method := none
  availableAtApprox := false

def publishedRows : List Observation :=
  [publishedRow 0 5 2 false 11, publishedRow 0 9 1 false 10, publishedRow 31 9 1 false 20,
    publishedRow 31 9 2 false 21, publishedRow 62 9 1 true 30, publishedRow 0 20 3 false 12]

theorem published_answer : (publishedRows.map (fun row ↦ (row.period, row.vintage))).Nodup ∧
    pointInTimeStatement .other 1 10 none none false publishedRows =
      [publishedRow 0 9 1 false 10, publishedRow 31 9 2 false 21] ∧
    applyPointInTime List.reverse publishedRows 10 false =
      [publishedRow 31 9 2 false 21, publishedRow 0 9 1 false 10] := by
  have hunique : (publishedRows.map (fun row ↦ (row.period, row.vintage))).Nodup := by decide
  obtain ⟨hdialect, _, _, hrange, _⟩ := one_point_in_time_answer hunique 1 10 none none false
  have hanswer : pointInTimeStatement .postgresql 1 10 none none false publishedRows =
      [publishedRow 0 9 1 false 10, publishedRow 31 9 2 false 21] := by decide
  refine ⟨hunique, (hdialect .other).trans hanswer, ?_⟩
  rw [(hrange List.reverse reverse_perm).1 publishedRows (by decide), hanswer]
  rfl

section Reingest

def recorded (calls : List Call) : List Observation := calls.foldl rowsAfter []

def settled (rows : List Observation) : Store where
  committed := rows
  pending := []
  phase := fun _ ↦ .idle

theorem settled_visibleAt (rows : List Observation) (w : ℕ) (period : Period) :
    (settled rows).visibleAt w period = periodRows period rows := by
  simp [settled, Store.visibleAt, Store.visible, Store.own]

theorem Inv.settled {rows : List Observation}
    (h : ∀ period, Ordered (periodRows period rows)) : Inv (settled rows) :=
  ⟨fun w period ↦ settled_visibleAt rows w period ▸ h period,
    fun _ hp ↦ absurd hp not_mem_nil, fun _ _ _ hp ↦ Phase.noConfusion hp,
    fun _ _ _ _ hp ↦ Phase.noConfusion hp⟩

theorem rowsAfter_ordered {rows : List Observation}
    (h : ∀ period, Ordered (periodRows period rows)) (c : Call) (period : Period) :
    Ordered (periodRows period (rowsAfter rows c)) := by
  cases hcheck : c.check with
  | error e =>
    rw [rowsAfter, recordObservation, hcheck]
    exact h period
  | ok request =>
    obtain ⟨t, ht, _, hrows⟩ :=
      execute_pass (s := settled rows) (w := 0) (c := c) rfl rfl hcheck
    have hinv : Inv t := (run_of_execute ht).preserves
      (fun _ _ _ hi _ hn ↦ hi.step hn) (Inv.settled h)
    rw [← show t.committed = rowsAfter rows c from hrows]
    exact hinv.committed_ordered period

theorem recorded_ordered (calls : List Call) (period : Period) :
    Ordered (periodRows period (recorded calls)) := by
  induction calls using List.reverseRecOn generalizing period with
  | nil => exact .nil
  | append_singleton calls c ih =>
    rw [recorded, foldl_append]
    exact rowsAfter_ordered ih c period

theorem Ordered.vintage_le_last {rows : List Observation} (h : Ordered rows)
    {last : Observation} (hlast : rows.getLast? = some last) :
    ∀ r ∈ rows, r.vintage ≤ last.vintage := by
  intro r hr
  obtain ⟨init, rfl⟩ := getLast?_eq_some_iff.mp hlast
  rw [h.vintage_cons]
  have := ((h.mem_vintages r.vintage).mp ⟨r, hr, rfl⟩).2
  simpa using this

theorem Ordered.nodup {rows : List Observation} (h : Ordered rows) :
    (rows.map Observation.vintage).Nodup := by
  rw [h.vintages]
  exact nodup_range'

theorem currentRow_isSelection (seriesId : ℕ) (refPeriodStart : Date) (rows : List Observation) :
    IsSelection Observation.refPeriodStart servedBefore
      (periodRows (seriesId, refPeriodStart) rows)
      (currentRow (periodRows (seriesId, refPeriodStart) rows)).toList := by
  have hstart : ∀ a ∈ periodRows (seriesId, refPeriodStart) rows,
      a.refPeriodStart = refPeriodStart := by
    intro a ha
    have hperiod := of_decide_eq_true (mem_filter.mp ha).2
    exact congrArg Prod.snd hperiod
  cases hfirst : currentRow (periodRows (seriesId, refPeriodStart) rows) with
  | none =>
    rw [firstBy_eq_none.mp hfirst]
    exact ⟨.nil, fun a ha ↦ absurd ha not_mem_nil, fun a ha ↦ absurd ha not_mem_nil⟩
  | some row =>
    obtain ⟨hrow, hbest⟩ := firstBy_spec hfirst
    refine ⟨nodup_singleton _, fun a ha ↦ ?_, fun a ha ↦ ?_⟩
    · obtain rfl := mem_singleton.mp ha
      exact ⟨hrow, fun b hb _ ↦ hbest b hb⟩
    · exact ⟨row, mem_singleton_self row, (hstart row hrow).trans (hstart a ha).symm⟩

theorem served_eq_currentRow {rows : List Observation}
    (h : ∀ period, Ordered (periodRows period rows)) (dialectName : Dialect) (seriesId : ℕ)
    {cutoff : Instant} (hcutoff : ∀ row ∈ rows, row.availableAt ≤ cutoff) (refPeriodStart : Date) :
    (pointInTimeStatement dialectName seriesId cutoff none none true rows).filter
        (fun row ↦ row.refPeriodStart = refPeriodStart) =
      (currentRow (periodRows (seriesId, refPeriodStart) rows)).toList := by
  have hserved := (pointInTimeStatement_isSelection dialectName seriesId cutoff none none true
    rows).filter (fun date ↦ date = refPeriodStart)
  have huntied : Untied Observation.refPeriodStart servedBefore
      (periodRows (seriesId, refPeriodStart) rows) := by
    intro a ha b hb _ hab hba
    apply inj_on_of_nodup_map (h (seriesId, refPeriodStart)).nodup ha hb
    unfold servedBefore Instant at *
    omega
  refine IsSelection.eq (hserved.congr (fun a ↦ ?_))
    (currentRow_isSelection seriesId refPeriodStart rows) huntied
    ((pointInTimeStatement_ascending _ _ _ _ _ _ _).filter _) ?_
  · simp only [periodRows, Observation.period, inPeriodRange, knowable, mem_filter,
      Option.all_none, Bool.and_true, Bool.true_or, Bool.and_eq_true, decide_eq_true_eq,
      Prod.mk.injEq]
    constructor
    · intro hserved
      exact ⟨hserved.1.1, hserved.1.2.1, hserved.2⟩
    · intro hrow
      exact ⟨⟨hrow.1, hrow.2.1, hcutoff a hrow.1⟩, hrow.2.2⟩
  · cases currentRow (periodRows (seriesId, refPeriodStart) rows) with
    | none => exact .nil
    | some row => exact pairwise_singleton _ _

theorem recordObservation_unchanged {rows : List Observation} {c : Call} {request : Request}
    {row : Observation} (hcheck : c.check = .ok request)
    (hrow : currentRow (periodRows c.period rows) = some row) (hstates : row.states request = true) :
    recordObservation rows c = .ok (rows, written .unchanged row.vintage (some row)) := by
  have hplan : plan request (some row) (periodBounds (periodRows c.period rows)) =
      .ok (.unchanged (written .unchanged row.vintage (some row))) := by
    rw [plan, Option.any_some, if_pos hstates]
    rfl
  rw [recordObservation, hcheck]
  simp only [hrow, hplan]

theorem valuesEqual_refl {value : Value} (h : value ≠ .nan) : valuesEqual value value = true := by
  cases value with
  | finite q =>
    rw [valuesEqual, decide_eq_true_eq, sub_self, abs_zero]
    exact le_max_of_le_right (by decide +kernel)
  | infinite negative => exact beq_self_eq_true negative
  | nan => exact absurd rfl h

/-- After any calls of one writer, a call is compared with the row that a read past every
availability serves, that of the highest vintage; stated again, it writes nothing. -/
theorem reingest_is_noop (calls : List Call) (seriesId : ℕ) (refPeriodStart : Date) :
    (∀ dialectName cutoff, (∀ row ∈ recorded calls, row.availableAt ≤ cutoff) →
      (pointInTimeStatement dialectName seriesId cutoff none none true (recorded calls)).filter
          (fun row ↦ row.refPeriodStart = refPeriodStart) =
        (currentRow (periodRows (seriesId, refPeriodStart) (recorded calls))).toList) ∧
    ∀ row, currentRow (periodRows (seriesId, refPeriodStart) (recorded calls)) = some row →
      (∀ other ∈ periodRows (seriesId, refPeriodStart) (recorded calls),
        other.vintage ≤ row.vintage) ∧
      (row.value ≠ .nan → valuesEqual row.value row.value = true) ∧
      ∀ c request, c.check = .ok request → c.period = (seriesId, refPeriodStart) →
        valuesEqual row.value request.value = true → c.method = row.method →
          recordObservation (recorded calls) c =
            .ok (recorded calls, written .unchanged row.vintage (some row)) := by
  have hordered := recorded_ordered calls
  refine ⟨fun dialectName cutoff hcutoff ↦
    served_eq_currentRow hordered dialectName seriesId hcutoff refPeriodStart, ?_⟩
  intro row hrow
  have hlast := hrow
  rw [(hordered _).currentRow] at hlast
  refine ⟨(hordered _).vintage_le_last hlast, valuesEqual_refl, ?_⟩
  intro c request hcheck hperiod hvalue hmethod
  rw [← hperiod] at hrow
  refine recordObservation_unchanged hcheck hrow ?_
  rw [Observation.states, hvalue, Call.check_call hcheck, hmethod]
  simp

end Reingest

section Past

variable {asOf cutoff : Instant} {s t : Store}

theorem pointInTimeStatement_past (h : asOf ≤ cutoff) (dialectName : Dialect) (seriesId : ℕ)
    (start stop : Option Date) (includeProjections : Bool) (rows : List Observation) :
    pointInTimeStatement dialectName seriesId asOf start stop includeProjections
        (rows.filter (fun row ↦ row.availableAt ≤ cutoff)) =
      pointInTimeStatement dialectName seriesId asOf start stop includeProjections rows := by
  have hbounded : ∀ row ∈ rows, (inPeriodRange seriesId start stop row &&
      knowable asOf includeProjections row && decide (row.availableAt ≤ cutoff)) =
      (inPeriodRange seriesId start stop row && knowable asOf includeProjections row) := by
    intro row _
    by_cases hrow : row.availableAt ≤ asOf
    · rw [decide_eq_true (hrow.trans h), Bool.and_true]
    · simp [knowable, hrow]
  unfold pointInTimeStatement
  rw [filter_filter, filter_congr hbounded]

def Phase.Later (cutoff : Instant) : Phase → Prop
  | .idle => True
  | .called request | .compared request _ | .numbered request _ _ => cutoff < request.availableAt

def Store.past (cutoff : Instant) (s : Store) : List Observation :=
  s.committed.filter (fun row ↦ row.availableAt ≤ cutoff)

/-- Nothing in flight was available by the cutoff. -/
structure Store.Later (cutoff : Instant) (s : Store) : Prop where
  pending : ∀ p ∈ s.pending, cutoff < p.2.availableAt
  phase : ∀ w, (s.phase w).Later cutoff

def Action.later (cutoff : Instant) : Action → Bool
  | .call _ c => c.check.toOption.all (fun request ↦ cutoff < request.availableAt)
  | _ => true

theorem Store.Later.setPhase (h : s.Later cutoff) (w : ℕ) {phase : Phase}
    (hphase : phase.Later cutoff) : (s.setPhase w phase).Later cutoff :=
  ⟨h.pending, (Function.forall_update_iff _ _).mpr ⟨hphase, fun v _ ↦ h.phase v⟩⟩

theorem Store.Later.step (h : s.Later cutoff) {a : Action} (ha : a.later cutoff = true)
    (hn : next s a = some t) : t.Later cutoff ∧ t.past cutoff = s.past cutoff := by
  have hidle (w : ℕ) : (s.setPhase w .idle).Later cutoff := h.setPhase w trivial
  have hphase (w : ℕ) {phase : Phase} (hp : s.phase w = phase) : phase.Later cutoff :=
    hp ▸ h.phase w
  have hkept (w : ℕ) : ∀ p ∈ s.pending.filter (fun p ↦ p.1 ≠ w), cutoff < p.2.availableAt :=
    fun p hp ↦ h.pending p (mem_of_mem_filter hp)
  rcases next_cases hn with ⟨w, c, rfl, _, rfl | ⟨request, hcheck, rfl⟩⟩ | ⟨w, request, _, hp, rfl⟩ |
    ⟨w, request, current, _, hp, rfl⟩ | ⟨w, _, rfl⟩ |
    ⟨w, request, current, bounds, status, row, _, hp, hplan, _, _, rfl⟩ |
    ⟨w, _, _, rfl⟩ | ⟨w, _, rfl⟩
  · exact ⟨h, rfl⟩
  · rw [Action.later, hcheck] at ha
    have hlater : cutoff < request.availableAt := of_decide_eq_true ha
    exact ⟨h.setPhase w hlater, rfl⟩
  · have hlater : cutoff < request.availableAt := hphase w hp
    exact ⟨h.setPhase w hlater, rfl⟩
  · have hlater : cutoff < request.availableAt := hphase w hp
    exact ⟨h.setPhase w hlater, rfl⟩
  · exact ⟨hidle w, rfl⟩
  · refine ⟨⟨forall_mem_append.mpr ⟨h.pending, forall_mem_singleton.mpr ?_⟩, (hidle w).phase⟩, rfl⟩
    rw [(plan_insert hplan).2.1]
    exact hphase w hp
  · have hnone : (s.own w).filter (fun row ↦ row.availableAt ≤ cutoff) = [] := by
      refine filter_eq_nil_iff.mpr (fun row hrow ↦ ?_)
      simpa using h.pending (w, row) (mem_own.mp hrow)
    refine ⟨⟨hkept w, h.phase⟩, ?_⟩
    rw [Store.past, Store.publish, filter_append, hnone, append_nil]
    rfl
  · exact ⟨⟨hkept w, (hidle w).phase⟩, rfl⟩

/-- Once all that is in flight is later than the cutoff, no writer moves what is
served as of it or of a moment before it. -/
theorem past_is_frozen {actions : List Action} (hstart : s.Later cutoff)
    (hrun : Run next (fun _ a ↦ a.later cutoff = true) s actions t) (hasOf : asOf ≤ cutoff)
    (dialectName : Dialect) (seriesId : ℕ) (start stop : Option Date)
    (includeProjections : Bool) :
    pointInTimeStatement dialectName seriesId asOf start stop includeProjections t.committed =
      pointInTimeStatement dialectName seriesId asOf start stop includeProjections
        s.committed := by
  have hkept : t.Later cutoff ∧ t.past cutoff = s.past cutoff :=
    hrun.preserves (I := fun t ↦ t.Later cutoff ∧ t.past cutoff = s.past cutoff)
      (fun _ _ _ hu ha hn ↦ (hu.1.step ha hn).imp_right (fun h ↦ h.trans hu.2)) ⟨hstart, rfl⟩
  rw [← pointInTimeStatement_past hasOf, ← Store.past, hkept.2, Store.past,
    pointInTimeStatement_past hasOf]

theorem overlapping_past : ∃ t : Store, t.committed.length = 2 ∧
    pointInTimeStatement .other 1 15 none none true t.committed =
      [publishedRow 0 10 1 false 1] := by
  have hrun : (execute next (fun _ a ↦ a.later 15) (settled [publishedRow 0 10 1 false 1])
      (overlapping.drop 5)).map (fun t ↦ t.committed.length) = some 2 := by decide +kernel
  obtain ⟨t, ht, hlength⟩ := Option.map_eq_some_iff.mp hrun
  have hstart : (settled [publishedRow 0 10 1 false 1]).Later 15 :=
    ⟨fun _ hp ↦ absurd hp not_mem_nil, fun _ ↦ trivial⟩
  exact ⟨t, hlength, (past_is_frozen hstart (run_of_execute ht) le_rfl .other 1 none none
    true).trans (by decide)⟩

theorem Ordered.past {rows : List Observation} (h : Ordered rows) (cutoff : Instant) :
    rows.filter (fun row ↦ row.availableAt ≤ cutoff) <+: rows := by
  have hsorted := h.available
  clear h
  induction rows with
  | nil => exact prefix_rfl
  | cons row rows ih =>
    obtain ⟨hfirst, hrest⟩ := pairwise_cons.mp hsorted
    rw [filter_cons]
    split
    · exact (prefix_cons_inj row).mpr (ih hrest)
    · rename_i hlate
      rw [filter_eq_nil_iff.mpr (fun r hr ↦ ?_)]
      · exact nil_prefix
      · have := hfirst r hr
        rw [decide_eq_true_eq] at hlate ⊢
        exact fun hr ↦ hlate (this.trans hr)

end Past

end TalaPala.Economic
