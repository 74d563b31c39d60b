import TalaPala.Prices.Intervals
import TalaPala.Prices.Ticks

namespace TalaPala.Prices

open Library List

def intradayMinTicksPerDay : ℕ := 12

structure DayTickCount where
  day : ℤ
  ticks : ℕ

def IsMidnight (day : ℤ) : Prop := dayInterval.grid.IsBoundary day

instance (day : ℤ) : Decidable (IsMidnight day) :=
  inferInstanceAs (Decidable (dayInterval.grid.width ∣ day - dayInterval.grid.origin))

structure DayTickCounts where
  rows : List DayTickCount
  ascending : AscendingBy DayTickCount.day rows
  midnights : ∀ row ∈ rows, IsMidnight row.day

/-- The rows of the query, `GROUP BY d ORDER BY d`. -/
def Table.dayTickCounts (table : Table) (symbol : String) : DayTickCounts where
  rows := summarise (fun t : Tick ↦ dayInterval.bucketExpr t.observedAt)
    (fun day group ↦ some ⟨day, group.length⟩) (table.okTicks symbol)
  ascending := summarise_ascending (fun _ _ _ h ↦ (Option.some.inj h) ▸ rfl) _
  midnights := by
    intro row hrow
    obtain ⟨day, ⟨t, -, rfl⟩, hday⟩ := mem_summarise.mp hrow
    obtain rfl := Option.some.inj hday
    rw [CandleInterval.bucketExpr_eq_bucketStart]
    exact CandleInterval.isBoundary_bucketStart _ _

def runStart (start : ℤ) : List DayTickCount → ℤ
  | [] => start
  | row :: older =>
    if intradayMinTicksPerDay ≤ row.ticks ∧ row.day = start - 86400 * second then
      runStart row.day older
    else start

def denseStart (today : ℤ) : List DayTickCount → Option ℤ
  | [] => none
  | newest :: older =>
    if newest.ticks < intradayMinTicksPerDay then none
    else if newest.day < today - 86400 * second then none
    else some (runStart newest.day older)

def computeIntradayFrom (days : List DayTickCount) (now : ℤ) : Option ℤ :=
  let today := floorEpoch now 86400
  match days.reverse with
  | [] => none
  | last :: older =>
    -- The current day is still filling.
    if last.day = today ∧ last.ticks < intradayMinTicksPerDay then denseStart today older
    else denseStart today (last :: older)

section Runs

def DenseOn (rows : List DayTickCount) (day : ℤ) : Prop :=
  ∃ row ∈ rows, row.day = day ∧ intradayMinTicksPerDay ≤ row.ticks

instance (rows : List DayTickCount) (day : ℤ) : Decidable (DenseOn rows day) :=
  inferInstanceAs (Decidable (∃ row ∈ rows, _))

def DenseThrough (rows : List DayTickCount) (first last : ℤ) : Prop :=
  ∀ day, IsMidnight day → first ≤ day → day ≤ last → DenseOn rows day

def runsTo (rows : List DayTickCount) (last : ℤ) : Set ℤ :=
  {first | IsMidnight first ∧ first ≤ last ∧ DenseThrough rows first last}

variable {rows older later : List DayTickCount} {newest row : DayTickCount} {day first last : ℤ}

theorem IsMidnight.le_yesterday {a b : ℤ} (ha : IsMidnight a) (hb : IsMidnight b) (h : a < b) :
    a ≤ b - 86400 * second := by
  have hle := Grid.IsBoundary.add_width_le ha hb h
  have hwidth : dayInterval.grid.width = 86400 * second := rfl
  omega

theorem IsMidnight.yesterday {a : ℤ} (ha : IsMidnight a) : IsMidnight (a - 86400 * second) := by
  have hdvd := Int.dvd_sub ha (dvd_refl dayInterval.grid.width)
  rwa [sub_right_comm] at hdvd

theorem isMidnight_today (now : ℤ) : IsMidnight (floorEpoch now 86400) :=
  CandleInterval.isBoundary_bucketStart dayInterval now

theorem self_mem_runsTo (hlast : IsMidnight last) (h : DenseOn rows last) :
    last ∈ runsTo rows last :=
  ⟨hlast, le_rfl, fun _ _ hle hge ↦ le_antisymm hge hle ▸ h⟩

theorem isLeast_of_gap (hlast : IsMidnight last) (h : DenseOn rows last)
    (hgap : ¬ DenseOn rows (last - 86400 * second)) : IsLeast (runsTo rows last) last := by
  refine ⟨self_mem_runsTo hlast h, fun first hfirst ↦ not_lt.mp (fun hlt ↦ hgap ?_)⟩
  obtain ⟨hfirst, -, hthrough⟩ := hfirst
  exact hthrough _ hlast.yesterday (hfirst.le_yesterday hlast hlt) (by unfold second; omega)

theorem isLeast_of_yesterday (hlast : IsMidnight last) (h : DenseOn rows last)
    (hleast : IsLeast (runsTo rows (last - 86400 * second)) first) :
    IsLeast (runsTo rows last) first := by
  obtain ⟨⟨hfirst, hfirstle, hthrough⟩, hlower⟩ := hleast
  have hbefore : last - 86400 * second < last := by
    unfold second
    omega
  constructor
  · refine ⟨hfirst, hfirstle.trans hbefore.le, fun day hday hle hge ↦ ?_⟩
    rcases hge.lt_or_eq with hlt | rfl
    · exact hthrough day hday hle (hday.le_yesterday hlast hlt)
    · exact h
  · rintro other ⟨hother, hotherle, hotherthrough⟩
    rcases hotherle.lt_or_eq with hlt | rfl
    · exact hlower ⟨hother, hother.le_yesterday hlast hlt,
        fun day hday hle hge ↦ hotherthrough day hday hle (hge.trans hbefore.le)⟩
    · exact hfirstle.trans hbefore.le

theorem runStart_isLeast
    (hdesc : (newest :: older).Pairwise (fun a b ↦ b.day < a.day))
    (hmidnights : ∀ row ∈ newest :: older, IsMidnight row.day)
    (hrows : ∀ day ≤ newest.day, DenseOn rows day ↔ DenseOn (newest :: older) day)
    (hdense : intradayMinTicksPerDay ≤ newest.ticks) :
    IsLeast (runsTo rows newest.day) (runStart newest.day older) := by
  induction older generalizing newest with
  | nil =>
    have hnewest := (hrows _ le_rfl).mpr ⟨newest, mem_cons_self, rfl, hdense⟩
    refine isLeast_of_gap (hmidnights newest mem_cons_self) hnewest (fun hgap ↦ ?_)
    obtain ⟨row, hrow, hday, -⟩ := (hrows _ (by unfold second; omega)).mp hgap
    rw [mem_singleton.mp hrow] at hday
    unfold second at hday
    omega
  | cons row older ih =>
    have hnewest := (hrows _ le_rfl).mpr ⟨newest, mem_cons_self, rfl, hdense⟩
    have hmidnight := hmidnights newest mem_cons_self
    have hmidnights' : ∀ row' ∈ row :: older, IsMidnight row'.day :=
      fun row' hrow' ↦ hmidnights row' (mem_cons_of_mem _ hrow')
    obtain ⟨hnewer, hdesc'⟩ := pairwise_cons.mp hdesc
    have hlt := hnewer row mem_cons_self
    have hrows' : ∀ day ≤ row.day, DenseOn rows day ↔ DenseOn (row :: older) day := by
      intro day hday
      rw [hrows day (hday.trans hlt.le)]
      constructor
      · rintro ⟨row', hrow', rfl, hticks⟩
        rcases mem_cons.mp hrow' with rfl | hrow'
        · exact absurd hlt (not_lt.mpr hday)
        · exact ⟨row', hrow', rfl, hticks⟩
      · rintro ⟨row', hrow', hrest⟩
        exact ⟨row', mem_cons_of_mem _ hrow', hrest⟩
    rw [runStart]
    split
    · rename_i hnext
      have hleast := ih hdesc' hmidnights' hrows' hnext.1
      refine isLeast_of_yesterday hmidnight hnewest ?_
      rwa [hnext.2] at hleast ⊢
    · rename_i hnext
      refine isLeast_of_gap hmidnight hnewest (fun hgap ↦ hnext ?_)
      have hle := (hmidnights' row mem_cons_self).le_yesterday hmidnight hlt
      obtain ⟨row', hrow', hday, hticks⟩ := (hrows _ (by unfold second; omega)).mp hgap
      rcases mem_cons.mp hrow' with rfl | hrow'
      · unfold second at hday
        omega
      · rcases mem_cons.mp hrow' with rfl | hrow'
        · exact ⟨hticks, hday⟩
        · have hbelow := (pairwise_cons.mp hdesc').1 row' hrow'
          omega

end Runs

section Present

def lastFullDay (rows : List DayTickCount) (now : ℤ) : ℤ :=
  if DenseOn rows (floorEpoch now 86400) then floorEpoch now 86400
  else floorEpoch now 86400 - 86400 * second

structure StartsRun (rows : List DayTickCount) (now : ℤ) (start : Option ℤ) : Prop where
  absent : start = none ↔ ¬ DenseOn rows (lastFullDay rows now)
  least : ∀ day, start = some day → IsLeast (runsTo rows (lastFullDay rows now)) day

def ReachesPresent (rows : List DayTickCount) (now : ℤ) : Prop :=
  ∀ newest, rows.getLast? = some newest → floorEpoch now 86400 < newest.day →
    (newest.ticks < intradayMinTicksPerDay ∧ ¬ DenseOn rows (floorEpoch now 86400) ∧
      ¬ DenseOn rows (floorEpoch now 86400 - 86400 * second)) ∨
    DenseThrough rows (floorEpoch now 86400) newest.day

variable {days : DayTickCounts} {reached older : List DayTickCount}
  {newest row : DayTickCount} {now : ℤ} (later : List DayTickCount)

theorem descending_reverse (h : days.rows.reverse = later ++ reached) :
    (later ++ reached).Pairwise (fun a b ↦ b.day < a.day) := by
  rw [← h]
  exact pairwise_reverse.mpr days.ascending

theorem mem_split (h : days.rows.reverse = later ++ reached) :
    row ∈ days.rows ↔ row ∈ later ∨ row ∈ reached := by
  rw [← mem_reverse, h, mem_append]

theorem isLeast_of_split (h : days.rows.reverse = later ++ newest :: older)
    (hdense : intradayMinTicksPerDay ≤ newest.ticks) :
    IsLeast (runsTo days.rows newest.day) (runStart newest.day older) := by
  obtain ⟨-, hdesc, hlater⟩ := pairwise_append.mp (descending_reverse later h)
  refine runStart_isLeast hdesc (fun row hrow ↦ days.midnights row ((mem_split later h).mpr (.inr hrow)))
    (fun day hday ↦ ?_) hdense
  constructor
  · rintro ⟨row, hrow, rfl, hticks⟩
    rcases (mem_split later h).mp hrow with hrow | hrow
    · exact absurd (hlater row hrow newest mem_cons_self) (not_lt.mpr hday)
    · exact ⟨row, hrow, rfl, hticks⟩
  · rintro ⟨row, hrow, hrest⟩
    exact ⟨row, (mem_split later h).mpr (.inr hrow), hrest⟩

theorem denseOn_newest (h : days.rows.reverse = later ++ newest :: older)
    (hlater : ∀ row ∈ later, newest.day < row.day) :
    DenseOn days.rows newest.day ↔ intradayMinTicksPerDay ≤ newest.ticks := by
  obtain ⟨-, hdesc, -⟩ := pairwise_append.mp (descending_reverse later h)
  constructor
  · rintro ⟨row, hrow, hday, hticks⟩
    rcases (mem_split later h).mp hrow with hrow | hrow
    · exact absurd (hlater row hrow) hday.not_gt
    · rcases mem_cons.mp hrow with rfl | hrow
      · exact hticks
      · exact absurd ((pairwise_cons.mp hdesc).1 row hrow) hday.not_lt
  · exact fun hticks ↦ ⟨newest, (mem_split later h).mpr (.inr mem_cons_self), rfl, hticks⟩

theorem startsRun_none (h : ¬ DenseOn days.rows (lastFullDay days.rows now)) :
    StartsRun days.rows now none :=
  ⟨iff_of_true rfl h, fun _ hday ↦ absurd hday (Option.some_ne_none _).symm⟩

theorem startsRun_some (h : days.rows.reverse = later ++ newest :: older)
    (hdense : intradayMinTicksPerDay ≤ newest.ticks)
    (hlast : newest.day = lastFullDay days.rows now) :
    StartsRun days.rows now (some (runStart newest.day older)) := by
  have hmem : newest ∈ days.rows := (mem_split later h).mpr (.inr mem_cons_self)
  refine ⟨iff_of_false (Option.some_ne_none _) (not_not.mpr ⟨newest, hmem, hlast, hdense⟩), ?_⟩
  rintro day hday
  obtain rfl := Option.some.inj hday
  exact hlast ▸ isLeast_of_split later h hdense

theorem startsRun_of_reached (h : days.rows.reverse = later ++ reached)
    (hlater : ∀ row ∈ later, lastFullDay days.rows now < row.day)
    (hreached : ∀ row ∈ reached, row.day ≤ lastFullDay days.rows now) :
    StartsRun days.rows now (denseStart (floorEpoch now 86400) reached) := by
  have hreach : ∀ row ∈ days.rows, row.day = lastFullDay days.rows now → row ∈ reached := by
    intro row hrow hday
    exact ((mem_split later h).mp hrow).resolve_left (fun hrow ↦ absurd (hlater row hrow) hday.not_gt)
  cases reached with
  | nil =>
    refine startsRun_none ?_
    rintro ⟨row, hrow, hday, -⟩
    exact absurd (hreach row hrow hday) not_mem_nil
  | cons newest older =>
    have hle := hreached newest mem_cons_self
    have hdense := denseOn_newest later h (fun row hrow ↦ hle.trans_lt (hlater row hrow))
    -- a dense last full day is the newest of the days that are reached
    have hnewest : DenseOn days.rows (lastFullDay days.rows now) →
        newest.day = lastFullDay days.rows now := by
      rintro ⟨row, hrow, hday, -⟩
      rcases mem_cons.mp (hreach row hrow hday) with rfl | hrow
      · exact hday
      · have hdesc := (pairwise_append.mp (descending_reverse later h)).2.1
        have hlt := (pairwise_cons.mp hdesc).1 row hrow
        exact absurd hle (not_le.mpr (hday ▸ hlt))
    rw [denseStart]
    split_ifs with hsparse hold
    · refine startsRun_none (fun hlast ↦ ?_)
      rw [← hnewest hlast, hdense] at hlast
      exact absurd hlast (not_le.mpr hsparse)
    · refine startsRun_none (fun hlast ↦ ?_)
      rw [hnewest hlast, lastFullDay] at hold
      unfold second at hold
      split_ifs at hold <;> omega
    · refine startsRun_some later h (not_lt.mp hsparse) (le_antisymm hle ?_)
      rw [not_lt] at hold
      by_cases htoday : DenseOn days.rows (floorEpoch now 86400)
      · exact (hnewest (by rwa [lastFullDay, if_pos htoday])).ge
      · rwa [lastFullDay, if_neg htoday]

theorem lastFullDay_cases (rows : List DayTickCount) (now : ℤ) :
    DenseOn rows (lastFullDay rows now) ↔ DenseOn rows (floorEpoch now 86400) ∨
      DenseOn rows (floorEpoch now 86400 - 86400 * second) := by
  rw [lastFullDay]
  split_ifs with htoday
  · exact iff_of_true htoday (.inl htoday)
  · rw [or_iff_right htoday]

theorem startsRun_future (h : days.rows.reverse = newest :: older)
    (hfuture : floorEpoch now 86400 < newest.day) :
    StartsRun days.rows now (denseStart (floorEpoch now 86400) (newest :: older)) ↔
      (newest.ticks < intradayMinTicksPerDay ∧ ¬ DenseOn days.rows (floorEpoch now 86400) ∧
        ¬ DenseOn days.rows (floorEpoch now 86400 - 86400 * second)) ∨
      DenseThrough days.rows (floorEpoch now 86400) newest.day := by
  have hmidnight := days.midnights newest (mem_reverse.mp (h ▸ mem_cons_self))
  have hdense := denseOn_newest [] h (fun _ hrow ↦ absurd hrow not_mem_nil)
  have htoday := isMidnight_today now
  rw [← not_or, ← lastFullDay_cases, denseStart]
  split_ifs with hsparse hold
  · have hnot : ¬ DenseThrough days.rows (floorEpoch now 86400) newest.day := by
      intro hthrough
      have hlast := hdense.mp (hthrough _ hmidnight hfuture.le le_rfl)
      exact absurd hlast (not_le.mpr hsparse)
    rw [or_iff_left hnot, and_iff_right hsparse]
    exact ⟨fun hstarts ↦ hstarts.absent.mp rfl, startsRun_none⟩
  · unfold second at hold
    omega
  · rw [or_iff_right (fun hboth ↦ hsparse hboth.1)]
    have hleast := isLeast_of_split [] h (not_lt.mp hsparse)
    obtain ⟨⟨hstart, hstartle, hthrough⟩, hlower⟩ := hleast
    constructor
    · intro hstarts
      obtain ⟨-, hstartlast, -⟩ := (hstarts.least _ rfl).1
      have hlast : lastFullDay days.rows now ≤ floorEpoch now 86400 := by
        rw [lastFullDay]
        unfold second
        split_ifs <;> omega
      exact fun day hday hle hge ↦ hthrough day hday (hstartlast.trans (hlast.trans hle)) hge
    · intro hrest
      have htodayDense := hrest _ htoday le_rfl hfuture.le
      have hstarttoday := hlower ⟨htoday, hfuture.le, hrest⟩
      have hlast : lastFullDay days.rows now = floorEpoch now 86400 := by
        rw [lastFullDay, if_pos htodayDense]
      refine ⟨iff_of_false (Option.some_ne_none _) (not_not.mpr (hlast ▸ htodayDense)), ?_⟩
      intro day hday
      obtain rfl := Option.some.inj hday
      rw [hlast]
      refine ⟨⟨hstart, hstarttoday, fun day hday hle hge ↦
        hthrough day hday hle (hge.trans hfuture.le)⟩, fun other hother ↦ ?_⟩
      obtain ⟨hother, hotherle, hotherthrough⟩ := hother
      refine hlower ⟨hother, hotherle.trans hfuture.le, fun day hday hle hge ↦ ?_⟩
      rcases le_total day (floorEpoch now 86400) with hbefore | hafter
      · exact hotherthrough day hday hle hbefore
      · exact hrest day hday hafter hge

theorem startsRun_past (h : days.rows.reverse = newest :: older)
    (hpast : newest.day < floorEpoch now 86400) :
    StartsRun days.rows now (denseStart (floorEpoch now 86400) (newest :: older)) := by
  have hdesc := pairwise_cons.mp (descending_reverse [] h)
  have hbefore : ∀ row ∈ newest :: older, row.day < floorEpoch now 86400 := by
    intro row hrow
    rcases mem_cons.mp hrow with rfl | hrow
    · exact hpast
    · exact (hdesc.1 row hrow).trans hpast
  have hmem : ∀ row ∈ days.rows, row ∈ newest :: older :=
    fun row hrow ↦ h ▸ mem_reverse.mpr hrow
  have htoday : ¬ DenseOn days.rows (floorEpoch now 86400) := by
    rintro ⟨row, hrow, hday, -⟩
    exact (hbefore row (hmem row hrow)).ne hday
  refine startsRun_of_reached [] h (fun _ hrow ↦ absurd hrow not_mem_nil) (fun row hrow ↦ ?_)
  have hmidnight := days.midnights row (mem_reverse.mp (h ▸ hrow))
  rw [lastFullDay, if_neg htoday]
  exact hmidnight.le_yesterday (isMidnight_today now) (hbefore row hrow)

theorem startsRun_filling (h : days.rows.reverse = newest :: older)
    (heq : newest.day = floorEpoch now 86400) (hsparse : newest.ticks < intradayMinTicksPerDay) :
    StartsRun days.rows now (denseStart (floorEpoch now 86400) older) := by
  have hdesc := pairwise_cons.mp (descending_reverse [] h)
  have hdense := denseOn_newest [] h (fun _ hrow ↦ absurd hrow not_mem_nil)
  have htoday : ¬ DenseOn days.rows (floorEpoch now 86400) := by
    rw [← heq, hdense]
    exact not_le.mpr hsparse
  have hlast : lastFullDay days.rows now = newest.day - 86400 * second := by
    rw [lastFullDay, if_neg htoday, heq]
  refine startsRun_of_reached [newest] h (fun row hrow ↦ ?_) (fun row hrow ↦ ?_)
  · rw [mem_singleton.mp hrow, hlast]
    unfold second
    omega
  · have hmidnight := days.midnights row ((mem_split [newest] h).mpr (.inr hrow))
    rw [hlast, heq]
    exact hmidnight.le_yesterday (isMidnight_today now) (heq ▸ hdesc.1 row hrow)

theorem startsRun_today (h : days.rows.reverse = newest :: older)
    (heq : newest.day = floorEpoch now 86400) (hticks : intradayMinTicksPerDay ≤ newest.ticks) :
    StartsRun days.rows now (denseStart (floorEpoch now 86400) (newest :: older)) := by
  have hdesc := pairwise_cons.mp (descending_reverse [] h)
  have hdense := denseOn_newest [] h (fun _ hrow ↦ absurd hrow not_mem_nil)
  have hlast : lastFullDay days.rows now = newest.day := by
    rw [lastFullDay, if_pos (heq ▸ hdense.mpr hticks), heq]
  refine startsRun_of_reached [] h (fun _ hrow ↦ absurd hrow not_mem_nil) (fun row hrow ↦ ?_)
  rw [hlast]
  rcases mem_cons.mp hrow with rfl | hrow
  · exact le_rfl
  · exact (hdesc.1 row hrow).le

theorem reachesPresent_of_le (h : ∀ newest, days.rows.getLast? = some newest →
    newest.day ≤ floorEpoch now 86400) : ReachesPresent days.rows now :=
  fun newest hnewest hfuture ↦ absurd hfuture (not_lt.mpr (h newest hnewest))

/-- The walk gives the run that reaches the present exactly when no later day is in
its way. -/
theorem intraday_from_iff (days : DayTickCounts) (now : ℤ) :
    StartsRun days.rows now (computeIntradayFrom days.rows now) ↔
      ReachesPresent days.rows now := by
  have hlast := head?_reverse (l := days.rows)
  rw [computeIntradayFrom]
  cases h : days.rows.reverse with
  | nil =>
    rw [h, head?_nil] at hlast
    refine iff_of_true ?_ (reachesPresent_of_le (fun newest hnewest ↦ ?_))
    · exact startsRun_of_reached [] h (fun _ hrow ↦ absurd hrow not_mem_nil)
        (fun _ hrow ↦ absurd hrow not_mem_nil)
    · exact absurd (hlast.trans hnewest) (Option.some_ne_none _).symm
  | cons newest older =>
    rw [h, head?_cons] at hlast
    have hnewest : ∀ last, days.rows.getLast? = some last → last = newest :=
      fun last hlast' ↦ Option.some.inj (hlast'.symm.trans hlast.symm)
    dsimp only
    rcases lt_trichotomy newest.day (floorEpoch now 86400) with hpast | heq | hfuture
    · rw [if_neg (fun hboth ↦ hpast.ne hboth.1)]
      exact iff_of_true (startsRun_past h hpast)
        (reachesPresent_of_le (fun last hlast' ↦ hnewest last hlast' ▸ hpast.le))
    · refine iff_of_true ?_
        (reachesPresent_of_le (fun last hlast' ↦ hnewest last hlast' ▸ heq.le))
      split_ifs with hfilling
      · exact startsRun_filling h heq hfilling.2
      · exact startsRun_today h heq (not_lt.mp (fun hlt ↦ hfilling ⟨heq, hlt⟩))
    · rw [if_neg (fun hboth ↦ hfuture.ne' hboth.1), startsRun_future h hfuture]
      constructor
      · intro hrest last hlast' _
        rw [hnewest last hlast']
        exact hrest
      · exact fun hall ↦ hall newest hlast.symm hfuture

end Present

section Example

def epochDay (n : ℤ) : ℤ := n * (86400 * second)

def aheadOfClock : DayTickCounts where
  rows := [⟨epochDay 20670, 288⟩, ⟨epochDay 20671, 288⟩, ⟨epochDay 20672, 1⟩]
  ascending := by simp [AscendingBy, epochDay, second]
  midnights := by decide

/-- One tick from a clock that is ahead takes two full days away. -/
theorem tick_of_tomorrow :
    ¬ ∀ (days : DayTickCounts) (now : ℤ),
      StartsRun days.rows now (computeIntradayFrom days.rows now) := by
  intro h
  have hstarts := h aheadOfClock (epochDay 20671 + 23400 * second)
  have hnone : computeIntradayFrom aheadOfClock.rows (epochDay 20671 + 23400 * second) = none := by
    decide
  exact hstarts.absent.mp hnone (by decide)

end Example

end TalaPala.Prices
