import TalaPala.Trend.Backtest

namespace TalaPala.Trend

open Library Prices List

section Walk

variable {α κ : Type*} [LinearOrder κ] {key : α → κ} {l : List α} {p : α → Bool}

theorem mem_takeWhile_descending (h : l.Pairwise (fun a b ↦ key b < key a)) {a : α} :
    a ∈ l.takeWhile p ↔ a ∈ l ∧ ∀ b ∈ l, key a ≤ key b → p b = true := by
  induction l with
  | nil => simp
  | cons first rest ih =>
    obtain ⟨hfirst, hrest⟩ := pairwise_cons.mp h
    cases hp : p first with
    | false =>
      rw [takeWhile_cons_of_neg (by simp [hp])]
      refine ⟨fun ha ↦ absurd ha not_mem_nil, fun ⟨ha, hall⟩ ↦ ?_⟩
      have hle : key a ≤ key first := by
        rcases mem_cons.mp ha with rfl | ha
        · exact le_rfl
        · exact (hfirst a ha).le
      have hbad := hall first mem_cons_self hle
      rw [hp] at hbad
      cases hbad
    | true =>
      rw [takeWhile_cons_of_pos hp, mem_cons, ih hrest]
      constructor
      · rintro (rfl | ⟨ha, hall⟩)
        · refine ⟨mem_cons_self, forall_mem_cons.mpr ⟨fun _ ↦ hp, fun b hb hle ↦ ?_⟩⟩
          exact absurd (hfirst b hb) (not_lt.mpr hle)
        · exact ⟨mem_cons_of_mem _ ha, forall_mem_cons.mpr ⟨fun _ ↦ hp, hall⟩⟩
      · rintro ⟨ha, hall⟩
        rcases mem_cons.mp ha with rfl | ha
        · exact .inl rfl
        · exact .inr ⟨ha, fun b hb ↦ hall b (mem_cons_of_mem _ hb)⟩

theorem le_of_getLast?_descending (h : l.Pairwise (fun a b ↦ key b < key a)) {a b : α}
    (hb : l.getLast? = some b) (ha : a ∈ l) : key b ≤ key a := by
  obtain ⟨front, rfl⟩ := getLast?_eq_some_iff.mp hb
  rcases mem_append.mp ha with ha | ha
  · exact ((pairwise_append.mp h).2.2 a ha b (mem_singleton_self b)).le
  · rw [mem_singleton.mp ha]

end Walk

section Days

def dayCount (hourly : List Candle) (now day : ℤ) : ℕ :=
  (completed hourly Timeframe.oneHour.seconds now).countP
    (fun c ↦ bucketStart c.start Timeframe.oneDay.seconds = day)

def today (now : ℤ) : ℤ := bucketStart now Timeframe.oneDay.seconds

def IsDay (day : ℤ) : Prop := Timeframe.oneDay.grid.IsBoundary day

def NewestDay (hourly : List Candle) (now newest : ℤ) : Prop :=
  newest < today now ∧ 0 < dayCount hourly now newest ∧
    ∀ day < today now, 0 < dayCount hourly now day → day ≤ newest

def FullDays (hourly : List Candle) (now first last : ℤ) : Prop :=
  ∀ day, IsDay day → first ≤ day → day ≤ last → intradayMinBucketsPerDay ≤ dayCount hourly now day

/-- The intraday era begins a run of days up to the newest that has none missing, and as
early as such a run can. -/
def Unbroken (hourly : List Candle) (now : ℤ) : Prop :=
  ∀ start, intradaySince hourly now = some start →
    ∃ newest, NewestDay hourly now newest ∧ IsDay start ∧ start ≤ newest ∧
      FullDays hourly now start newest ∧
        ∀ earlier, IsDay earlier → earlier < start → ¬FullDays hourly now earlier newest

def GapsCutOff (hourly : List Candle) (now : ℤ) : Prop :=
  ∀ newest full empty, NewestDay hourly now newest →
    intradayMinBucketsPerDay ≤ dayCount hourly now full → IsDay empty →
      dayCount hourly now empty = 0 → full < empty → empty < newest →
        ∃ thin, full < thin ∧ thin ≤ newest ∧ 0 < dayCount hourly now thin ∧
          dayCount hourly now thin < intradayMinBucketsPerDay

variable {hourly : List Candle} {now : ℤ}

theorem isDay_of_count {day : ℤ} (h : 0 < dayCount hourly now day) : IsDay day := by
  obtain ⟨c, -, hc⟩ := countP_pos_iff.mp h
  exact of_decide_eq_true hc ▸ bucketStart_isBoundary .oneDay c.start

def perDay (hourly : List Candle) (now : ℤ) : List (ℤ × ℕ) :=
  let day (c : Candle) := bucketStart c.start Timeframe.oneDay.seconds
  summarise day (fun start group ↦ some (start, group.length))
    ((completed hourly Timeframe.oneHour.seconds now).filter (fun c ↦ day c < today now))

theorem mem_perDay {day : ℤ} {n : ℕ} :
    (day, n) ∈ perDay hourly now ↔
      day < today now ∧ 0 < dayCount hourly now day ∧ n = dayCount hourly now day := by
  let dayOf (c : Candle) := bucketStart c.start Timeframe.oneDay.seconds
  let done := completed hourly Timeframe.oneHour.seconds now
  have hgroup : day < today now →
      (group dayOf (done.filter (fun c ↦ dayOf c < today now)) day).length =
        dayCount hourly now day := by
    intro hlt
    rw [group, filter_filter, dayCount, countP_eq_length_filter]
    congr 1
    refine filter_congr (fun c _ ↦ ?_)
    by_cases hc : dayOf c = day
    · simp [hc, hlt, dayOf] at hc ⊢
    · simp [dayOf] at hc
      simp [dayOf, hc]
  rw [perDay, mem_summarise]
  constructor
  · rintro ⟨k, ⟨c, hc, rfl⟩, heq⟩
    obtain ⟨rfl, rfl⟩ := Prod.mk.inj (Option.some.inj heq)
    have hlt : dayOf c < today now := of_decide_eq_true (mem_filter.mp hc).2
    refine ⟨hlt, ?_, hgroup hlt⟩
    exact countP_pos_iff.mpr ⟨c, mem_of_mem_filter hc, decide_eq_true rfl⟩
  · rintro ⟨hlt, hpos, rfl⟩
    obtain ⟨c, hc, hday⟩ := countP_pos_iff.mp hpos
    have hday : dayOf c = day := of_decide_eq_true hday
    refine ⟨day, ⟨c, mem_filter.mpr ⟨hc, ?_⟩, hday⟩, by rw [hgroup hlt]⟩
    exact decide_eq_true (show dayOf c < today now by rw [hday]; exact hlt)

theorem perDay_descending :
    (perDay hourly now).reverse.Pairwise (fun a b ↦ b.1 < a.1) := by
  have hstart : ∀ (k : ℤ) (g : List Candle) b, some (k, g.length) = some b → b.1 = k := by
    intro k g b hb
    rw [← Option.some.inj hb]
  have hasc : AscendingBy Prod.fst (perDay hourly now) := summarise_ascending hstart _
  exact pairwise_reverse.mpr hasc

def RunFrom (hourly : List Candle) (now first : ℤ) : Prop :=
  ∀ day < today now, first ≤ day → 0 < dayCount hourly now day →
    intradayMinBucketsPerDay ≤ dayCount hourly now day

theorem mem_walk {day : ℤ} {n : ℕ} :
    (day, n) ∈ (perDay hourly now).reverse.takeWhile (fun d ↦ intradayMinBucketsPerDay ≤ d.2) ↔
      (day, n) ∈ perDay hourly now ∧ RunFrom hourly now day := by
  rw [mem_takeWhile_descending perDay_descending, mem_reverse, and_congr_right_iff]
  intro _
  constructor
  · intro hall d hlt hle hpos
    exact of_decide_eq_true
      (hall (d, dayCount hourly now d) (mem_reverse.mpr (mem_perDay.mpr ⟨hlt, hpos, rfl⟩)) hle)
  · rintro hrun ⟨d, m⟩ hd hle
    obtain ⟨hlt, hpos, rfl⟩ := mem_perDay.mp (mem_reverse.mp hd)
    exact decide_eq_true (hrun d hlt hle hpos)

theorem intradaySince_eq : intradaySince hourly now =
    (((perDay hourly now).reverse.takeWhile
      (fun d ↦ intradayMinBucketsPerDay ≤ d.2)).getLast?).map Prod.fst := rfl

theorem intradaySince_run {start : ℤ} (h : intradaySince hourly now = some start) :
    start < today now ∧ 0 < dayCount hourly now start ∧ RunFrom hourly now start := by
  rw [intradaySince_eq] at h
  obtain ⟨⟨day, n⟩, hlast, rfl⟩ := Option.map_eq_some_iff.mp h
  obtain ⟨hmem, hrun⟩ := mem_walk.mp (mem_of_getLast? hlast)
  obtain ⟨hlt, hpos, -⟩ := mem_perDay.mp hmem
  exact ⟨hlt, hpos, hrun⟩

theorem exists_intradaySince {first : ℤ} (hlt : first < today now)
    (hpos : 0 < dayCount hourly now first) (hrun : RunFrom hourly now first) :
    ∃ start, intradaySince hourly now = some start ∧ start ≤ first := by
  have hmem := mem_walk.mpr ⟨mem_perDay.mpr ⟨hlt, hpos, rfl⟩, hrun⟩
  have hlast := getLast?_eq_some_getLast (ne_nil_of_mem hmem)
  refine ⟨_, by rw [intradaySince_eq, hlast, Option.map_some], ?_⟩
  have hdescending := perDay_descending.sublist
    (takeWhile_sublist (l := (perDay hourly now).reverse)
      (p := fun d ↦ decide (intradayMinBucketsPerDay ≤ d.2)))
  exact le_of_getLast?_descending hdescending hlast hmem

theorem exists_newest {day : ℤ} (hlt : day < today now) (hpos : 0 < dayCount hourly now day) :
    ∃ newest, NewestDay hourly now newest ∧ day ≤ newest := by
  have hmem : (day, dayCount hourly now day) ∈ (perDay hourly now).reverse :=
    mem_reverse.mpr (mem_perDay.mpr ⟨hlt, hpos, rfl⟩)
  cases hentries : (perDay hourly now).reverse with
  | nil => exact absurd (hentries ▸ hmem) not_mem_nil
  | cons first rest =>
    have hdescending := @perDay_descending hourly now
    rw [hentries] at hdescending hmem
    have hmax : ∀ b ∈ first :: rest, b.1 ≤ first.1 := forall_mem_cons.mpr
      ⟨le_rfl, fun b hb ↦ (rel_of_pairwise_cons hdescending hb).le⟩
    have hin : (first.1, first.2) ∈ perDay hourly now := by
      rw [← mem_reverse, hentries]
      exact mem_cons_self
    obtain ⟨hfirst, hfpos, -⟩ := mem_perDay.mp hin
    refine ⟨first.1, ⟨hfirst, hfpos, fun d hd hdpos ↦ ?_⟩, hmax _ hmem⟩
    have hentry : (d, dayCount hourly now d) ∈ (perDay hourly now).reverse :=
      mem_reverse.mpr (mem_perDay.mpr ⟨hd, hdpos, rfl⟩)
    exact hmax _ (hentries ▸ hentry)

/-- The intraday era is an unbroken run of calendar days exactly where a day too thin
stands between any gap and the newest day. -/
theorem intraday_unbroken_iff (hourly : List Candle) (now : ℤ) :
    Unbroken hourly now ↔ GapsCutOff hourly now := by
  constructor
  · intro hunbroken newest full empty hnewest hfull hday hempty hlow hhigh
    by_contra hno
    have hlt : full < today now := (hlow.trans hhigh).trans hnewest.1
    have hpos : 0 < dayCount hourly now full := lt_of_lt_of_le (by decide) hfull
    have hrun : RunFrom hourly now full := by
      intro day hd hle hdpos
      rcases hle.eq_or_lt with rfl | hafter
      · exact hfull
      · by_contra hthin
        exact hno ⟨day, hafter, hnewest.2.2 day hd hdpos, hdpos, not_le.mp hthin⟩
    obtain ⟨start, hstart, hle⟩ := exists_intradaySince hlt hpos hrun
    obtain ⟨newest', hnewest', -, -, hdays, -⟩ := hunbroken start hstart
    have heq : newest ≤ newest' := hnewest'.2.2 newest hnewest.1 hnewest.2.1
    have hcount := hdays empty hday (hle.trans hlow.le) (hhigh.le.trans heq)
    rw [hempty] at hcount
    exact absurd hcount (by decide)
  · intro hcut start hstart
    obtain ⟨hlt, hpos, hrun⟩ := intradaySince_run hstart
    obtain ⟨newest, hnewest, hle⟩ := exists_newest hlt hpos
    have hfull : intradayMinBucketsPerDay ≤ dayCount hourly now start := hrun start hlt le_rfl hpos
    refine ⟨newest, hnewest, isDay_of_count hpos, hle, fun day hday hlow hhigh ↦ ?_,
      fun earlier hday hbefore hdays ↦ ?_⟩
    · have hdlt := hhigh.trans_lt hnewest.1
      rcases Nat.eq_zero_or_pos (dayCount hourly now day) with hzero | hdpos
      · rcases hlow.eq_or_lt with rfl | hlow
        · exact absurd hzero hpos.ne'
        rcases hhigh.eq_or_lt with rfl | hhigh
        · exact absurd hzero hnewest.2.1.ne'
        obtain ⟨thin, hafter, hupto, htpos, hthin⟩ :=
          hcut newest start day hnewest hfull hday hzero hlow hhigh
        have henough := hrun thin (hupto.trans_lt hnewest.1) hafter.le htpos
        exact absurd hthin (not_lt.mpr henough)
      · exact hrun day hdlt hlow hdpos
    · have hearly := hdays earlier hday le_rfl (hbefore.le.trans hle)
      have hepos : 0 < dayCount hourly now earlier := lt_of_lt_of_le (by decide) hearly
      have hrun' : RunFrom hourly now earlier := fun day hd hlow hdpos ↦
        hdays day (isDay_of_count hdpos) hlow (hnewest.2.2 day hd hdpos)
      obtain ⟨start', hstart', hle'⟩ := exists_intradaySince (hbefore.trans hlt) hepos hrun'
      obtain rfl := Option.some.inj (hstart.symm.trans hstart')
      exact absurd hbefore (not_lt.mpr hle')

end Days

section Gap

def hourOf (day hour : ℤ) : Candle := ⟨(day * 24 + hour) * 3600 * second, 1, 1, 1, 1⟩

def twoDaysApart : List Candle :=
  ([0, 1, 2, 3].map (hourOf 0)) ++ ([0, 1, 2, 3].map (hourOf 2))

/-- Two days with four buckets each and none between them are one era. -/
theorem empty_day_in_era :
    intradaySince twoDaysApart (3 * 86400 * second) = some 0 ∧
      dayCount twoDaysApart (3 * 86400 * second) (86400 * second) = 0 ∧
        ¬Unbroken twoDaysApart (3 * 86400 * second) := by
  have hsince : intradaySince twoDaysApart (3 * 86400 * second) = some 0 := by decide
  have hempty : dayCount twoDaysApart (3 * 86400 * second) (86400 * second) = 0 := by
    decide
  refine ⟨hsince, hempty, fun hunbroken ↦ ?_⟩
  obtain ⟨newest, hnewest, -, -, hdays, -⟩ := hunbroken 0 hsince
  have hlast : 2 * 86400 * second ≤ newest :=
    hnewest.2.2 (2 * 86400 * second) (by decide) (by decide)
  have hcount := hdays (86400 * second) ⟨1, by decide⟩ (by decide)
    ((by decide : 86400 * second ≤ 2 * 86400 * second).trans hlast)
  rw [hempty] at hcount
  exact absurd hcount (by decide)

end Gap

end TalaPala.Trend
