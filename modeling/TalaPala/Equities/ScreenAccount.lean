import TalaPala.Equities.Screen

namespace TalaPala.Equities.Screen

open Library List
open Relvalue (Numeraire)

section Order

def Figure.place (v : Figure) : Rank := (floatRank v.val).getD (rankAt 0 0 0)

theorem floatRank_figure (v : Figure) : floatRank v.val = some v.place := by
  obtain ⟨x, hx⟩ := exists_floatRank v.property
  rw [Figure.place, hx]
  rfl

theorem figure_lt (v w : Figure) : v.val < w.val ↔ v.place < w.place :=
  float_lt_iff (floatRank_figure v) (floatRank_figure w)

theorem figure_beq (v w : Figure) : (v.val == w.val) = true ↔ v.place = w.place :=
  float_beq_iff (floatRank_figure v) (floatRank_figure w)

structure Keyed {κ : Type} [LinearOrder κ] (spec : ScreenSortSpec) (desc : Bool)
    (key : ScreenItem → κ) : Prop where
  compares : Compares (screenLess spec desc) key
  symbol : ∀ x y, key x = key y → x.symbol = y.symbol

theorem keyed_symbol {spec : ScreenSortSpec} (h : spec.metric = none) :
    Keyed spec false ScreenItem.symbol := by
  refine ⟨fun x y ↦ ?_, fun _ _ ↦ id⟩
  rw [screenLess, h]
  by_cases heq : x.symbol = y.symbol
  · simp [heq]
  · simp [heq]

theorem keyed_symbol_desc {spec : ScreenSortSpec} (h : spec.metric = none) :
    Keyed spec true (fun x ↦ OrderDual.toDual x.symbol) := by
  refine ⟨fun x y ↦ ?_, fun _ _ ↦ id⟩
  rw [screenLess, h, OrderDual.toDual_lt_toDual]
  by_cases heq : x.symbol = y.symbol
  · simp [heq]
  · simp [heq]

theorem keyed_metric {β : Type} [LinearOrder β] {spec : ScreenSortSpec}
    {metric : ScreenItem → Option Figure} (h : spec.metric = some metric) {desc : Bool}
    {place : Figure → β} (hlt : ∀ v w : Figure,
      (if desc then decide (w.val < v.val) else decide (v.val < w.val)) = true ↔ place v < place w)
    (heq : ∀ v w : Figure, (v.val == w.val) = true ↔ place v = place w) :
    Keyed spec desc (nullsLast (fun x ↦ (metric x).map place) ScreenItem.symbol) := by
  refine ⟨fun x y ↦ ?_, fun x y hkey ↦ (Prod.ext_iff.mp hkey).2⟩
  rw [screenLess, h]
  dsimp only
  cases hx : metric x with
  | none =>
    cases hy : metric y with
    | none =>
      rw [nullsLast_lt_of_none (by rw [hx]; rfl) (by rw [hy]; rfl), decide_eq_true_iff]
    | some w =>
      exact iff_of_false Bool.false_ne_true
        (lt_asymm (nullsLast_lt_none (by rw [hy]; rfl) (by rw [hx]; rfl)))
  | some v =>
    cases hy : metric y with
    | none => exact iff_of_true rfl (nullsLast_lt_none (by rw [hx]; rfl) (by rw [hy]; rfl))
    | some w =>
      rw [nullsLast_lt_some (by rw [hx]; rfl) (by rw [hy]; rfl)]
      dsimp only
      by_cases hbeq : (v.val == w.val) = true
      · have hplace := (heq v w).mp hbeq
        rw [if_pos hbeq, decide_eq_true_iff, hplace]
        exact ((or_iff_right (lt_irrefl _)).trans (and_iff_right rfl)).symm
      · have hplace : place v ≠ place w := fun h ↦ hbeq ((heq v w).mpr h)
        rw [if_neg hbeq, hlt]
        exact (or_iff_left (fun h ↦ hplace h.1)).symm

theorem exists_keyed (spec : ScreenSortSpec) (desc : Bool) :
    ∃ (κ : Type) (_ : LinearOrder κ) (key : ScreenItem → κ), Keyed spec desc key := by
  cases h : spec.metric with
  | none =>
    cases desc with
    | false => exact ⟨_, _, _, keyed_symbol h⟩
    | true => exact ⟨_, _, _, keyed_symbol_desc h⟩
  | some metric =>
    cases desc with
    | false =>
      exact ⟨_, _, _, keyed_metric h (fun v w ↦ by simpa using figure_lt v w) figure_beq⟩
    | true =>
      have hlt : ∀ v w : Figure, (if true then decide (w.val < v.val) else
          decide (v.val < w.val)) = true ↔ OrderDual.toDual v.place < OrderDual.toDual w.place :=
        fun v w ↦ by simpa using figure_lt w v
      exact ⟨_, _, _, keyed_metric h hlt (fun v w ↦ by simpa using figure_beq v w)⟩

end Order

section Pairing

def Paired {α : Type} (figure : Option α) (reason : Option String) : Prop :=
  figure = none ↔ reason ≠ none

theorem paired_strPtr {α : Type} {figure : Option α} {reason : String} :
    Paired figure (strPtr reason) ↔ (figure = none ↔ reason ≠ "") := by
  rw [Paired, strPtr]
  split_ifs with h <;> simp [h]

structure ScreenItem.Paired (item : ScreenItem) : Prop where
  total : Screen.Paired item.returnPct item.returnReason
  volatility : Screen.Paired item.volatilityPct item.volatilityReason
  drawdown : Screen.Paired item.maxDrawdownPct item.maxDrawdownReason
  usd : Screen.Paired item.priceUSD item.priceUSDReason
  gold : Screen.Paired item.priceGoldGrams item.priceGoldGramsReason

structure FiguresFinite (points : List Point) : Prop where
  total : ∀ first last, points.head? = some first → points.getLast? = some last →
    2 ≤ points.length → ¬first.value ≤ 0 → notFinite (totalReturn first.value last.value) = false
  volatility : 2 ≤ (sessionReturns points).length →
    notFinite (sampleDeviation (sessionReturns points)) = false
  drawdown : 2 ≤ points.length → ((drawdownOf points).1 == minusInfinity) = false →
    notFinite (drawdownOf points).2 = false

variable (layout : Layout)

theorem fp_eq_none {v : Float} : fp v = none ↔ notFinite v = true := by
  rw [fp]
  by_cases h : notFinite v = true
  · rw [dif_pos h]
    exact iff_of_true rfl h
  · rw [dif_neg h]
    exact iff_of_false (Option.some_ne_none _) h

theorem paired_fp {v : Float} : (fp v = none ↔ "" ≠ "") ↔ notFinite v = false := by
  rw [fp_eq_none, ← Bool.not_eq_true]
  exact iff_false_right (not_not.mpr rfl)

theorem coversReason_ne (figure : String) (n : ℕ) : coversReason figure n ≠ "" :=
  append_ne_right (by decide) _

theorem screenReturnPct_paired (points : List Point) :
    ((screenReturnPct layout points).1 = none ↔ (screenReturnPct layout points).2 ≠ "") ↔
      ∀ first last, points.head? = some first → points.getLast? = some last → 2 ≤ points.length →
        ¬first.value ≤ 0 → notFinite (totalReturn first.value last.value) = false := by
  rw [screenReturnPct]
  cases hfirst : points.head? with
  | none =>
    exact iff_of_true (iff_of_true rfl (coversReason_ne _ _)) (fun _ _ h ↦ by cases h)
  | some first =>
    cases hlast : points.getLast? with
    | none =>
      exact iff_of_true (iff_of_true rfl (coversReason_ne _ _)) (fun _ _ _ h ↦ by cases h)
    | some last =>
      dsimp only
      by_cases hlength : points.length < 2
      · rw [if_pos hlength]
        exact iff_of_true (iff_of_true rfl (coversReason_ne _ _))
          (fun _ _ _ _ h ↦ absurd hlength (not_lt.mpr h))
      rw [if_neg hlength]
      by_cases hbase : first.value ≤ 0
      · rw [if_pos hbase]
        refine iff_of_true (iff_of_true rfl (append_ne_right (by decide) _)) ?_
        rintro first' last' heq - - hpos
        obtain rfl := Option.some.inj heq
        exact absurd hbase hpos
      · rw [if_neg hbase]
        refine paired_fp.trans ⟨?_, fun h ↦ h first last rfl rfl (not_lt.mp hlength) hbase⟩
        rintro h first' last' heq heq' - -
        obtain rfl := Option.some.inj heq
        obtain rfl := Option.some.inj heq'
        exact h

theorem screenVolatilityPct_paired (points : List Point) :
    ((screenVolatilityPct points).1 = none ↔ (screenVolatilityPct points).2 ≠ "") ↔
      (2 ≤ (sessionReturns points).length →
        notFinite (sampleDeviation (sessionReturns points)) = false) := by
  rw [screenVolatilityPct]
  by_cases hlength : (sessionReturns points).length < 2
  · rw [if_pos hlength]
    exact iff_of_true (iff_of_true rfl (append_ne_right (by decide) _))
      (fun h ↦ absurd hlength (not_lt.mpr h))
  · rw [if_neg hlength]
    exact paired_fp.trans ⟨fun h _ ↦ h, fun h ↦ h (not_lt.mp hlength)⟩

theorem screenMaxDrawdownPct_paired (points : List Point) :
    ((screenMaxDrawdownPct points).1 = none ↔ (screenMaxDrawdownPct points).2 ≠ "") ↔
      (2 ≤ points.length → ((drawdownOf points).1 == minusInfinity) = false →
        notFinite (drawdownOf points).2 = false) := by
  rw [screenMaxDrawdownPct]
  by_cases hlength : points.length < 2
  · rw [if_pos hlength]
    exact iff_of_true (iff_of_true rfl (coversReason_ne _ _))
      (fun h ↦ absurd hlength (not_lt.mpr h))
  rw [if_neg hlength]
  by_cases hpeak : ((drawdownOf points).1 == minusInfinity) = true
  · rw [if_pos hpeak]
    exact iff_of_true (iff_of_true rfl (by decide)) (fun _ h ↦ by rw [hpeak] at h; cases h)
  · rw [if_neg hpeak]
    exact paired_fp.trans ⟨fun h _ _ ↦ h,
      fun h ↦ h (not_lt.mp hlength) (Bool.eq_false_iff.mpr hpeak)⟩

theorem priceIn_paired (rial : Float) (day : Date) (key : Numeraire) (conv : Option Sources) :
    Paired (priceIn layout rial day key conv).value (priceIn layout rial day key conv).reason := by
  cases conv with
  | none =>
    have hreason : "the numeraire engine is not available in this deployment" ≠ "" := by decide
    exact paired_strPtr.mpr (iff_of_true rfl hreason)
  | some sources =>
    have hreason := convertToman_reason layout sources day (rial / rialsPerToman) key
    rw [priceIn]
    cases hvalue : (convertToman layout sources day (rial / rialsPerToman) key).value with
    | none => exact paired_strPtr.mpr (iff_of_true rfl (hreason.mp hvalue))
    | some v => exact iff_of_false (Option.some_ne_none v) (not_not.mpr rfl)

theorem lastPrice_paired (latest : Option ScreenBarRow) (key : Numeraire) (conv : Option Sources) :
    Paired (lastPrice layout latest key conv).value (lastPrice layout latest key conv).reason := by
  have hreason : noTradedSession ≠ "" := append_ne_left (by decide) _
  cases latest with
  | none => exact paired_strPtr.mpr (iff_of_true rfl hreason)
  | some b => exact priceIn_paired layout b.finalClose b.tradeDate key conv

theorem windowFigures_paired (points : List Point) (convReason : String) :
    ((windowFigures layout points convReason).1.1 = none ↔
        (windowFigures layout points convReason).1.2 ≠ "") ∧
      ((windowFigures layout points convReason).2.1.1 = none ↔
        (windowFigures layout points convReason).2.1.2 ≠ "") ∧
      ((windowFigures layout points convReason).2.2.1 = none ↔
        (windowFigures layout points convReason).2.2.2 ≠ "") ↔
    (convReason = "" → FiguresFinite points) := by
  rw [windowFigures]
  by_cases hconv : convReason = ""
  · rw [if_neg (not_not.mpr hconv), screenReturnPct_paired, screenVolatilityPct_paired,
      screenMaxDrawdownPct_paired]
    exact ⟨fun h _ ↦ ⟨h.1, h.2.1, h.2.2⟩,
      fun h ↦ ⟨(h hconv).total, (h hconv).volatility, (h hconv).drawdown⟩⟩
  · rw [if_pos hconv]
    exact iff_of_true ⟨iff_of_true rfl hconv, iff_of_true rfl hconv, iff_of_true rfl hconv⟩
      (fun h ↦ absurd h hconv)

theorem buildScreenItem_paired (row : StockRow) (bars : List ScreenBarRow)
    (latest : Option ScreenBarRow) (numeraire : ScreenNumeraire) (conv : Option Sources) :
    (buildScreenItem layout row bars latest numeraire conv).Paired ↔
      ((convertedCloses bars numeraire conv).2.2 = "" →
        FiguresFinite (convertedCloses bars numeraire conv).1) := by
  refine Iff.trans ⟨fun h ↦ ?_, fun h ↦ ?_⟩ (windowFigures_paired layout _ _)
  · exact ⟨paired_strPtr.mp h.total, paired_strPtr.mp h.volatility, paired_strPtr.mp h.drawdown⟩
  · exact ⟨paired_strPtr.mpr h.1, paired_strPtr.mpr h.2.1, paired_strPtr.mpr h.2.2,
      lastPrice_paired layout latest .usd conv, lastPrice_paired layout latest .gold conv⟩

end Pairing

section Account

variable (layout : Layout) (inp : ScreenInputs)

structure CompleteAccount : Prop where
  accounted : ((inp.matchedItems layout).map ScreenItem.symbol ++
    (buildScreenResponse layout inp).excluded.map ExcludedItem.symbol).Perm
      (inp.requested.map StockRow.symbolFA)
  once : ((inp.matchedItems layout).map ScreenItem.symbol ++
    (buildScreenResponse layout inp).excluded.map ExcludedItem.symbol).Nodup
  explained : ∀ e ∈ (buildScreenResponse layout inp).excluded, e.reasonCode ≠ "" ∧ e.reason ≠ ""
  paired : ∀ item ∈ inp.matchedItems layout, item.Paired
  asymm : ∀ x y, screenLess inp.query.sort inp.query.desc x y = true →
    screenLess inp.query.sort inp.query.desc y x = false
  trans : ∀ x y z, screenLess inp.query.sort inp.query.desc x y = true →
    screenLess inp.query.sort inp.query.desc y z = true →
    screenLess inp.query.sort inp.query.desc x z = true
  total : ∀ x y, x.symbol ≠ y.symbol → screenLess inp.query.sort inp.query.desc x y = true ∨
    screenLess inp.query.sort inp.query.desc y x = true
  nullsLast : ∀ metric x y, inp.query.sort.metric = some metric → metric x ≠ none →
    metric y = none → screenLess inp.query.sort inp.query.desc x y = true
  sorted : (inp.sortedItems layout).Perm (inp.matchedItems layout) ∧
    (inp.sortedItems layout).Pairwise (fun x y ↦
      screenLess inp.query.sort inp.query.desc x y = true)
  independent : ∀ roster, inp.roster.Perm roster →
    ({ inp with roster := roster } : ScreenInputs).sortedItems layout = inp.sortedItems layout
  page : (buildScreenResponse layout inp).items =
    (inp.sortedItems layout).take inp.query.limit

def NoOverflow : Prop :=
  ∀ r ∈ inp.requested, screenable layout r = none →
    (convertedCloses (inp.window r.insCode) inp.query.numeraire inp.converter).2.2 = "" →
    FiguresFinite (convertedCloses (inp.window r.insCode) inp.query.numeraire inp.converter).1

theorem screenable_spec {r : StockRow} {e : ExcludedItem} (h : screenable layout r = some e) :
    e.symbol = r.symbolFA ∧ e.reasonCode ≠ "" ∧ e.reason ≠ "" := by
  have hcodes : reasonDisabled ≠ "" ∧ reasonNoBars ≠ "" ∧ reasonNeverIngested ≠ "" ∧
    reasonRefused ≠ "" ∧ reasonNoValidVerdict ≠ "" := by decide
  obtain ⟨hdisabled, hbars, hingested, hrefused, hverdict⟩ := hcodes
  rw [screenable] at h
  by_cases henabled : (!r.enabled) = true
  · rw [if_pos henabled] at h
    obtain rfl := Option.some.inj h
    exact ⟨rfl, hdisabled, append_ne_left (append_ne_left (append_ne_right (by decide) _) _) _⟩
  rw [if_neg henabled] at h
  by_cases hcount : r.barCount = 0
  · rw [if_pos hcount] at h
    obtain rfl := Option.some.inj h
    exact ⟨rfl, hbars, append_ne_right (by decide) _⟩
  rw [if_neg hcount] at h
  by_cases hnever : (buildAdjustment layout r).status = statusNeverIngested
  · rw [if_pos hnever] at h
    obtain rfl := Option.some.inj h
    exact ⟨rfl, hingested, append_ne_right (by decide) _⟩
  rw [if_neg hnever] at h
  by_cases hservable : (!(buildAdjustment layout r).servable) = true
  · rw [if_pos hservable] at h
    obtain rfl := Option.some.inj h
    refine ⟨rfl, ?_, append_ne_left (append_ne_right (by decide) _) _⟩
    by_cases hstatus : (buildAdjustment layout r).status = ""
    · exact (if_pos hstatus).trans_ne hverdict
    · exact (if_neg hstatus).trans_ne hrefused
  · rw [if_neg hservable] at h
    cases h

theorem accounted_perm (rows : List StockRow) :
    ((rows.filter (fun r ↦ (screenable layout r).isNone)).map StockRow.symbolFA ++
      (rows.filterMap (screenable layout)).map ExcludedItem.symbol).Perm
        (rows.map StockRow.symbolFA) := by
  induction rows with
  | nil => exact .nil
  | cons r rest ih =>
    cases h : screenable layout r with
    | none =>
      rw [filter_cons_of_pos (by rw [h]; rfl), filterMap_cons_none h, map_cons,
        map_cons, cons_append]
      exact ih.cons _
    | some e =>
      rw [filter_cons_of_neg (by rw [h]; exact Bool.false_ne_true),
        filterMap_cons_some h, map_cons, map_cons, (screenable_spec layout h).1]
      exact perm_middle.trans (ih.cons _)

theorem matchedItems_symbols : (inp.matchedItems layout).map ScreenItem.symbol =
    (inp.requested.filter (fun r ↦ (screenable layout r).isNone)).map StockRow.symbolFA := by
  rw [ScreenInputs.matchedItems, map_map]
  rfl

theorem nodup_matchedItems (h : (inp.roster.map StockRow.symbolFA).Nodup) :
    ((inp.matchedItems layout).map ScreenItem.symbol).Nodup := by
  rw [matchedItems_symbols]
  exact h.sublist ((filter_sublist.trans filter_sublist).map _)

theorem paired_iff : (∀ item ∈ inp.matchedItems layout, item.Paired) ↔ NoOverflow layout inp := by
  rw [ScreenInputs.matchedItems, forall_mem_map]
  refine ⟨fun h r hr hscreened ↦ ?_, fun h r hr ↦ ?_⟩
  · have hmem : r ∈ inp.requested.filter (fun r ↦ (screenable layout r).isNone) :=
      mem_filter.mpr ⟨hr, Option.isNone_iff_eq_none.mpr hscreened⟩
    exact (buildScreenItem_paired layout r _ _ _ _).mp (h r hmem)
  · obtain ⟨hr, hscreened⟩ := mem_filter.mp hr
    exact (buildScreenItem_paired layout r _ _ _ _).mpr
      (h r hr (Option.isNone_iff_eq_none.mp hscreened))

theorem screenLess_nullsLast {spec : ScreenSortSpec} {desc : Bool}
    {metric : ScreenItem → Option Figure} (h : spec.metric = some metric) {x y : ScreenItem}
    (hx : metric x ≠ none) (hy : metric y = none) : screenLess spec desc x y = true := by
  obtain ⟨v, hv⟩ := Option.ne_none_iff_exists'.mp hx
  rw [screenLess, h]
  dsimp only
  rw [hv, hy]

/-- A response is a complete account, whatever the roster's order, exactly if no figure of a
screened window overflows. -/
theorem completeAccount_iff (hsymbols : (inp.roster.map StockRow.symbolFA).Nodup) :
    CompleteAccount layout inp ↔ NoOverflow layout inp := by
  rw [← paired_iff]
  refine ⟨CompleteAccount.paired, fun hpaired ↦ ?_⟩
  obtain ⟨κ, _, key, hkey, hsymbol⟩ := exists_keyed inp.query.sort inp.query.desc
  have hperm := accounted_perm layout inp.requested
  rw [← matchedItems_symbols] at hperm
  have hnodup := nodup_matchedItems layout inp hsymbols
  have hdistinct : ∀ items : List ScreenItem, (items.map ScreenItem.symbol).Nodup →
      (items.map key).Nodup := fun items h ↦
    pairwise_map.mpr ((pairwise_map.mp h).imp (fun hne heq ↦ hne (hsymbol _ _ heq)))
  refine ⟨hperm, hperm.nodup_iff.mpr (hsymbols.sublist (filter_sublist.map _)), ?_, hpaired,
    fun x y h ↦ ?_, fun x y z h h' ↦ ?_, fun x y hne ↦ ?_, fun metric x y h hx hy ↦
      screenLess_nullsLast h hx hy, ⟨Compares.sortStable_perm _ _, ?_⟩, fun roster hroster ↦ ?_,
    rfl⟩
  · intro e he
    obtain ⟨r, -, hr⟩ := mem_filterMap.mp he
    exact (screenable_spec layout hr).2
  · exact (hkey.not_less x y).mpr ((hkey x y).mp h).le
  · exact (hkey x z).mpr (((hkey x y).mp h).trans ((hkey y z).mp h'))
  · rcases lt_or_gt_of_ne (fun heq ↦ hne (hsymbol x y heq)) with h | h
    · exact .inl ((hkey x y).mpr h)
    · exact .inr ((hkey y x).mpr h)
  · have hsorted := ((Compares.sortStable_perm (screenLess inp.query.sort inp.query.desc)
      (inp.matchedItems layout)).map key).nodup_iff.mpr (hdistinct _ hnodup)
    exact ((hkey.pairwise_sortStable _).and (pairwise_map.mp hsorted)).imp
      (fun {x y} h ↦ (hkey x y).mpr (lt_of_le_of_ne h.1 h.2))
  · refine hkey.sortStable_eq_of_perm (((hroster.symm.filter _).filter _).map _) (hdistinct _ ?_)
    exact nodup_matchedItems layout { inp with roster := roster }
      ((hroster.map StockRow.symbolFA).nodup_iff.mp hsymbols)

end Account

section Example

def plainLayout : Layout := ⟨fun _ ↦ "", fun _ ↦ "", fun _ ↦ "", id⟩

def listedShare : StockRow where
  insCode := "46348559193224090"
  symbolFA := "فولاد"
  nameFA := "فولاد مبارکه اصفهان"
  market := "bourse"
  board := ""
  sectorCode := "27"
  sectorFA := "فلزات اساسی"
  firstBar := some 20000
  lastBar := some 20001
  barCount := 2
  enabled := true
  notes := ""
  adjustmentVersion := some "v1"
  adjustmentStatus := some statusValidated
  actionsApplied := some 0
  reopenings := some 0
  preListingBars := some 0
  worstReturn := none
  refusalReason := none
  computedAt := some 0
  adjustedFirstBar := some 20000
  staleActions := 0

def tradedBar (day : Date) (close : Float) : ScreenBarRow :=
  ⟨"46348559193224090", day, close, 1, 1, 1, 1⟩

def twoSessions (start stop : Float) : ScreenInputs where
  query := ⟨"1m", none, 20001, .irr, "", ⟨"return", true, some ScreenItem.returnPct⟩, true, 50, 20001⟩
  roster := [listedShare]
  window _ := [tradedBar 20000 start, tradedBar 20001 stop]
  latest _ := some (tradedBar 20001 stop)
  converter := none

theorem account_doubled :
    CompleteAccount plainLayout (twoSessions 100 200) ↔ NoOverflow plainLayout (twoSessions 100 200) :=
  completeAccount_iff plainLayout (twoSessions 100 200) (nodup_singleton _)

/-- A return beyond the finite numbers is null without a reason. -/
theorem overflow_has_no_reason :
    ((twoSessions 1e-200 1e200).roster.map StockRow.symbolFA).Nodup ∧
      ¬CompleteAccount plainLayout (twoSessions 1e-200 1e200) := by
  refine ⟨nodup_singleton _, fun haccount ↦ ?_⟩
  have hitem : ∃ item ∈ (twoSessions 1e-200 1e200).matchedItems plainLayout,
      item.returnPct = none ∧ item.returnReason = none := by
    refine ⟨_, mem_cons_self, ?_, ?_⟩ <;> rw [← Option.isNone_iff_eq_none] <;> decide +kernel
  obtain ⟨item, hmem, hnull, hreason⟩ := hitem
  exact (haccount.paired item hmem).total.mp hnull hreason

end Example

end TalaPala.Equities.Screen
