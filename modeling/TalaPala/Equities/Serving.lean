import TalaPala.Equities.Adjustment

namespace TalaPala.Equities

open Library List

structure Instrument where
  insCode : String
  symbolFa : String
  barCount : ℕ
  enabled : Bool
  deriving DecidableEq

structure ActionRow where
  insCode : String
  adjustmentVersion : String
  action : CorporateAction

structure AdjustmentRow where
  insCode : String
  adjustmentVersion : String
  status : Status
  firstBar : Option Date
  computedAt : Instant
  deriving DecidableEq

structure EquityTables where
  instruments : List Instrument
  bars : List Bar
  actions : List ActionRow
  adjustments : List AdjustmentRow
  instrumentKey : (instruments.map Instrument.insCode).Nodup
  symbolKey : (instruments.map Instrument.symbolFa).Nodup
  barKey : (bars.map (fun bar ↦ (bar.insCode, bar.tradeDate))).Nodup

def ActionRow.of (insCode adjustmentVersion : String) (c : ActionRow) : Bool :=
  decide (c.insCode = insCode) && decide (c.adjustmentVersion = adjustmentVersion)

def EquityTables.chained (t : EquityTables) (insCode adjustmentVersion : String) :
    List CorporateAction :=
  (t.actions.filter (ActionRow.of insCode adjustmentVersion)).map ActionRow.action

def EquityTables.factor (t : EquityTables) (insCode adjustmentVersion : String)
    (tradeDate : Date) : ℚ :=
  ((firstBy (fun c c' ↦ c.effectiveDate ≤ c'.effectiveDate)
    ((t.chained insCode adjustmentVersion).filter (fun c ↦ tradeDate < c.effectiveDate))).map
      CorporateAction.cumulativeFactor).getD 1

structure BarRow where
  bar : Bar
  factor : ℚ

def newestFirst (bars : List Bar) : List Bar :=
  bars.insertionSort (fun a b ↦ b.tradeDate ≤ a.tradeDate)

def barsSelect (t : EquityTables) (insCode version : String) (start stop : Option Date)
    (limit : ℕ) : List BarRow :=
  ((newestFirst (t.bars.filter (fun b ↦ decide (b.insCode = insCode) &&
    start.all (fun d ↦ d ≤ b.tradeDate) && stop.all (fun d ↦ b.tradeDate ≤ d)))).map
      (fun b ↦ { bar := b, factor := t.factor b.insCode version b.tradeDate })).take limit

def chartBarsSelect (t : EquityTables) (insCode version : String) (start before : Option Date)
    (limit : ℕ) : List BarRow :=
  ((newestFirst (t.bars.filter (fun b ↦ decide (b.insCode = insCode) &&
    start.all (fun d ↦ d ≤ b.tradeDate) && before.all (fun d ↦ b.tradeDate < d)))).map
      (fun b ↦ { bar := b, factor := t.factor b.insCode version b.tradeDate })).take limit

structure ScreenRequest where
  insCode : String
  adjustmentVersion : String
  adjustedFirstBar : Option Date

def screenBarsSelect (t : EquityTables) (requests : List ScreenRequest) (start : Option Date)
    (stop : Date) : List BarRow :=
  (t.bars.flatMap (fun b ↦
    (requests.filter (fun v ↦ decide (v.insCode = b.insCode) &&
      v.adjustedFirstBar.all (fun d ↦ d ≤ b.tradeDate) && start.all (fun d ↦ d ≤ b.tradeDate) &&
      decide (b.tradeDate ≤ stop))).map
        (fun v ↦ { bar := b, factor := t.factor b.insCode v.adjustmentVersion b.tradeDate }))
    ).insertionSort (fun r r' ↦ r.bar.insCode < r'.bar.insCode ∨
      (r.bar.insCode = r'.bar.insCode ∧ r.bar.tradeDate ≤ r'.bar.tradeDate))

def EquityTables.newestVerdict (t : EquityTables) (insCode : String) : Option AdjustmentRow :=
  firstBy (fun a b ↦ b.computedAt ≤ a.computedAt)
    (t.adjustments.filter (fun a ↦ a.insCode = insCode))

structure EquityClose where
  symbol : String
  day : Date
  adjustedCloseRial : ℚ

def equityBarsSelect (t : EquityTables) (status : Status) (asOf : Date) (symbols : List String) :
    List EquityClose :=
  (t.bars.flatMap (fun b ↦
    (t.instruments.filter (fun i ↦ i.insCode = b.insCode)).flatMap (fun i ↦
      ((t.newestVerdict i.insCode).toList.filter (fun a ↦
        i.enabled && decide (a.status = status) && symbols.contains i.symbolFa &&
          a.firstBar.all (fun d ↦ d ≤ b.tradeDate) && decide (b.tradeDate ≤ asOf) &&
          b.traded)).map (fun a ↦
            { symbol := i.symbolFa, day := b.tradeDate
              adjustedCloseRial :=
                b.finalClose * t.factor b.insCode a.adjustmentVersion b.tradeDate }))
    )).insertionSort (fun r r' ↦ r.symbol < r'.symbol ∨ (r.symbol = r'.symbol ∧ r.day ≤ r'.day))

def staleActions (bars : List Bar) (actions : List CorporateAction) : ℕ :=
  (actions.filter (fun c ↦ some c.prevTradeDate ≠
    ((bars.filter (fun b ↦ b.tradeDate < c.effectiveDate)).map Bar.tradeDate).max?)).length

structure StockRow where
  instrument : Instrument
  adjustmentVersion : Option String
  adjustmentStatus : Option Status
  adjustedFirstBar : Option Date
  staleActions : ℕ

def EquityTables.scanStock (t : EquityTables) (i : Instrument) : StockRow :=
  let a := t.newestVerdict i.insCode
  { instrument := i
    adjustmentVersion := a.map AdjustmentRow.adjustmentVersion
    adjustmentStatus := a.map AdjustmentRow.status
    adjustedFirstBar := a.bind AdjustmentRow.firstBar
    staleActions := (a.map (fun a ↦ staleActions (t.bars.filter (fun b ↦ b.insCode = i.insCode))
      (t.chained i.insCode a.adjustmentVersion))).getD 0 }

def StockRow.version (row : StockRow) : String := row.adjustmentVersion.getD ""

/-- What `buildAdjustment` calls servable. -/
def StockRow.servable (row : StockRow) : Bool :=
  decide (row.adjustmentStatus = some .validated) && decide (row.staleActions = 0)

def StockRow.screenable (row : StockRow) : Bool :=
  row.instrument.enabled && decide (row.instrument.barCount ≠ 0) && row.servable

def StockRow.lowerBound (row : StockRow) (start : Option Date) : Option Date :=
  match row.adjustedFirstBar, start with
  | some first, some d => if d < first then some first else some d
  | some first, none => some first
  | none, start => start

structure BarItem where
  date : Date
  opening : ℚ
  high : ℚ
  low : ℚ
  close : ℚ
  finalClose : ℚ
  volume : ℤ
  tradeCount : ℤ
  value : ℚ
  traded : Bool
  adjustmentFactor : Option ℚ

def barItem (adjusted : Bool) (r : BarRow) : BarItem :=
  let factor := if adjusted then r.factor else 1
  { date := r.bar.tradeDate
    opening := r.bar.opening * factor
    high := r.bar.high * factor
    low := r.bar.low * factor
    close := r.bar.close * factor
    finalClose := r.bar.finalClose * factor
    volume := r.bar.volume
    tradeCount := r.bar.tradeCount
    value := r.bar.value
    traded := r.bar.traded
    adjustmentFactor := if adjusted && decide (factor ≠ 1) then some factor else none }

structure BarQuery where
  symbol : String
  adjusted : Bool
  start : Option Date
  stop : Option Date
  limit : ℕ

/-- The items of the bars endpoint; `none` where it refuses. -/
def EquityTables.barItems (t : EquityTables) (q : BarQuery) : Option (List BarItem) := do
  let i ← t.instruments.find? (fun i ↦ i.symbolFa = q.symbol)
  let row := t.scanStock i
  guard (!q.adjusted || row.servable)
  let start := if q.adjusted then row.lowerBound q.start else q.start
  let rows := barsSelect t i.insCode row.version start q.stop (q.limit + 1)
  return (rows.take q.limit).reverse.map (barItem q.adjusted)

structure ChartBar where
  day : Date
  opening : Option ℚ
  high : Option ℚ
  low : Option ℚ
  close : ℚ
  lastTrade : Option ℚ
  volume : ℤ
  trades : ℤ
  value : ℚ
  traded : Bool
  factor : ℚ
  closeOutsideRange : Bool

def chartBarOf (r : BarRow) : ChartBar :=
  let f := r.factor
  let drawable := r.bar.traded &&
    !(decide (r.bar.opening ≤ 0) || decide (r.bar.high ≤ 0) || decide (r.bar.low ≤ 0))
  { day := r.bar.tradeDate
    opening := if drawable then some (r.bar.opening * f) else none
    high := if drawable then some (r.bar.high * f) else none
    low := if drawable then some (r.bar.low * f) else none
    close := r.bar.finalClose * f
    lastTrade := if r.bar.traded then some (r.bar.close * f) else none
    volume := r.bar.volume
    trades := r.bar.tradeCount
    value := r.bar.value
    traded := r.bar.traded
    factor := f
    closeOutsideRange := drawable &&
      (decide (r.bar.finalClose < r.bar.low) || decide (r.bar.high < r.bar.finalClose)) }

def EquityTables.chartBars (t : EquityTables) (insCode : String) (start before : Option Date)
    (limit : ℕ) : Option (List ChartBar) := do
  let i ← t.instruments.find? (fun i ↦ i.insCode = insCode)
  let row := t.scanStock i
  guard row.servable
  let rows := chartBarsSelect t i.insCode row.version (row.lowerBound start) before (limit + 1)
  return (rows.take limit).reverse.map chartBarOf

def BarRow.adjustedClose (r : BarRow) : ℚ := r.bar.finalClose * r.factor

def EquityTables.screenWindow (t : EquityTables) (start : Option Date) (stop : Date) :
    List BarRow :=
  screenBarsSelect t (((t.instruments.map t.scanStock).filter StockRow.screenable).map (fun row ↦
    { insCode := row.instrument.insCode
      adjustmentVersion := row.version
      adjustedFirstBar := row.adjustedFirstBar })) start stop

def rialsPerToman : ℚ := 10

structure DailyPoint where
  day : Date
  close : ℚ

def EquityTables.equitySeries (t : EquityTables) (asOf : Date) (symbol : String) :
    List DailyPoint :=
  let admitted := ((t.instruments.map t.scanStock).filter StockRow.screenable).map
    (fun row ↦ row.instrument.symbolFa)
  ((((equityBarsSelect t .validated asOf admitted).filter (fun r ↦ r.symbol = symbol)).map
    (fun r ↦ { day := r.day, close := r.adjustedCloseRial / rialsPerToman }))).insertionSort
      (fun p p' ↦ p.day ≤ p'.day)

theorem EquityTables.factor_eq {t : EquityTables} {insCode adjustmentVersion : String}
    {chained : List CorporateAction} (hp : (t.chained insCode adjustmentVersion).Perm chained)
    (hasc : AscendingBy CorporateAction.effectiveDate chained) (tradeDate : Date) :
    t.factor insCode adjustmentVersion tradeDate =
      ((chained.dropWhile (fun c ↦ c.effectiveDate ≤ tradeDate)).head?.map
        CorporateAction.cumulativeFactor).getD 1 := by
  have hafter : AscendingBy CorporateAction.effectiveDate
      (chained.filter (fun c ↦ tradeDate < c.effectiveDate)) := hasc.filter _
  rw [hasc.dropWhile_eq_filter, EquityTables.factor, hafter.firstBy_eq_head (hp.filter _)]

theorem EquityTables.applyFactors_eq {t : EquityTables} {insCode adjustmentVersion : String}
    {chained : List CorporateAction} (hp : (t.chained insCode adjustmentVersion).Perm chained)
    (hasc : AscendingBy CorporateAction.effectiveDate chained) {bars : List Bar}
    (hbars : Ascending bars) : applyFactors bars chained =
      bars.map (fun b ↦ b.finalClose * t.factor insCode adjustmentVersion b.tradeDate) := by
  rw [applyFactors_eq_map bars chained hbars]
  apply map_congr_left
  intro b _
  rw [t.factor_eq hp hasc]

def BarRow.Resolved (t : EquityTables) (insCode version : String) (r : BarRow) : Prop :=
  r.bar ∈ t.bars ∧ r.bar.insCode = insCode ∧ r.factor = t.factor insCode version r.bar.tradeDate

theorem barsSelect_resolved {t : EquityTables} {insCode version : String} {start stop : Option Date}
    {limit : ℕ} {r : BarRow} (h : r ∈ barsSelect t insCode version start stop limit) :
    r.Resolved t insCode version := by
  obtain ⟨b, hb, rfl⟩ := mem_map.mp (mem_of_mem_take h)
  have hb := (mem_insertionSort _).mp hb
  simp only [mem_filter, Bool.and_eq_true, decide_eq_true_eq] at hb
  exact ⟨hb.1, hb.2.1.1, by rw [hb.2.1.1]⟩

theorem chartBarsSelect_resolved {t : EquityTables} {insCode version : String}
    {start before : Option Date} {limit : ℕ} {r : BarRow}
    (h : r ∈ chartBarsSelect t insCode version start before limit) :
    r.Resolved t insCode version := by
  obtain ⟨b, hb, rfl⟩ := mem_map.mp (mem_of_mem_take h)
  have hb := (mem_insertionSort _).mp hb
  simp only [mem_filter, Bool.and_eq_true, decide_eq_true_eq] at hb
  exact ⟨hb.1, hb.2.1.1, by rw [hb.2.1.1]⟩

theorem screenBarsSelect_resolved {t : EquityTables} {requests : List ScreenRequest}
    {start : Option Date} {stop : Date} {r : BarRow}
    (h : r ∈ screenBarsSelect t requests start stop) :
    ∃ v ∈ requests, r.Resolved t v.insCode v.adjustmentVersion := by
  have h := (mem_insertionSort _).mp h
  obtain ⟨b, hb, h⟩ := mem_flatMap.mp h
  obtain ⟨v, hv, rfl⟩ := mem_map.mp h
  simp only [mem_filter, Bool.and_eq_true, decide_eq_true_eq] at hv
  exact ⟨v, hv.1, hb, hv.2.1.1.1.symm, by rw [hv.2.1.1.1]⟩

theorem equityBarsSelect_resolved {t : EquityTables} {status : Status} {asOf : Date}
    {symbols : List String} {r : EquityClose} (h : r ∈ equityBarsSelect t status asOf symbols) :
    ∃ b ∈ t.bars, ∃ i ∈ t.instruments, ∃ a, i.insCode = b.insCode ∧
      t.newestVerdict i.insCode = some a ∧ r.symbol = i.symbolFa ∧ r.day = b.tradeDate ∧
      r.adjustedCloseRial = b.finalClose * t.factor b.insCode a.adjustmentVersion b.tradeDate := by
  have h := (mem_insertionSort _).mp h
  obtain ⟨b, hb, h⟩ := mem_flatMap.mp h
  obtain ⟨i, hi, h⟩ := mem_flatMap.mp h
  obtain ⟨a, ha, rfl⟩ := mem_map.mp h
  obtain ⟨hi, hcode⟩ := mem_filter.mp hi
  have ha := Option.mem_toList.mp (mem_of_mem_filter ha)
  exact ⟨b, hb, i, hi, a, of_decide_eq_true hcode, ha, rfl, rfl, rfl⟩

theorem EquityTables.bar_unique (t : EquityTables) {b b' : Bar} (h : b ∈ t.bars)
    (h' : b' ∈ t.bars) (hcode : b.insCode = b'.insCode) (hdate : b.tradeDate = b'.tradeDate) :
    b = b' :=
  inj_on_of_nodup_map t.barKey h h' (by rw [hcode, hdate])

theorem BarRow.Resolved.close_eq {t : EquityTables} {insCode version : String} {r : BarRow}
    (h : r.Resolved t insCode version) {b : Bar} (hb : b ∈ t.bars) (hcode : b.insCode = insCode)
    (hdate : r.bar.tradeDate = b.tradeDate) :
    r.bar.finalClose * r.factor = b.finalClose * t.factor insCode version b.tradeDate := by
  obtain ⟨hr, hrcode, hfactor⟩ := h
  obtain rfl := t.bar_unique hr hb (hrcode.trans hcode.symm) hdate
  rw [hfactor]

section Served

variable {t : EquityTables} {i : Instrument} (hi : i ∈ t.instruments) {a : AdjustmentRow}
  (ha : t.newestVerdict i.insCode = some a) {b : Bar} (hb : b ∈ t.bars)
  (hcode : b.insCode = i.insCode)
include hi ha hb hcode

theorem barItems_close {q : BarQuery} (hsymbol : q.symbol = i.symbolFa)
    (hadjusted : q.adjusted = true) {items : List BarItem} (h : t.barItems q = some items)
    {item : BarItem} (hitem : item ∈ items) (hdate : item.date = b.tradeDate) :
    item.finalClose = b.finalClose * t.factor i.insCode a.adjustmentVersion b.tradeDate := by
  simp only [EquityTables.barItems, Option.bind_eq_bind, Option.bind_eq_some_iff, Option.pure_def,
    Option.some.injEq] at h
  obtain ⟨j, hj, _, _, rfl⟩ := h
  have hsame := find?_some hj
  rw [decide_eq_true_eq, hsymbol] at hsame
  obtain rfl := inj_on_of_nodup_map t.symbolKey (mem_of_find?_eq_some hj) hi hsame
  obtain ⟨r, hr, rfl⟩ := mem_map.mp hitem
  have hr := barsSelect_resolved (mem_of_mem_take (mem_reverse.mp hr))
  have hversion : (t.scanStock j).version = a.adjustmentVersion := by
    simp [StockRow.version, EquityTables.scanStock, ha]
  rw [hversion] at hr
  rw [barItem, if_pos hadjusted]
  exact hr.close_eq hb hcode hdate

theorem chartBars_close {start before : Option Date} {limit : ℕ} {items : List ChartBar}
    (h : t.chartBars i.insCode start before limit = some items) {item : ChartBar}
    (hitem : item ∈ items) (hdate : item.day = b.tradeDate) :
    item.close = b.finalClose * t.factor i.insCode a.adjustmentVersion b.tradeDate := by
  simp only [EquityTables.chartBars, Option.bind_eq_bind, Option.bind_eq_some_iff,
    Option.pure_def, Option.some.injEq] at h
  obtain ⟨j, hj, _, _, rfl⟩ := h
  have hsame := find?_some hj
  rw [decide_eq_true_eq] at hsame
  obtain rfl := inj_on_of_nodup_map t.instrumentKey (mem_of_find?_eq_some hj) hi hsame
  obtain ⟨r, hr, rfl⟩ := mem_map.mp hitem
  have hr := chartBarsSelect_resolved (mem_of_mem_take (mem_reverse.mp hr))
  have hversion : (t.scanStock j).version = a.adjustmentVersion := by
    simp [StockRow.version, EquityTables.scanStock, ha]
  rw [hversion] at hr
  exact hr.close_eq hb hcode hdate

theorem screenWindow_close {start : Option Date} {stop : Date} {r : BarRow}
    (hr : r ∈ t.screenWindow start stop) (hrcode : r.bar.insCode = i.insCode)
    (hdate : r.bar.tradeDate = b.tradeDate) :
    r.adjustedClose = b.finalClose * t.factor i.insCode a.adjustmentVersion b.tradeDate := by
  obtain ⟨v, hv, hr⟩ := screenBarsSelect_resolved hr
  obtain ⟨row, hrow, rfl⟩ := mem_map.mp hv
  obtain ⟨j, hj, rfl⟩ := mem_map.mp (mem_of_mem_filter hrow)
  have hsame : j.insCode = i.insCode := hr.2.1.symm.trans hrcode
  obtain rfl := inj_on_of_nodup_map t.instrumentKey hj hi hsame
  have hversion : (t.scanStock j).version = a.adjustmentVersion := by
    simp [StockRow.version, EquityTables.scanStock, ha]
  simp only [hversion] at hr
  exact hr.close_eq hb hcode hdate

theorem equitySeries_close {asOf : Date} {point : DailyPoint}
    (hpoint : point ∈ t.equitySeries asOf i.symbolFa) (hdate : point.day = b.tradeDate) :
    point.close * rialsPerToman =
      b.finalClose * t.factor i.insCode a.adjustmentVersion b.tradeDate := by
  have hpoint := (mem_insertionSort _).mp hpoint
  obtain ⟨r, hr, rfl⟩ := mem_map.mp hpoint
  obtain ⟨hr, hsymbol⟩ := mem_filter.mp hr
  obtain ⟨b', hb', j, hj, a', hjcode, ha', hjsymbol, hday, hclose⟩ := equityBarsSelect_resolved hr
  rw [decide_eq_true_eq, hjsymbol] at hsymbol
  obtain rfl := inj_on_of_nodup_map t.symbolKey hj hi hsymbol
  obtain rfl : a' = a := Option.some.inj (ha'.symm.trans ha)
  obtain rfl := t.bar_unique hb' hb (hjcode.symm.trans hcode.symm) (hday.symm.trans hdate)
  simp only [hclose, rialsPerToman, hcode]
  exact div_mul_cancel₀ _ (by decide)

end Served

def splitBar (tradeDate : Date) (finalClose priceYesterday : ℚ) : Bar where
  insCode := "1"
  tradeDate := tradeDate
  opening := finalClose
  high := finalClose
  low := finalClose
  close := finalClose
  finalClose := finalClose
  priceYesterday := priceYesterday
  volume := 1
  tradeCount := 1
  value := finalClose

def splitAction (effectiveDate prevTradeDate : Date) (prevClose cumulativeFactor : ℚ) :
    CorporateAction where
  effectiveDate := effectiveDate
  prevTradeDate := prevTradeDate
  prevClose := prevClose
  priceYesterday := prevClose / 2
  ratio := 1 / 2
  cumulativeFactor := cumulativeFactor
  kind := .referenceRestated
  restatedClose := none

def splitVerdict (adjustmentVersion : String) (firstBar : Option Date) (computedAt : Instant) :
    AdjustmentRow where
  insCode := "1"
  adjustmentVersion := adjustmentVersion
  status := .validated
  firstBar := firstBar
  computedAt := computedAt

def splitTables : EquityTables where
  instruments := [{ insCode := "1", symbolFa := "s", barCount := 3, enabled := true }]
  bars := [splitBar 1 100 0, splitBar 2 50 50, splitBar 5 25 25]
  actions := [{ insCode := "1", adjustmentVersion := "v1", action := splitAction 5 2 50 (1 / 2) },
    { insCode := "1", adjustmentVersion := "v0", action := splitAction 3 2 50 7 },
    { insCode := "1", adjustmentVersion := "v1", action := splitAction 2 1 100 (1 / 4) }]
  adjustments := [splitVerdict "v0" none 1, splitVerdict "v1" (some 1) 2]
  instrumentKey := by decide
  symbolKey := by decide
  barKey := by decide

end TalaPala.Equities
