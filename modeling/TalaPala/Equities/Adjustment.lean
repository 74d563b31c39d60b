import TalaPala.Equities.Detection
import TalaPala.Library.AsOf

namespace TalaPala.Equities

open Library SuffixFactor List

def chainFactors (actions : List CorporateAction) : List CorporateAction :=
  (actions.foldr
    (fun action (chained, running) ↦
      ({ action with cumulativeFactor := running * action.ratio } :: chained,
        running * action.ratio))
    (([] : List CorporateAction), (1 : ℚ))).1

/-- The two-cursor walk: `actions` is what the cursor has not passed yet. -/
def applyFactors : List Bar → List CorporateAction → List ℚ
  | [], _ => []
  | bar :: bars, actions =>
    let ahead := actions.dropWhile (fun action ↦ action.effectiveDate ≤ bar.tradeDate)
    bar.finalClose * (ahead.head?.map CorporateAction.cumulativeFactor).getD 1 ::
      applyFactors bars ahead

structure SessionMove where
  tradeDate : Date
  prevTradeDate : Date
  gapDays : ℤ
  ret : ℚ
  isSession : Bool

structure Bounds where
  maxSessionReturn : ℚ := 1 / 4
  maxReopeningReturn : ℚ := 3
  sessionGapDays : ℤ := 4

def sessionMoves (sessionGapDays : ℤ) :
    List Bar → List ℚ → Except BarParseError (List SessionMove)
  | previous :: current :: bars, before :: after :: adjusted =>
    if before = 0 then .error .zeroDivision
    else
      match sessionMoves sessionGapDays (current :: bars) (after :: adjusted) with
      | .error e => .error e
      | .ok moves =>
        let gap := current.tradeDate - previous.tradeDate
        .ok ({ tradeDate := current.tradeDate
               prevTradeDate := previous.tradeDate
               gapDays := gap
               ret := after / before - 1
               isSession := current.traded && previous.traded && decide (gap ≤ sessionGapDays) }
             :: moves)
  | _, _ => .ok []

inductive Status
  | validated
  | refused
  deriving DecidableEq

structure RefusalReason where
  session : Bool
  bound : ℚ
  count : ℕ
  shown : List SessionMove

structure Validation where
  status : Status
  sessionsChecked : ℕ
  reopenings : ℕ
  worstReturn : Option ℚ
  worstReturnDate : Option Date
  violations : List SessionMove
  bounds : Bounds
  refusalReason : List RefusalReason

def describe (moves : List SessionMove) : List SessionMove := moves.take 5

def worstMove : List SessionMove → Option SessionMove
  | [] => none
  | move :: moves => some (moves.foldl (fun worst m ↦ if |worst.ret| < |m.ret| then m else worst) move)

def refusals (session : Bool) (bound : ℚ) (exceeding : List SessionMove) : List RefusalReason :=
  if exceeding.isEmpty then []
  else [{ session := session, bound := bound, count := exceeding.length, shown := describe exceeding }]

def validate (moves : List SessionMove) (bounds : Bounds) : Validation :=
  let sessions := moves.filter SessionMove.isSession
  let reopenings := moves.filter (fun move ↦ !move.isSession)
  let overSession := sessions.filter (fun move ↦ |move.ret| > bounds.maxSessionReturn)
  let overReopening := reopenings.filter (fun move ↦ |move.ret| > bounds.maxReopeningReturn)
  let worst := worstMove sessions
  { status := if (overSession ++ overReopening).isEmpty then .validated else .refused
    sessionsChecked := sessions.length
    reopenings :=
      (reopenings.filter (fun move ↦ |move.ret| > bounds.maxSessionReturn)).length
    worstReturn := worst.map SessionMove.ret
    worstReturnDate := worst.map SessionMove.tradeDate
    violations := overSession ++ overReopening
    bounds := bounds
    refusalReason := refusals true bounds.maxSessionReturn overSession ++
      refusals false bounds.maxReopeningReturn overReopening }

structure AdjustedSeries where
  insCode : String
  version : String
  bars : List Bar
  actions : List CorporateAction
  preListingBars : ℕ
  adjustedCloses : List ℚ
  validation : Validation
  contested : List ContestedBreak

def AdjustedSeries.tradedBars (series : AdjustedSeries) : List Bar :=
  series.bars.drop series.preListingBars

def adjustedPairs (series : AdjustedSeries) : List (Bar × ℚ) :=
  series.tradedBars.zip series.adjustedCloses

def byTradeDate (bars : List Bar) : List Bar :=
  bars.insertionSort (fun a b ↦ a.tradeDate ≤ b.tradeDate)

def adjustmentVersion : String := "priceYesterday-chain-v1"

def adjust (bars : List Bar) (bounds : Bounds) (alternatives : Alternatives) :
    Except BarParseError AdjustedSeries :=
  if bars.isEmpty then .error .noBars
  else
    let ordered := byTradeDate bars
    let insCode := (ordered.head?.map Bar.insCode).getD ""
    match detectActions alternatives ordered with
    | .error e => .error e
    | .ok (detected, contested) =>
      -- detection reads the leading placeholder bars, adjustment does not
      let actions := chainFactors detected
      let lead := firstTradedIndex ordered
      if lead ≥ ordered.length then .error (.neverTraded insCode ordered.length)
      else
        let traded := ordered.drop lead
        let adjusted := applyFactors traded actions
        match sessionMoves bounds.sessionGapDays traded adjusted with
        | .error e => .error e
        | .ok moves => .ok
            { insCode := insCode
              version := adjustmentVersion
              bars := ordered
              actions := actions
              preListingBars := lead
              adjustedCloses := adjusted
              validation := validate moves bounds
              contested := contested }

theorem byTradeDate_perm (bars : List Bar) : (byTradeDate bars).Perm bars :=
  perm_insertionSort _ bars

theorem byTradeDate_ascending {bars : List Bar} (h : (bars.map Bar.tradeDate).Nodup) :
    Ascending (byTradeDate bars) := by
  have hle : (byTradeDate bars).Pairwise (fun a b ↦ a.tradeDate ≤ b.tradeDate) :=
    pairwise_insertionSort _ bars
  have hne : (byTradeDate bars).Pairwise (fun a b ↦ a.tradeDate ≠ b.tradeDate) := by
    have hn : ((byTradeDate bars).map Bar.tradeDate).Nodup :=
      ((byTradeDate_perm bars).map Bar.tradeDate).nodup_iff.mpr h
    exact pairwise_map.mp hn
  exact (hle.and hne).imp (fun h ↦ lt_of_le_of_ne h.1 h.2)

theorem chainFactors_eq (actions : List CorporateAction) :
    chainFactors actions = (chain CorporateAction.ratio actions).map
      (fun c ↦ { c.1 with cumulativeFactor := c.2 }) := by
  have key : actions.foldr
      (fun action (chained, running) ↦
        ({ action with cumulativeFactor := running * action.ratio } :: chained,
          running * action.ratio)) (([] : List CorporateAction), (1 : ℚ)) =
      ((chain CorporateAction.ratio actions).map (fun c ↦ { c.1 with cumulativeFactor := c.2 }),
        (actions.map CorporateAction.ratio).prod) := by
    induction actions with
    | nil => rfl
    | cons action actions ih =>
      rw [foldr_cons, ih]
      simp [chain, mul_comm]
  rw [chainFactors, key]

/-- What the source multiplies a raw close by: the product of the ratios of
every action strictly after the bar. -/
def backFactor (detected : List CorporateAction) (date : Date) : ℚ :=
  factorAfter CorporateAction.effectiveDate CorporateAction.ratio detected date

theorem head_dropWhile_chainFactors (detected : List CorporateAction) (date : Date) :
    (((chainFactors detected).dropWhile
      (fun a ↦ a.effectiveDate ≤ date)).head?.map
        CorporateAction.cumulativeFactor).getD 1 =
      firstFactor CorporateAction.effectiveDate (chain CorporateAction.ratio detected) date := by
  rw [chainFactors_eq, dropWhile_map, head?_map, Option.map_map]
  rfl

theorem applyFactors_eq_map (bars : List Bar) (actions : List CorporateAction)
    (hs : Ascending bars) : applyFactors bars actions = bars.map (fun bar ↦ bar.finalClose *
      ((actions.dropWhile (fun a ↦ a.effectiveDate ≤ bar.tradeDate)).head?.map
        CorporateAction.cumulativeFactor).getD 1) := by
  induction bars generalizing actions with
  | nil => rfl
  | cons bar bars ih =>
    obtain ⟨hlt, hrest⟩ := pairwise_cons.mp hs
    rw [applyFactors, map_cons, ih _ hrest]
    congr 1
    apply map_congr_left
    intro later hl
    rw [dropWhile_passed CorporateAction.effectiveDate (hlt later hl).le]

theorem adjust_ok {bars : List Bar} {bounds : Bounds} {alternatives : Alternatives}
    {series : AdjustedSeries} (h : adjust bars bounds alternatives = .ok series) :
    ∃ found, detectActions alternatives (byTradeDate bars) = .ok found ∧
      series.bars = byTradeDate bars ∧ series.actions = chainFactors found.1 ∧
      series.preListingBars = firstTradedIndex (byTradeDate bars) ∧
      series.preListingBars < series.bars.length ∧
      series.adjustedCloses = applyFactors series.tradedBars (chainFactors found.1) := by
  unfold adjust at h
  split at h
  · cases h
  · simp only at h
    split at h
    · cases h
    · rename_i detected contested hd
      split at h
      · cases h
      · rename_i hlead
        split at h
        · cases h
        · obtain rfl := Except.ok.inj h
          exact ⟨(detected, contested), hd, rfl, rfl, rfl, not_le.mp hlead, rfl⟩

theorem adjustedCloses_eq {bars : List Bar} {bounds : Bounds} {alternatives : Alternatives}
    {series : AdjustedSeries} (hdates : (bars.map Bar.tradeDate).Nodup)
    (h : adjust bars bounds alternatives = .ok series) :
    ∃ found, detectActions alternatives series.bars = .ok found ∧ Ascending series.bars ∧
      series.adjustedCloses =
        series.tradedBars.map (fun bar ↦ bar.finalClose * backFactor found.1 bar.tradeDate) := by
  obtain ⟨found, hd, hb, _, _, _, hc⟩ := adjust_ok h
  have hs : Ascending series.bars := hb ▸ byTradeDate_ascending hdates
  rw [← hb] at hd
  refine ⟨found, hd, hs, ?_⟩
  have hspan : Ascending series.tradedBars := hs.sublist (drop_sublist _ _)
  rw [hc, applyFactors_eq_map _ _ hspan]
  apply map_congr_left
  intro bar _
  rw [head_dropWhile_chainFactors, firstFactor_chain (detectActions_sorted hs hd)]
  rfl

theorem adjustedPairs_eq {series : AdjustedSeries} {f : Bar → ℚ}
    (h : series.adjustedCloses = series.tradedBars.map f) :
    adjustedPairs series = series.tradedBars.map (fun bar ↦ (bar, f bar)) := by
  rw [adjustedPairs, h, map_prod_left_eq_zip]

theorem mem_bars {bars : List Bar} {bounds : Bounds} {alternatives : Alternatives}
    {series : AdjustedSeries} (h : adjust bars bounds alternatives = .ok series) {bar : Bar} :
    bar ∈ series.bars ↔ bar ∈ bars := by
  obtain ⟨_, _, hb, _⟩ := adjust_ok h
  rw [hb]
  exact (byTradeDate_perm bars).mem_iff

end TalaPala.Equities
