import TalaPala.Backtest.Account
import TalaPala.Clock
import TalaPala.Forecast.Intervals

namespace TalaPala.Backtest

open Library Forecast

structure TradingRun (costSide : ℚ) (first : ℕ) (ret : ℕ → ℚ) (decision : ℕ → Decision)
    (account : ℕ → Account) : Prop where
  start : ∀ t, t ≤ first → account t = Account.start
  step : ∀ t, first ≤ t → account (t + 1) = (account t).advance costSide (ret t) (decision t)
  allows : ∀ t, (account t).Allows (decision t)

namespace TradingRun

variable {costSide : ℚ} {first n s t : ℕ} {ret : ℕ → ℚ} {decision : ℕ → Decision}
  {account : ℕ → Account}

theorem invariant (run : TradingRun costSide first ret decision account) {I : Account → Prop}
    (hstart : I Account.start)
    (hstep : ∀ account decision t, first ≤ t → t < n → account.Allows decision → I account →
      I (account.advance costSide (ret t) decision)) (ht : t ≤ n) : I (account t) := by
  induction t with
  | zero => rwa [run.start 0 (Nat.zero_le first)]
  | succ t ih =>
    rcases Nat.lt_or_ge t first with hlt | hle
    · rwa [run.start (t + 1) hlt]
    · rw [run.step t hle]
      exact hstep _ _ t hle ht (run.allows t) (ih (Nat.le_of_succ_le ht))

theorem charged (run : TradingRun costSide first ret decision account)
    (hret : ∀ t, first ≤ t → t < n → 0 < 1 + ret t) (ht : t ≤ n) :
    (account t).Charged costSide :=
  run.invariant Account.charged_start
    (fun _ _ t hle hlt hallows h ↦ h.advance hallows (hret t hle hlt)) ht

theorem compounds (run : TradingRun costSide first ret decision account)
    (hret : ∀ t, first ≤ t → t < n → 0 < 1 + ret t) (hcost : costSide ≠ 1) (ht : t ≤ n) :
    (account t).Compounds costSide := by
  have hboth : (account t).Charged costSide ∧ (account t).Compounds costSide := by
    refine run.invariant (I := fun account ↦ account.Charged costSide ∧ account.Compounds costSide)
      ⟨Account.charged_start, Account.compounds_start⟩ ?_ ht
    intro account decision t hle hlt hallows h
    exact ⟨h.1.advance hallows (hret t hle hlt), h.2.advance h.1 hcost hallows⟩
  exact hboth.2

theorem ruined (run : TradingRun 1 first ret decision account) : (account t).Ruined :=
  run.invariant Account.ruined_start (fun _ _ _ _ _ hallows h ↦ h.advance hallows) le_rfl

theorem untouched (run : TradingRun costSide first ret decision account) :
    (account t).Untouched :=
  run.invariant (fun _ ↦ rfl) (fun _ _ _ _ _ hallows h ↦ h.advance hallows) le_rfl

theorem opened_eq_zero_iff (run : TradingRun costSide first ret decision account) :
    (account t).opened = 0 ↔ ∀ s, first ≤ s → s < t → decision s ≠ .enter := by
  induction t with
  | zero => simp [run.start 0 (Nat.zero_le first), Account.opened, Account.start]
  | succ t ih =>
    rcases Nat.lt_or_ge t first with hlt | hle
    · rw [run.start (t + 1) hlt]
      refine iff_of_true rfl fun s hfirst hs ↦ ?_
      omega
    · rw [run.step t hle, Account.opened_advance (run.allows t), Nat.add_eq_zero_iff, ih]
      constructor
      · rintro ⟨hbefore, hnow⟩ s hfirst hs
        rcases Nat.lt_succ_iff_lt_or_eq.mp hs with hlt | rfl
        · exact hbefore s hfirst hlt
        · intro henter
          rw [if_pos henter] at hnow
          exact Nat.one_ne_zero hnow
      · intro h
        exact ⟨fun s hfirst hs ↦ h s hfirst (Nat.lt_succ_of_lt hs),
          if_neg (h t hle (Nat.lt_succ_self t))⟩

theorem flat_of_opened (h : (account t).opened = 0) : (account t).position = false :=
  Bool.toNat_eq_zero.mp (Nat.eq_zero_of_add_eq_zero_left h)

theorem never_enters_iff (run : TradingRun costSide first ret decision account) {p : ℕ → Prop}
    (hp : ∀ t, decision t = .enter ↔ (account t).position = false ∧ p t) :
    (∀ s, first ≤ s → s < n → decision s ≠ .enter) ↔ ∀ s, first ≤ s → s < n → ¬p s := by
  constructor
  · intro h s hfirst hs hps
    have hflat : (account s).position = false := by
      refine flat_of_opened (run.opened_eq_zero_iff.mpr ?_)
      exact fun u hu hus ↦ h u hu (hus.trans hs)
    exact h s hfirst hs ((hp s).mpr ⟨hflat, hps⟩)
  · intro h s hfirst hs henter
    exact h s hfirst hs ((hp s).mp henter).2

theorem compounded_iff (run : TradingRun costSide first ret decision account)
    (hret : ∀ t, first ≤ t → t < n → 0 < 1 + ret t) :
    compounded ((account n).close costSide).trades =
        some ((account n).close costSide).equity.last ↔
      (∀ s, first ≤ s → s < n → decision s ≠ .enter) ∨ costSide = 0 ∨
        costSide = 2 ∧ Even (account n).opened := by
  rw [Account.compounded_close_iff (run.charged hret le_rfl)
    (fun hcost ↦ run.compounds hret hcost le_rfl) (fun hcost ↦ (hcost ▸ run).ruined)
    run.untouched, pow_eq_one_iff_cases, run.opened_eq_zero_iff]
  have htwo : 1 - costSide = -1 ↔ costSide = 2 := by
    constructor <;> intro h <;> linarith
  rw [sub_eq_self, htwo]

theorem entered_of_position (run : TradingRun costSide first ret decision account)
    (h : (account t).position = true) :
    ∃ entry, first ≤ entry ∧ entry < t ∧ decision entry = .enter ∧
      ∀ s, entry < s → s < t → decision s = .stay := by
  induction t with
  | zero =>
    rw [run.start 0 (Nat.zero_le first)] at h
    cases h
  | succ t ih =>
    rcases Nat.lt_or_ge t first with hlt | hle
    · rw [run.start (t + 1) hlt] at h
      cases h
    · rw [run.step t hle] at h
      cases hdecision : decision t with
      | stay =>
        rw [hdecision, Account.position_stay] at h
        obtain ⟨entry, hfirst, hbefore, henter, hstay⟩ := ih h
        refine ⟨entry, hfirst, Nat.lt_succ_of_lt hbefore, henter, fun s hs hst ↦ ?_⟩
        rcases Nat.lt_succ_iff_lt_or_eq.mp hst with hlt | rfl
        · exact hstay s hs hlt
        · exact hdecision
      | enter =>
        refine ⟨t, hle, Nat.lt_succ_self t, hdecision, fun s hs hst ↦ ?_⟩
        omega
      | leave =>
        rw [hdecision] at h
        cases h

theorem length_points (run : TradingRun costSide first ret decision account) :
    (account t).equity.points.length = t - first + 1 ∧
      (account t).gross.points.length = t - first + 1 := by
  induction t with
  | zero => rw [run.start 0 (Nat.zero_le first)]; simp [Account.start]
  | succ t ih =>
    rcases Nat.lt_or_ge t first with hlt | hle
    · rw [run.start (t + 1) hlt, Nat.sub_eq_zero_of_le hlt]
      exact ⟨rfl, rfl⟩
    · rw [run.step t hle, Nat.succ_sub hle]
      simp [ih]

theorem take_points (run : TradingRun costSide first ret decision account) (hst : s ≤ t) :
    (account t).equity.points.take (s - first + 1) = (account s).equity.points ∧
      (account t).gross.points.take (s - first + 1) = (account s).gross.points := by
  induction t with
  | zero =>
    obtain rfl := Nat.le_zero.mp hst
    constructor
    · rw [← run.length_points.1, List.take_length]
    · rw [← run.length_points.2, List.take_length]
  | succ t ih =>
    rcases hst.lt_or_eq with hlt | rfl
    · have hle : s ≤ t := Nat.le_of_lt_succ hlt
      rcases Nat.lt_or_ge t first with hbefore | hfirst
      · rw [run.start (t + 1) hbefore, ← run.start t hbefore.le]
        exact ih hle
      · have hlength : s - first + 1 ≤ t - first + 1 := by omega
        rw [run.step t hfirst, Account.points_equity_advance, Account.points_gross_advance,
          List.take_append_of_le_length (by rwa [run.length_points.1]),
          List.take_append_of_le_length (by rwa [run.length_points.2])]
        exact ih hle
    · constructor
      · rw [← run.length_points.1, List.take_length]
      · rw [← run.length_points.2, List.take_length]

theorem take_close (run : TradingRun costSide first ret decision account) (ht : first ≤ t)
    (htn : t < n) :
    ((account n).close costSide).equity.points.take (t - first + 1) = (account t).equity.points ∧
      ((account n).close costSide).gross.points.take (t - first + 1) =
        (account t).gross.points := by
  have hbefore : t - first + 1 < (account n).equity.points.length := by
    rw [run.length_points.1]
    omega
  rw [Account.close]
  split
  · refine ⟨?_, (run.take_points htn.le).2⟩
    exact (Track.take_setLast hbefore).trans (run.take_points htn.le).1
  · exact run.take_points htn.le

end TradingRun

structure BacktestParams where
  horizonSteps : ℕ := 1
  feePct : ℚ := 1 / 2
  spreadPct : ℚ := 1
  slippagePct : ℚ := 1 / 10
  minHoldingDays : ℤ := 1
  warmup : ℕ := 60

namespace BacktestParams

def costPerSidePct (params : BacktestParams) : ℚ :=
  params.feePct + params.spreadPct / 2 + params.slippagePct

def roundTripCostPct (params : BacktestParams) : ℚ := 2 * params.costPerSidePct

def costSide (params : BacktestParams) : ℚ := params.costPerSidePct / 100

def entryThreshold (params : BacktestParams) : ℚ := params.roundTripCostPct * (3 / 4)

end BacktestParams

abbrev ForecastFn := List ℚ → ℕ → ℚ

def lastMean (k : ℕ) (history : List ℚ) : ℚ := mean (history.drop (history.length - k))

def defaultForecast : ForecastFn := fun history steps ↦
  if history.length < 21 then 0
  else
    let trendGap := (lastMean 5 history / lastMean 20 history - 1) * 100
    let drift := (history.getD (history.length - 1) 0 / history.getD (history.length - 11) 0 - 1)
      * 100 / 10
    trendGap * (1 / 2) + drift * steps

inductive Regime
  | trendingUp
  | trendingDown
  | ranging
  | highVolatility
  | unknown
  deriving DecidableEq

def Regime.sorted : List Regime :=
  [.highVolatility, .ranging, .trendingDown, .trendingUp, .unknown]

def stepReturn (values : List ℚ) (t : ℕ) : ℚ := values.getD (t + 1) 0 / values.getD t 0 - 1

section Strategy

structure StrategyState where
  account : Account
  heldDays : ℕ
  directionalHits : List Bool
  /-- What each regime's held days earned, in their order. -/
  regimeReturns : Regime → List ℚ

def strategyStart : StrategyState := ⟨Account.start, 0, [], fun _ ↦ []⟩

def strategyDecision (params : BacktestParams) (expected : ℚ) (position : Bool)
    (heldDays : ℕ) : Decision :=
  if position = false ∧ params.entryThreshold < expected then .enter
  else if position = true ∧ params.minHoldingDays ≤ heldDays ∧ expected < 0 then .leave
  else .stay

def directionalHit (values : List ℚ) (horizonSteps t : ℕ) (expected : ℚ) : Option Bool :=
  let realizedIdx := min (t + horizonSteps) (values.length - 1)
  let realized := (values.getD realizedIdx 0 / values.getD t 0 - 1) * 100
  if expected ≠ 0 ∧ realized ≠ 0 then some (decide (0 < expected ↔ 0 < realized)) else none

variable (params : BacktestParams) (forecast : ForecastFn) (detectRegime : List ℚ → Regime)
  (values : List ℚ)

def expectedAt (t : ℕ) : ℚ := forecast (values.take (t + 1)) params.horizonSteps

def strategyStep (state : StrategyState) (t : ℕ) : StrategyState :=
  let expected := expectedAt params forecast values t
  let decision := strategyDecision params expected state.account.position state.heldDays
  let stepRet := stepReturn values t
  let account := state.account.advance params.costSide stepRet decision
  let heldDays := if decision = .enter then 0 else state.heldDays
  let regime := detectRegime (values.take (t + 1))
  { account := account
    heldDays := if account.position then heldDays + 1 else heldDays
    directionalHits := state.directionalHits ++
      (directionalHit values params.horizonSteps t expected).toList
    regimeReturns := if account.position then
        Function.update state.regimeReturns regime (state.regimeReturns regime ++ [stepRet])
      else state.regimeReturns }

/-- The strategy when it is about to take the step from `t`. -/
def strategyBefore (t : ℕ) : StrategyState :=
  indexLoop (strategyStep params forecast detectRegime values) strategyStart params.warmup t

def strategyDecisionAt (t : ℕ) : Decision :=
  let state := strategyBefore params forecast detectRegime values t
  strategyDecision params (expectedAt params forecast values t) state.account.position
    state.heldDays

variable {params forecast detectRegime values} {expected : ℚ} {position : Bool} {heldDays t : ℕ}

theorem strategyDecision_enter_iff : strategyDecision params expected position heldDays = .enter ↔
    position = false ∧ params.entryThreshold < expected := by
  rw [strategyDecision]
  split_ifs with henter hleave
  · exact iff_of_true rfl henter
  · exact iff_of_false (by simp) henter
  · exact iff_of_false (by simp) henter

theorem strategyDecision_leave (h : strategyDecision params expected position heldDays = .leave) :
    position = true ∧ params.minHoldingDays ≤ heldDays := by
  rw [strategyDecision] at h
  split_ifs at h with henter hleave
  exact ⟨hleave.1, hleave.2.1⟩

theorem strategyDecision_allows (account : Account) :
    account.Allows (strategyDecision params expected account.position heldDays) := by
  cases hdecision : strategyDecision params expected account.position heldDays with
  | stay => exact trivial
  | enter => exact (strategyDecision_enter_iff.mp hdecision).1
  | leave => exact (strategyDecision_leave hdecision).1

theorem strategyBefore_succ (h : params.warmup ≤ t) :
    strategyBefore params forecast detectRegime values (t + 1) =
      strategyStep params forecast detectRegime values
        (strategyBefore params forecast detectRegime values t) t :=
  indexLoop_succ h

theorem strategy_run : TradingRun params.costSide params.warmup (stepReturn values)
    (strategyDecisionAt params forecast detectRegime values)
    (fun t ↦ (strategyBefore params forecast detectRegime values t).account) where
  start t ht := by
    rw [strategyBefore, indexLoop_of_le ht]
    rfl
  step t ht := by
    rw [strategyBefore_succ ht]
    rfl
  allows _ := strategyDecision_allows _

end Strategy

section Crossover

def smaAt (values : List ℚ) (k t : ℕ) : ℚ := mean ((values.take (t + 1)).drop (t + 1 - k))

def smaWant (values : List ℚ) (t : ℕ) (position : Bool) : Bool :=
  if 50 ≤ t then decide (smaAt values 50 t < smaAt values 20 t) else position

def smaDecision (values : List ℚ) (t : ℕ) (position : Bool) : Decision :=
  let want := smaWant values t position
  if want = position then .stay else if want then .enter else .leave

variable (params : BacktestParams) (values : List ℚ)

def smaStep (account : Account) (t : ℕ) : Account :=
  account.advance params.costSide (stepReturn values t) (smaDecision values t account.position)

/-- The crossover when it is about to take the step from `t`. -/
def smaBefore (t : ℕ) : Account :=
  indexLoop (smaStep params values) Account.start params.warmup t

def smaDecisionAt (t : ℕ) : Decision := smaDecision values t (smaBefore params values t).position

variable {params values} {position : Bool} {t : ℕ}

theorem smaDecision_enter_iff : smaDecision values t position = .enter ↔
    position = false ∧ 50 ≤ t ∧ smaAt values 50 t < smaAt values 20 t := by
  rw [smaDecision, smaWant]
  cases position <;> split_ifs <;> simp_all

theorem smaDecision_leave (h : smaDecision values t position = .leave) : position = true := by
  rw [smaDecision] at h
  cases position <;> split_ifs at h <;> simp_all

theorem smaDecision_allows (account : Account) :
    account.Allows (smaDecision values t account.position) := by
  cases hdecision : smaDecision values t account.position with
  | stay => exact trivial
  | enter => exact (smaDecision_enter_iff.mp hdecision).1
  | leave => exact smaDecision_leave hdecision

theorem sma_run : TradingRun params.costSide params.warmup (stepReturn values)
    (smaDecisionAt params values) (smaBefore params values) where
  start _ ht := indexLoop_of_le ht
  step _ ht := indexLoop_succ ht
  allows _ := smaDecision_allows _

end Crossover

section Report

structure Outcome where
  equity : List ℚ
  gross : List ℚ
  trades : List (Option ℚ)

def Account.outcome (account : Account) : Outcome :=
  ⟨account.equity.points, account.gross.points, account.trades⟩

def noAction : Outcome := ⟨[1, 1], [1, 1], []⟩

def buyAndHold (params : BacktestParams) (values : List ℚ) : Outcome :=
  let window := values.drop params.warmup
  let first := window.getD 0 0
  let bhGross := window.getLastD 0 / first
  let bhNet := bhGross * (1 - params.costSide) ^ 2
  let bhEquity := 1 * (1 - params.costSide) ::
    window.tail.map (fun v ↦ v / first * (1 - params.costSide))
  { equity := bhEquity.dropLast ++ [bhEquity.getLastD 0 * (1 - params.costSide)]
    gross := [1, bhGross]
    trades := [some ((bhNet - 1) * 100)] }

structure Metrics where
  totalReturnPct : ℚ
  winRate : ℚ
  profitFactor : Option ℚ
  nTrades : ℕ
  avgTradeReturnPct : Option ℚ
  grossTotalReturnPct : ℚ
  directionalAccuracy : Option ℚ

def totalReturnPct (equity : List ℚ) : ℚ :=
  roundTo 4 (equity.getLast?.elim 0 (fun last ↦ (last - 1) * 100))

def metricsFromEquity (outcome : Outcome) (directionalHits : List Bool) : Metrics :=
  let trades := outcome.trades
  let wins := trades.reduceOption.filter (fun t ↦ 0 < t)
  let losses := trades.reduceOption.filter (fun t ↦ t ≤ 0)
  let grossWin := wins.sum
  let grossLoss := -losses.sum
  { totalReturnPct := totalReturnPct outcome.equity
    winRate := if trades = [] then 0 else roundTo 4 (wins.length / trades.length)
    profitFactor := if 0 < grossLoss then some (roundTo 4 (grossWin / grossLoss))
      else if 0 < grossWin then none else some 0
    nTrades := trades.length
    avgTradeReturnPct := if trades = [] then some 0
      else if none ∈ trades then none else some (roundTo 4 (mean trades.reduceOption))
    grossTotalReturnPct := totalReturnPct outcome.gross
    directionalAccuracy := if directionalHits = [] then none
      else some (roundTo 4 (directionalHits.count true / directionalHits.length)) }

structure RegimeReturn where
  regime : Regime
  days : ℕ
  returnPct : ℚ

def perRegime (regimeReturns : Regime → List ℚ) : List RegimeReturn :=
  (Regime.sorted.filter (fun regime ↦ regimeReturns regime ≠ [])).map fun regime ↦
    let rets := regimeReturns regime
    ⟨regime, rets.length, roundTo 4 (((rets.map (1 + ·)).prod - 1) * 100)⟩

structure BacktestResult where
  strategy : Metrics
  buyAndHold : Metrics
  noAction : Metrics
  smaCrossover : Metrics
  perRegime : List RegimeReturn
  params : BacktestParams
  costPerSidePct : ℚ
  periodStart : Option Instant
  periodEnd : Option Instant
  nPoints : ℕ

inductive BacktestError
  | seriesTooShort (points need : ℕ)

variable (params : BacktestParams) (forecast : ForecastFn) (detectRegime : List ℚ → Regime)

def strategyOutcome (values : List ℚ) : Outcome :=
  ((strategyBefore params forecast detectRegime values (values.length - 1)).account.close
    params.costSide).outcome

def smaOutcome (values : List ℚ) : Outcome :=
  ((smaBefore params values (values.length - 1)).close params.costSide).outcome

def runBacktest (series : List (Instant × ℚ)) (params : BacktestParams)
    (forecastFn : Option ForecastFn) : Except BacktestError BacktestResult :=
  let forecast := forecastFn.getD defaultForecast
  let values := series.map Prod.snd
  let n := values.length
  if n < params.warmup + params.horizonSteps + 2 then
    .error (.seriesTooShort n (params.warmup + params.horizonSteps + 2))
  else
    let final := strategyBefore params forecast detectRegime values (n - 1)
    .ok {
      strategy := metricsFromEquity (strategyOutcome params forecast detectRegime values)
        final.directionalHits
      buyAndHold := metricsFromEquity (buyAndHold params values) []
      noAction := metricsFromEquity noAction []
      smaCrossover := metricsFromEquity (smaOutcome params values) []
      perRegime := perRegime final.regimeReturns
      params := params
      costPerSidePct := roundTo 4 params.costPerSidePct
      periodStart := series.head?.map Prod.fst
      periodEnd := series.getLast?.map Prod.fst
      nPoints := n }

end Report

end TalaPala.Backtest
