import TalaPala.Backtest.Engine

namespace TalaPala.Backtest

open Library List

structure PriceSeries where
  points : List (Instant × ℚ)
  positive : ∀ point ∈ points, 0 < point.2

def PriceSeries.values (series : PriceSeries) : List ℚ := series.points.map Prod.snd

def AccountsFor (outcome : Outcome) : Prop :=
  ∃ net, outcome.equity.getLast? = some net ∧ compounded outcome.trades = some net

section Inputs

variable (params : BacktestParams) (forecast : ForecastFn) (values : List ℚ)

structure Holding where
  position : Bool
  heldDays : ℕ
  opened : ℕ

def Holding.next (holding : Holding) (expected : ℚ) : Holding :=
  match strategyDecision params expected holding.position holding.heldDays with
  | .stay => { holding with
      heldDays := if holding.position then holding.heldDays + 1 else holding.heldDays }
  | .enter => ⟨true, 1, holding.opened + 1⟩
  | .leave => { holding with position := false }

def holdingAfter : Holding :=
  indexLoop (fun holding t ↦ Holding.next params holding (expectedAt params forecast values t))
    ⟨false, 0, 0⟩ params.warmup (values.length - 1)

def forecastOpenings : ℕ := (holdingAfter params forecast values).opened

def crossingStep (crossing : Bool × ℕ) (t : ℕ) : Bool × ℕ :=
  match smaDecision values t crossing.1 with
  | .stay => crossing
  | .enter => (true, crossing.2 + 1)
  | .leave => (false, crossing.2)

def smaOpenings : ℕ :=
  (indexLoop (crossingStep values) (false, 0) params.warmup (values.length - 1)).2

structure Follows (holding : Holding) (state : StrategyState) : Prop where
  position : holding.position = state.account.position
  heldDays : holding.heldDays = state.heldDays
  opened : holding.opened = state.account.opened

variable {params forecast values} {detectRegime : List ℚ → Regime} {holding : Holding}
  {state : StrategyState} {t : ℕ}

theorem Follows.next (h : Follows holding state) :
    Follows (holding.next params (expectedAt params forecast values t))
      (strategyStep params forecast detectRegime values state t) := by
  obtain ⟨hposition, hdays, hopened⟩ := h
  have hnext : (strategyStep params forecast detectRegime values state t).account.opened =
      state.account.opened + if strategyDecision params (expectedAt params forecast values t)
        state.account.position state.heldDays = .enter then 1 else 0 :=
    Account.opened_advance (strategyDecision_allows state.account)
  rw [Holding.next, hposition, hdays]
  cases hdecision : strategyDecision params (expectedAt params forecast values t)
    state.account.position state.heldDays with
  | stay =>
    rw [hdecision] at hnext
    constructor
    · simp [strategyStep, hdecision]
    · simp [strategyStep, hdecision]
    · simp [hnext, hopened]
  | enter =>
    rw [hdecision] at hnext
    constructor
    · simp [strategyStep, hdecision]
    · simp [strategyStep, hdecision]
    · simp [hnext, hopened]
  | leave =>
    rw [hdecision] at hnext
    constructor
    · simp [strategyStep, hdecision]
    · simp [strategyStep, hdecision]
    · simp [hnext, hopened]

theorem opened_strategy : (strategyBefore params forecast detectRegime values
    (values.length - 1)).account.opened = forecastOpenings params forecast values := by
  have hfollows : Follows (holdingAfter params forecast values)
      (strategyBefore params forecast detectRegime values (values.length - 1)) :=
    indexLoop_rel ⟨rfl, rfl, rfl⟩ (fun _ _ _ _ _ h ↦ h.next) le_rfl
  exact hfollows.opened.symm

theorem opened_sma :
    (smaBefore params values (values.length - 1)).opened = smaOpenings params values := by
  have hrel : ∀ n, (indexLoop (crossingStep values) (false, 0) params.warmup n) =
      ((smaBefore params values n).position, (smaBefore params values n).opened) := by
    intro n
    refine indexLoop_rel (R := fun crossing (account : Account) ↦
      crossing = (account.position, account.opened)) rfl ?_ (le_refl n)
    rintro crossing account t - - rfl
    have hnext : (smaStep params values account t).opened = account.opened +
        if smaDecision values t account.position = .enter then 1 else 0 :=
      Account.opened_advance (smaDecision_allows account)
    rw [hnext, crossingStep, smaStep]
    cases smaDecision values t account.position <;> simp
  rw [smaOpenings, hrel]

end Inputs

section Prices

variable {params : BacktestParams} {forecast : ForecastFn} {detectRegime : List ℚ → Regime}
  {values : List ℚ} {t : ℕ}

theorem PriceSeries.values_pos (series : PriceSeries) : ∀ v ∈ series.values, 0 < v := by
  intro v hv
  obtain ⟨point, hpoint, rfl⟩ := mem_map.mp hv
  exact series.positive point hpoint

theorem getD_pos (hpos : ∀ v ∈ values, 0 < v) (ht : t < values.length) : 0 < values.getD t 0 := by
  rw [getD_eq_getElem?_getD, getElem?_eq_getElem ht, Option.getD_some]
  exact hpos _ (getElem_mem ht)

theorem stepReturn_pos (hpos : ∀ v ∈ values, 0 < v) (ht : t < values.length - 1) :
    0 < 1 + stepReturn values t := by
  have hratio := div_pos (getD_pos hpos (t := t + 1) (by omega)) (getD_pos hpos (t := t) (by omega))
  rw [stepReturn]
  linarith

theorem accountsFor_outcome {account : Account} :
    AccountsFor account.outcome ↔ compounded account.trades = some account.equity.last := by
  simp [AccountsFor, Account.outcome]

theorem strategy_accounts_iff (hpos : ∀ v ∈ values, 0 < v) :
    AccountsFor (strategyOutcome params forecast detectRegime values) ↔
      (∀ t, params.warmup ≤ t → t < values.length - 1 →
        expectedAt params forecast values t ≤ params.entryThreshold) ∨ params.costSide = 0 ∨
        params.costSide = 2 ∧ Even (forecastOpenings params forecast values) := by
  rw [strategyOutcome, accountsFor_outcome,
    strategy_run.compounded_iff (fun t _ ht ↦ stepReturn_pos hpos ht),
    strategy_run.never_enters_iff (fun _ ↦ strategyDecision_enter_iff), opened_strategy]
  simp only [not_lt]

theorem sma_accounts_iff (hpos : ∀ v ∈ values, 0 < v) :
    AccountsFor (smaOutcome params values) ↔
      (∀ t, params.warmup ≤ t → t < values.length - 1 → 50 ≤ t →
        smaAt values 20 t ≤ smaAt values 50 t) ∨ params.costSide = 0 ∨
        params.costSide = 2 ∧ Even (smaOpenings params values) := by
  rw [smaOutcome, accountsFor_outcome, sma_run.compounded_iff (fun t _ ht ↦ stepReturn_pos hpos ht),
    sma_run.never_enters_iff (fun _ ↦ smaDecision_enter_iff), opened_sma]
  simp only [not_and, not_lt]

theorem buyAndHold_accounts (hlong : params.warmup + 2 ≤ values.length) :
    AccountsFor (buyAndHold params values) := by
  have hlength : (values.drop params.warmup).length = values.length - params.warmup :=
    length_drop
  rw [buyAndHold]
  rcases hwindow : values.drop params.warmup with - | ⟨first, rest⟩
  · rw [hwindow, length_nil] at hlength
    omega
  · cases rest using List.reverseRecOn with
    | nil =>
      rw [hwindow, length_singleton] at hlength
      omega
    | append_singleton rest last =>
      refine ⟨last / first * (1 - params.costSide) * (1 - params.costSide), ?_, ?_⟩
      · simp [getLastD_eq_getLast?, getLast?_cons]
      · simp [compounded, getLastD_eq_getLast?, getLast?_cons]
        ring

end Prices

section Trades

variable {detectRegime : List ℚ → Regime} {result : BacktestResult}

theorem length_of_ok {series : List (Instant × ℚ)} {params : BacktestParams}
    {forecastFn : Option ForecastFn}
    (h : runBacktest detectRegime series params forecastFn = .ok result) :
    params.warmup + params.horizonSteps + 2 ≤ (series.map Prod.snd).length := by
  rw [runBacktest] at h
  split at h
  · cases h
  · omega

/-- The reported trades multiply to the equity, as the one of buy and hold does, exactly
when the strategy and the crossover never pay for entering. -/
theorem trades_account_iff (series : PriceSeries) (params : BacktestParams)
    (forecastFn : Option ForecastFn)
    (h : runBacktest detectRegime series.points params forecastFn = .ok result) :
    (AccountsFor (strategyOutcome params (forecastFn.getD defaultForecast) detectRegime
        series.values) ∧ AccountsFor (smaOutcome params series.values) ∧
      AccountsFor (buyAndHold params series.values)) ↔
    ((∀ t, params.warmup ≤ t → t < series.values.length - 1 →
        expectedAt params (forecastFn.getD defaultForecast) series.values t ≤
          params.entryThreshold) ∨ params.costSide = 0 ∨ params.costSide = 2 ∧
        Even (forecastOpenings params (forecastFn.getD defaultForecast) series.values)) ∧
    ((∀ t, params.warmup ≤ t → t < series.values.length - 1 → 50 ≤ t →
        smaAt series.values 20 t ≤ smaAt series.values 50 t) ∨ params.costSide = 0 ∨
      params.costSide = 2 ∧ Even (smaOpenings params series.values)) := by
  have hlong : params.warmup + 2 ≤ series.values.length := by
    have hneed := length_of_ok h
    rw [PriceSeries.values]
    omega
  have hhold := buyAndHold_accounts hlong
  rw [strategy_accounts_iff series.values_pos, sma_accounts_iff series.values_pos,
    and_iff_left hhold]

def levelPrices : PriceSeries where
  points := (List.range 64).map (fun day : ℕ ↦ ((day : Instant) * 86400000000, 100))
  positive := by
    intro point hpoint
    obtain ⟨day, -, rfl⟩ := mem_map.mp hpoint
    norm_num

def freeParams : BacktestParams := { feePct := 0, spreadPct := 0, slippagePct := 0 }

theorem free_trades_account : ∃ result,
    runBacktest (fun _ ↦ .unknown) levelPrices.points freeParams (some (fun _ _ ↦ 5)) =
        .ok result ∧
      AccountsFor (strategyOutcome freeParams (fun _ _ ↦ 5) (fun _ ↦ .unknown)
        levelPrices.values) := by
  have hfree : freeParams.costSide = 0 := by decide +kernel
  have hok : runBacktest (fun _ ↦ .unknown) levelPrices.points freeParams
    (some (fun _ _ ↦ 5)) = .ok _ := rfl
  refine ⟨_, hok, ?_⟩
  have haccount := trades_account_iff levelPrices freeParams (some (fun _ _ ↦ 5)) hok
  exact (haccount.mpr ⟨.inr (.inl hfree), .inr (.inl hfree)⟩).1

/-- One trade at a level price loses the cost of one side and the equity those of both. -/
theorem entering_is_not_counted : ∃ result,
    runBacktest (fun _ ↦ .unknown) levelPrices.points {} (some (fun _ _ ↦ 5)) = .ok result ∧
      ¬AccountsFor (strategyOutcome {} (fun _ _ ↦ 5) (fun _ ↦ .unknown) levelPrices.values) ∧
      AccountsFor (buyAndHold {} levelPrices.values) := by
  refine ⟨_, rfl, ?_, buyAndHold_accounts (by decide)⟩
  rw [strategyOutcome, accountsFor_outcome]
  decide +kernel

end Trades

section Holding

variable {params : BacktestParams} {forecast : ForecastFn} {detectRegime : List ℚ → Regime}
  {values : List ℚ} {entry exit t : ℕ}

theorem held_since (hwarm : params.warmup ≤ entry)
    (henter : strategyDecisionAt params forecast detectRegime values entry = .enter)
    (hafter : entry < t)
    (hheld : ∀ s, entry < s → s < t →
      strategyDecisionAt params forecast detectRegime values s ≠ .leave) :
    (strategyBefore params forecast detectRegime values t).account.position = true ∧
      (strategyBefore params forecast detectRegime values t).heldDays = t - entry := by
  induction t, hafter using Nat.le_induction with
  | base =>
    rw [strategyBefore_succ hwarm]
    have hdecision := henter
    rw [strategyDecisionAt] at hdecision
    simp [strategyStep, hdecision]
  | succ t hle ih =>
    obtain ⟨hposition, hdays⟩ := ih fun s hs hst ↦ hheld s hs (Nat.lt_succ_of_lt hst)
    have hstay : strategyDecisionAt params forecast detectRegime values t = .stay := by
      cases hdecision : strategyDecisionAt params forecast detectRegime values t with
      | stay => rfl
      | enter =>
        have hflat := (strategyDecision_enter_iff.mp hdecision).1
        rw [hposition] at hflat
        cases hflat
      | leave => exact absurd hdecision (hheld t hle (Nat.lt_succ_self t))
    rw [strategyDecisionAt, hposition, hdays] at hstay
    rw [strategyBefore_succ (by omega)]
    constructor
    · simp [strategyStep, hstay, hposition, hdays]
    · simp only [strategyStep, hposition, hdays, hstay, Account.position_stay]
      simp only [reduceCtorEq, if_false, if_true]
      omega

theorem min_holding
    (hleave : strategyDecisionAt params forecast detectRegime values exit = .leave) :
    ∃ entry, params.warmup ≤ entry ∧ entry < exit ∧
      strategyDecisionAt params forecast detectRegime values entry = .enter ∧
      (∀ s, entry < s → s < exit →
        strategyDecisionAt params forecast detectRegime values s = .stay) ∧
      params.minHoldingDays ≤ exit - entry := by
  obtain ⟨hposition, hmin⟩ := strategyDecision_leave hleave
  obtain ⟨entry, hwarm, hbefore, henter, hstay⟩ := strategy_run.entered_of_position hposition
  refine ⟨entry, hwarm, hbefore, henter, hstay, ?_⟩
  have hheld := held_since hwarm henter hbefore fun s hs hst ↦ by
    rw [hstay s hs hst]
    exact nofun
  rw [hheld.2] at hmin
  omega

end Holding

section Charges

def NetOfCosts (params : BacktestParams) (outcome : Outcome) (nTrades : ℕ) : Prop :=
  ∃ net gross, outcome.equity.getLast? = some net ∧ outcome.gross.getLast? = some gross ∧
    net = gross * (1 - params.costSide) ^ (2 * nTrades)

def Covers (outcome : Outcome) (window : List ℚ) : Prop :=
  outcome.equity.length = window.length ∧ outcome.gross.length = window.length

variable {params : BacktestParams} {detectRegime : List ℚ → Regime} {result : BacktestResult}

theorem netOfCosts_close {account : Account} (h : account.Charged params.costSide) :
    NetOfCosts params (account.close params.costSide).outcome
      (account.close params.costSide).trades.length :=
  ⟨_, _, Track.getLast?_points, Track.getLast?_points, h.close⟩

theorem covers_close {values : List ℚ} {ret : ℕ → ℚ} {decision : ℕ → Decision}
    {account : ℕ → Account} (hlong : params.warmup + 2 ≤ values.length)
    (run : TradingRun params.costSide params.warmup ret decision account) :
    Covers ((account (values.length - 1)).close params.costSide).outcome
      (values.drop params.warmup) := by
  have hlength := run.length_points (t := values.length - 1)
  have hwindow : values.length - 1 - params.warmup + 1 = (values.drop params.warmup).length := by
    rw [length_drop]
    omega
  rw [Covers, ← hwindow, Account.close]
  split
  · exact ⟨Track.length_setLast.trans hlength.1, hlength.2⟩
  · exact hlength

/-- Costs are charged on each side of each trade and nowhere else. -/
theorem net_eq_gross_after_costs (series : PriceSeries) (params : BacktestParams)
    (forecastFn : Option ForecastFn)
    (h : runBacktest detectRegime series.points params forecastFn = .ok result) :
    NetOfCosts params (strategyOutcome params (forecastFn.getD defaultForecast) detectRegime
        series.values) result.strategy.nTrades ∧
      NetOfCosts params (smaOutcome params series.values) result.smaCrossover.nTrades ∧
      Covers (strategyOutcome params (forecastFn.getD defaultForecast) detectRegime series.values)
        (series.values.drop params.warmup) ∧
      Covers (smaOutcome params series.values) (series.values.drop params.warmup) ∧
      ∀ exit, strategyDecisionAt params (forecastFn.getD defaultForecast) detectRegime
          series.values exit = .leave →
        ∃ entry, params.warmup ≤ entry ∧ entry < exit ∧
          strategyDecisionAt params (forecastFn.getD defaultForecast) detectRegime series.values
            entry = .enter ∧
          (∀ s, entry < s → s < exit →
            strategyDecisionAt params (forecastFn.getD defaultForecast) detectRegime series.values
              s = .stay) ∧
          params.minHoldingDays ≤ exit - entry := by
  have hlong : params.warmup + 2 ≤ series.values.length := by
    have hneed := length_of_ok h
    rw [PriceSeries.values]
    omega
  have hret : ∀ t, params.warmup ≤ t → t < series.values.length - 1 →
      0 < 1 + stepReturn series.values t := fun t _ ht ↦ stepReturn_pos series.values_pos ht
  rw [runBacktest] at h
  split at h
  · cases h
  · cases h
    exact ⟨netOfCosts_close (strategy_run.charged hret le_rfl),
      netOfCosts_close (sma_run.charged hret le_rfl), covers_close hlong strategy_run,
      covers_close hlong sma_run, fun exit hleave ↦ min_holding hleave⟩

theorem level_prices_charged : ∃ result,
    runBacktest (fun _ ↦ .unknown) levelPrices.points {} (some (fun _ _ ↦ 5)) = .ok result ∧
      result.strategy.nTrades = 1 ∧
      NetOfCosts {} (strategyOutcome {} (fun _ _ ↦ 5) (fun _ ↦ .unknown) levelPrices.values) 1 := by
  have hok : runBacktest (fun _ ↦ .unknown) levelPrices.points {} (some (fun _ _ ↦ 5)) =
    .ok _ := rfl
  have hnet := (net_eq_gross_after_costs levelPrices {} (some (fun _ _ ↦ 5)) hok).1
  have htrades : (strategyOutcome {} (fun _ _ ↦ 5) (fun _ ↦ .unknown)
    levelPrices.values).trades.length = 1 := by decide +kernel
  exact ⟨_, hok, htrades, htrades ▸ hnet⟩

def shortRise : PriceSeries where
  points := (List.range 64).map
    (fun day : ℕ ↦ ((day : Instant) * 86400000000, if day = 60 then 11 else if day = 61 then 1
      else 10))
  positive := by
    intro point hpoint
    obtain ⟨day, -, rfl⟩ := mem_map.mp hpoint
    split_ifs <;> norm_num

def patientParams : BacktestParams := { minHoldingDays := 5 }

/-- The crossover leaves a day after it entered. -/
theorem crossover_ignores_holding : ∃ result,
    runBacktest (fun _ ↦ .unknown) shortRise.points patientParams none = .ok result ∧
      smaDecisionAt patientParams shortRise.values 60 = .enter ∧
      smaDecisionAt patientParams shortRise.values 61 = .leave ∧
      ¬patientParams.minHoldingDays ≤ 61 - 60 :=
  ⟨_, rfl, by decide +kernel, by decide +kernel, by decide⟩

end Charges

section Agreement

variable {values values' : List ℚ} {s t : ℕ}

theorem take_agree (h : values.take (t + 1) = values'.take (t + 1)) (hs : s ≤ t) :
    values.take (s + 1) = values'.take (s + 1) := by
  have hmin : min (s + 1) (t + 1) = s + 1 := min_eq_left (Nat.succ_le_succ hs)
  rw [← hmin, ← take_take, h, take_take]

theorem getD_agree (h : values.take (t + 1) = values'.take (t + 1)) (hs : s ≤ t) :
    values.getD s 0 = values'.getD s 0 := by
  have hget := congrArg (fun l : List ℚ ↦ l[s]?) h
  simp only [getElem?_take_of_lt (Nat.lt_succ_of_le hs)] at hget
  rw [getD_eq_getElem?_getD, getD_eq_getElem?_getD, hget]

theorem stepReturn_agree (h : values.take (t + 1) = values'.take (t + 1)) (hs : s < t) :
    stepReturn values s = stepReturn values' s := by
  rw [stepReturn, stepReturn, getD_agree h hs, getD_agree h hs.le]

theorem smaAt_agree (h : values.take (t + 1) = values'.take (t + 1)) (hs : s ≤ t) (k : ℕ) :
    smaAt values k s = smaAt values' k s := by
  rw [smaAt, smaAt, take_agree h hs]

end Agreement

section Blindness

variable {params : BacktestParams} {forecast : ForecastFn} {detectRegime : List ℚ → Regime}
  {values values' : List ℚ} {s t : ℕ}

theorem strategyBefore_agree (h : values.take (t + 1) = values'.take (t + 1)) (hs : s ≤ t) :
    (strategyBefore params forecast detectRegime values s).account =
        (strategyBefore params forecast detectRegime values' s).account ∧
      (strategyBefore params forecast detectRegime values s).heldDays =
        (strategyBefore params forecast detectRegime values' s).heldDays := by
  refine indexLoop_rel (R := fun state state' : StrategyState ↦
    state.account = state'.account ∧ state.heldDays = state'.heldDays) ⟨rfl, rfl⟩ ?_ hs
  rintro state state' i - hi ⟨haccount, hdays⟩
  have hexpected : expectedAt params forecast values i = expectedAt params forecast values' i := by
    rw [expectedAt, expectedAt, take_agree h hi.le]
  simp only [strategyStep, hexpected, haccount, hdays, stepReturn_agree h hi, and_self]

theorem smaBefore_agree (h : values.take (t + 1) = values'.take (t + 1)) (hs : s ≤ t) :
    smaBefore params values s = smaBefore params values' s := by
  refine indexLoop_rel (R := Eq) rfl ?_ hs
  rintro account account' i - hi rfl
  rw [smaStep, smaStep, smaDecision, smaDecision, smaWant, smaWant, stepReturn_agree h hi,
    smaAt_agree h hi.le, smaAt_agree h hi.le]

theorem strategyDecisionAt_agree (h : values.take (t + 1) = values'.take (t + 1)) (hs : s ≤ t) :
    strategyDecisionAt params forecast detectRegime values s =
      strategyDecisionAt params forecast detectRegime values' s := by
  rw [strategyDecisionAt, strategyDecisionAt, (strategyBefore_agree h hs).1,
    (strategyBefore_agree h hs).2, expectedAt, expectedAt, take_agree h hs]

theorem smaDecisionAt_agree (h : values.take (t + 1) = values'.take (t + 1)) (hs : s ≤ t) :
    smaDecisionAt params values s = smaDecisionAt params values' s := by
  rw [smaDecisionAt, smaDecisionAt, smaBefore_agree h hs, smaDecision, smaDecision, smaWant,
    smaWant, smaAt_agree h hs, smaAt_agree h hs]

theorem position_agree {costSide ret ret' : ℚ} (account : Account) (decision : Decision) :
    (account.advance costSide ret decision).position =
      (account.advance costSide ret' decision).position := by
  cases decision <;> rfl

theorem strategy_position_agree (h : values.take (t + 1) = values'.take (t + 1)) (hs : s ≤ t) :
    (strategyBefore params forecast detectRegime values (s + 1)).account.position =
      (strategyBefore params forecast detectRegime values' (s + 1)).account.position := by
  rcases Nat.lt_or_ge s params.warmup with hwarm | hwarm
  · rw [strategy_run.start (s + 1) hwarm, strategy_run.start (s + 1) hwarm]
  · rw [strategy_run.step s hwarm, strategy_run.step s hwarm, strategyDecisionAt_agree h hs,
      (strategyBefore_agree h hs).1]
    exact position_agree _ _

theorem sma_position_agree (h : values.take (t + 1) = values'.take (t + 1)) (hs : s ≤ t) :
    (smaBefore params values (s + 1)).position = (smaBefore params values' (s + 1)).position := by
  rcases Nat.lt_or_ge s params.warmup with hwarm | hwarm
  · rw [sma_run.start (s + 1) hwarm, sma_run.start (s + 1) hwarm]
  · rw [sma_run.step s hwarm, sma_run.step s hwarm, smaDecisionAt_agree h hs, smaBefore_agree h hs]
    exact position_agree _ _

def SamePoints (warmup t : ℕ) (outcome outcome' : Outcome) : Prop :=
  outcome.equity.take (t + 1 - warmup) = outcome'.equity.take (t + 1 - warmup) ∧
    outcome.gross.take (t + 1 - warmup) = outcome'.gross.take (t + 1 - warmup)

theorem samePoints_close {warmup : ℕ} {costSide : ℚ} {ret ret' : ℕ → ℚ}
    {decision decision' : ℕ → Decision} {account account' : ℕ → Account} {n : ℕ}
    (run : TradingRun costSide warmup ret decision account)
    (run' : TradingRun costSide warmup ret' decision' account') (ht : t < n)
    (hsame : account t = account' t) :
    SamePoints warmup t ((account n).close costSide).outcome
      ((account' n).close costSide).outcome := by
  rcases Nat.lt_or_ge t warmup with hwarm | hwarm
  · rw [SamePoints, Nat.sub_eq_zero_of_le hwarm]
    simp
  · rw [SamePoints, Nat.sub_add_comm hwarm]
    obtain ⟨hequity, hgross⟩ := run.take_close hwarm ht
    obtain ⟨hequity', hgross'⟩ := run'.take_close hwarm ht
    exact ⟨hequity.trans (hsame ▸ hequity'.symm), hgross.trans (hsame ▸ hgross'.symm)⟩

/-- Nothing that is decided or earned up to an index depends on a later price. -/
theorem blind_to_future {series series' : List (Instant × ℚ)} (params : BacktestParams)
    (forecast : ForecastFn) (detectRegime : List ℚ → Regime)
    (hlength : series.length = series'.length)
    (h : (series.map Prod.snd).take (t + 1) = (series'.map Prod.snd).take (t + 1)) :
    (∀ s, s ≤ t →
      (strategyBefore params forecast detectRegime (series.map Prod.snd) (s + 1)).account.position =
        (strategyBefore params forecast detectRegime (series'.map Prod.snd)
          (s + 1)).account.position ∧
      strategyDecisionAt params forecast detectRegime (series.map Prod.snd) s =
        strategyDecisionAt params forecast detectRegime (series'.map Prod.snd) s ∧
      (smaBefore params (series.map Prod.snd) (s + 1)).position =
        (smaBefore params (series'.map Prod.snd) (s + 1)).position ∧
      smaDecisionAt params (series.map Prod.snd) s =
        smaDecisionAt params (series'.map Prod.snd) s) ∧
    SamePoints params.warmup t
      (strategyOutcome params forecast detectRegime (series.map Prod.snd))
      (strategyOutcome params forecast detectRegime (series'.map Prod.snd)) ∧
    SamePoints params.warmup t (smaOutcome params (series.map Prod.snd))
      (smaOutcome params (series'.map Prod.snd)) := by
  refine ⟨fun s hs ↦ ⟨strategy_position_agree h hs, strategyDecisionAt_agree h hs,
    sma_position_agree h hs, smaDecisionAt_agree h hs⟩, ?_⟩
  have hlengths : (series.map Prod.snd).length = (series'.map Prod.snd).length := by
    rw [length_map, length_map, hlength]
  rcases Nat.lt_or_ge t ((series.map Prod.snd).length - 1) with ht | ht
  · rw [strategyOutcome, strategyOutcome, smaOutcome, smaOutcome, ← hlengths]
    exact ⟨samePoints_close strategy_run strategy_run ht (strategyBefore_agree h le_rfl).1,
      samePoints_close sma_run sma_run ht (smaBefore_agree h le_rfl)⟩
  · rw [take_of_length_le (by omega), take_of_length_le (by omega)] at h
    rw [h]
    exact ⟨⟨rfl, rfl⟩, ⟨rfl, rfl⟩⟩

/-- The price of the last day is another one. -/
theorem another_last_price :
    SamePoints 60 62 (smaOutcome {} (shortRise.points.map Prod.snd))
      (smaOutcome {} ((shortRise.points.dropLast ++ [(0, 20)]).map Prod.snd)) :=
  (blind_to_future {} defaultForecast (fun _ ↦ .unknown) (by decide)
    (by decide)).2.2

end Blindness

end TalaPala.Backtest
