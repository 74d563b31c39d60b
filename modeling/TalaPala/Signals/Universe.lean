import Mathlib.Data.Finset.Card

namespace TalaPala.Signals

open List

def signalSymbols : List String :=
  ["IR_GOLD_18K", "USD_IRT", "IR_COIN_EMAMI", "XAUUSD", "XAGUSD", "IR_GOLD_FUND_AYAR",
    "IR_GOLD_FUND_TALA"]

def signalExcludedSources : List String := ["tsetmc_cdn"]

def fundSymbols : List String := ["IR_GOLD_FUND_AYAR", "IR_GOLD_FUND_TALA"]

def paritySymbols : List String := ["IR_GOLD_18K"]

def fundFlowSymbol : String := "IR_GOLD_FUND_FLOW"

/-- `FORECAST_SYMBOLS` of the trainer. -/
def forecastSymbols : List String := ["IR_GOLD_18K", "XAUUSD"]

/-- `SUPPORTED_SYMBOLS` of the trend-alignment job. -/
def alignmentSymbols : List String := ["IR_GOLD_18K", "XAUUSD"]

inductive FactorKey
  | forecast
  | premium
  | fundFlow
  | trendSma
  | maAlignment
  | rsi
  | momentum
  | volatility
  deriving DecidableEq

def FactorKey.all : List FactorKey :=
  [.forecast, .premium, .fundFlow, .trendSma, .maAlignment, .rsi, .momentum, .volatility]

def FactorKey.text : FactorKey → String
  | .forecast => "forecast_vs_cost"
  | .premium => "local_premium_z"
  | .fundFlow => "gold_fund_flow"
  | .trendSma => "trend_sma"
  | .maAlignment => "ma_alignment"
  | .rsi => "rsi14"
  | .momentum => "momentum_10"
  | .volatility => "volatility_regime"

structure FactorSpec where
  key : FactorKey
  label : String
  window : ℕ
  firstBar : ℕ
  directional : Bool := false

def FactorSpec.minBars (spec : FactorSpec) : ℕ := spec.firstBar + spec.window

def factorForecast : FactorSpec :=
  ⟨.forecast, "forecast edge vs round-trip cost", 0, 0, true⟩

def factorPremium : FactorSpec := ⟨.premium, "local premium z-score", 30, 30, false⟩

def factorFundFlow : FactorSpec := ⟨.fundFlow, "gold-fund retail flow", 30, 30, false⟩

def factorTrendSma : FactorSpec := ⟨.trendSma, "price vs SMA20/SMA50", 50, 50, true⟩

def factorMaAlignment : FactorSpec :=
  ⟨.maAlignment, "1D/4H/1H moving-average alignment", 220, 220, true⟩

def factorRsi : FactorSpec := ⟨.rsi, "RSI(14) zones", 14, 15, false⟩

def factorMomentum : FactorSpec := ⟨.momentum, "10-period momentum", 10, 11, false⟩

def factorVolatility : FactorSpec := ⟨.volatility, "volatility regime", 20, 25, false⟩

def universalFactors : List FactorSpec :=
  [factorTrendSma, factorRsi, factorMomentum, factorVolatility]

def minScoreableFactors : ℕ := 3

/-- `", ".join(sorted(names))`. -/
def joinSorted (names : List String) : String := ", ".intercalate (names.mergeSort (· ≤ ·))

structure Special where
  spec : FactorSpec
  carried : Bool
  reason : String

def specialFactors (symbol : String) : List Special :=
  [{ spec := factorForecast
     carried := forecastSymbols.contains symbol
     reason := s!"No forecasting model is trained for {symbol}: " ++
      s!"app.models.training.FORECAST_SYMBOLS covers {joinSorted forecastSymbols}. " ++
      "This reading is technical-only and carries no model evidence." },
    { spec := factorPremium
      carried := paritySymbols.contains symbol
      reason := "The local premium is measured against the 18k parity price (XAUUSD / troy " ++
        "ounce x USD_IRT x 0.750). No such theoretical price is defined for " ++
        s!"{symbol}, so it has no premium to be rich or cheap against." },
    { spec := factorFundFlow
      carried := fundSymbols.contains symbol
      reason := s!"{fundFlowSymbol} is the retail/institutional flow ratio of the Tehran " ++
        "gold ETFs. It describes who is trading those funds and says nothing about " ++
        s!"{symbol}." },
    { spec := factorMaAlignment
      carried := alignmentSymbols.contains symbol
      reason := "The 1D/4H/1H stack needs a 220-period slow MA on all three timeframes; " ++
        "app.jobs.trend_alignment.SUPPORTED_SYMBOLS covers " ++
        s!"{joinSorted alignmentSymbols} because only those have the continuous history for " ++
        "it." }]

structure Profile where
  symbol : String
  applicable : List FactorSpec
  inapplicable : List (FactorKey × String)

def Profile.keys (profile : Profile) : List FactorKey := profile.applicable.map FactorSpec.key

inductive SignalError
  | notEligible (symbol : String)
  | noMarketRisk (symbol : String)

def profileOf (symbol : String) : Profile where
  symbol := symbol
  applicable := universalFactors ++
    ((specialFactors symbol).filter Special.carried).map Special.spec
  inapplicable := ((specialFactors symbol).filter (!·.carried)).map
    (fun special ↦ (special.spec.key, special.reason))

def profileFor (symbol : String) : Except SignalError Profile :=
  if signalSymbols.contains symbol then .ok (profileOf symbol) else .error (.notEligible symbol)

def historyReason (symbol : String) (bars : ℕ) (spec : FactorSpec) : String :=
  s!"{spec.label} needs {spec.minBars} daily bars and {symbol} has {bars}." ++
    (if spec.window = 0 then ""
      else s!" ({spec.window}-bar window, first computable at {spec.firstBar} bars, plus a " ++
        s!"further {spec.window} so the window has moved before it is read as a trend.)")

def historyOmissions (profile : Profile) (bars : ℕ) :
    Finset FactorKey × List (FactorKey × String) :=
  (((profile.applicable.filter (·.minBars ≤ bars)).map FactorSpec.key).toFinset,
    (profile.applicable.filter (fun spec ↦ !decide (spec.minBars ≤ bars))).map
      (fun spec ↦ (spec.key, historyReason profile.symbol bars spec)))

def directionalFactors : Finset FactorKey := {.forecast, .trendSma, .maAlignment}

def withholdingReason (scored : Finset FactorKey) : Option String :=
  if scored ∩ directionalFactors = ∅ then
    some ("No directional factor could be computed: none of a model forecast, the SMA20/50 " ++
      "trend or the 1D/4H/1H alignment survived. The remaining factors all read the same " ++
      "recent fortnight, which is not enough to publish a buy/hold/sell.")
  else if scored.card < minScoreableFactors then
    let names := joinSorted ((FactorKey.all.filter (· ∈ scored)).map FactorKey.text)
    some (s!"Only {scored.card} factor(s) could be computed ({names}); at least " ++
      s!"{minScoreableFactors} are required to publish a buy/hold/sell.")
  else none

def marketRisk : List (String × String) :=
  [("IR_GOLD_18K",
      "Iranian gold prices are exposed to currency policy shocks and liquidity gaps."),
    ("USD_IRT",
      "The free-market rate is exposed to currency policy, sanctions news and " ++
        "administrative intervention, and this series is a 24/7 USDT/toman proxy rather " ++
        "than a cash-dollar quote."),
    ("IR_COIN_EMAMI",
      "The Emami coin trades at its own bazaar premium over its gold content, which moves " ++
        "on domestic demand independently of the metal."),
    ("XAUUSD",
      "This is the COMEX front-month future used as a spot proxy: it carries roll and " ++
        "contango effects and its own settlement calendar, and it is quoted in USD rather " ++
        "than toman."),
    ("XAGUSD",
      "Silver is materially more volatile than gold and carries a large industrial-demand " ++
        "component; this is the COMEX front-month future used as a spot proxy, quoted in " ++
        "USD rather than toman."),
    ("IR_GOLD_FUND_AYAR",
      "Fund units trade only in the Tehran session and are subject to price limits and " ++
        "trading halts; the unit price can deviate from the gold the fund holds."),
    ("IR_GOLD_FUND_TALA",
      "Fund units trade only in the Tehran session and are subject to price limits and " ++
        "trading halts; the unit price can deviate from the gold the fund holds.")]

section Profiles

variable {symbol : String} {bars : ℕ}

theorem FactorKey.mem_all (k : FactorKey) : k ∈ FactorKey.all := by
  cases k <;> decide

theorem marketRisk_eligible (h : symbol ∈ signalSymbols) :
    ∃ risk, marketRisk.lookup symbol = some risk := by
  revert symbol
  simp only [← Option.isSome_iff_exists]
  decide

theorem profileFor_eligible (h : symbol ∈ signalSymbols) :
    profileFor symbol = .ok (profileOf symbol) :=
  if_pos (contains_iff_mem.mpr h)

theorem profileOf_perm (symbol : String) :
    ((profileOf symbol).keys ++ (profileOf symbol).inapplicable.map Prod.fst).Perm
      (universalFactors.map FactorSpec.key ++
        [factorForecast.key, factorPremium.key, factorFundFlow.key, factorMaAlignment.key]) := by
  have hspecial := (filter_append_perm Special.carried (specialFactors symbol)).map
    (fun special ↦ special.spec.key)
  have hkeys : (specialFactors symbol).map (fun special ↦ special.spec.key) =
      [factorForecast.key, factorPremium.key, factorFundFlow.key, factorMaAlignment.key] := rfl
  rw [hkeys, map_append] at hspecial
  rw [Profile.keys, profileOf, map_append, map_map, map_map, append_assoc]
  exact hspecial.append_left _

theorem profileOf_nodup (symbol : String) :
    ((profileOf symbol).keys ++ (profileOf symbol).inapplicable.map Prod.fst).Nodup :=
  (profileOf_perm symbol).nodup_iff.mpr (by decide)

theorem mem_profileOf (symbol : String) (k : FactorKey) :
    k ∈ (profileOf symbol).keys ∨ k ∈ (profileOf symbol).inapplicable.map Prod.fst := by
  rw [← mem_append, (profileOf_perm symbol).mem_iff]
  cases k <;> decide

theorem mem_applicable {spec : FactorSpec} (h : spec ∈ (profileOf symbol).applicable) :
    spec ∈ universalFactors ++
      [factorForecast, factorPremium, factorFundFlow, factorMaAlignment] := by
  rcases mem_append.mp h with h | h
  · exact mem_append_left _ h
  · obtain ⟨special, hspecial, rfl⟩ := mem_map.mp h
    have hin := mem_map_of_mem (f := Special.spec) (mem_of_mem_filter hspecial)
    exact mem_append_right _ hin

theorem directional_iff {spec : FactorSpec} (h : spec ∈ (profileOf symbol).applicable) :
    spec.directional = true ↔ spec.key ∈ directionalFactors := by
  have hspec := mem_applicable h
  clear h
  revert spec
  decide

theorem eq_forecast_of_minBars {spec : FactorSpec} (h : spec ∈ (profileOf symbol).applicable)
    (hbars : spec.minBars ≤ 0) : spec.key = .forecast := by
  have hspec := mem_applicable h
  clear h
  revert hbars
  revert spec
  decide

def unreadFactors (symbol : String) (bars : ℕ) : List (FactorKey × String) :=
  (historyOmissions (profileOf symbol) bars).2 ++ (profileOf symbol).inapplicable

theorem mem_supported {k : FactorKey} : k ∈ (historyOmissions (profileOf symbol) bars).1 ↔
    ∃ spec ∈ (profileOf symbol).applicable, spec.minBars ≤ bars ∧ spec.key = k := by
  simp [historyOmissions, and_assoc]

theorem supported_append_unread :
    ((((profileOf symbol).applicable.filter (·.minBars ≤ bars)).map FactorSpec.key) ++
      (unreadFactors symbol bars).map Prod.fst).Nodup ∧
    ∀ k, k ∈ (((profileOf symbol).applicable.filter (·.minBars ≤ bars)).map FactorSpec.key) ++
      (unreadFactors symbol bars).map Prod.fst := by
  have hsplit := (filter_append_perm (fun spec : FactorSpec ↦ decide (spec.minBars ≤ bars))
    (profileOf symbol).applicable).map FactorSpec.key
  have hnames : (unreadFactors symbol bars).map Prod.fst =
      ((profileOf symbol).applicable.filter (fun spec ↦ !decide (spec.minBars ≤ bars))).map
        FactorSpec.key ++ (profileOf symbol).inapplicable.map Prod.fst := by
    rw [unreadFactors, historyOmissions, map_append, map_map]
    rfl
  rw [map_append] at hsplit
  have hall := hsplit.append_right ((profileOf symbol).inapplicable.map Prod.fst)
  rw [append_assoc, ← hnames] at hall
  refine ⟨hall.nodup_iff.mpr (profileOf_nodup symbol), fun k ↦ hall.mem_iff.mpr ?_⟩
  exact mem_append.mpr (mem_profileOf symbol k)

theorem mem_unread {k : FactorKey} : k ∈ (unreadFactors symbol bars).map Prod.fst ↔
    k ∉ (historyOmissions (profileOf symbol) bars).1 := by
  obtain ⟨hnodup, hall⟩ := @supported_append_unread symbol bars
  have hsupported : k ∈ (historyOmissions (profileOf symbol) bars).1 ↔
      k ∈ ((profileOf symbol).applicable.filter (·.minBars ≤ bars)).map FactorSpec.key :=
    mem_toFinset
  rw [hsupported]
  constructor
  · exact fun hunread hread ↦ disjoint_of_nodup_append hnodup hread hunread
  · exact fun hread ↦ (mem_append.mp (hall k)).resolve_left hread

theorem withholdingReason_eq_none {scored : Finset FactorKey} :
    withholdingReason scored = none ↔
      minScoreableFactors ≤ scored.card ∧ ∃ k ∈ scored, k ∈ directionalFactors := by
  have hmeet : scored ∩ directionalFactors = ∅ ↔ ¬ ∃ k ∈ scored, k ∈ directionalFactors := by
    simp [Finset.eq_empty_iff_forall_notMem]
  simp only [withholdingReason, hmeet]
  split_ifs <;> simp <;> grind

end Profiles

section Reasons

theorem historyReason_ne_empty (symbol : String) (bars : ℕ) (spec : FactorSpec) :
    historyReason symbol bars spec ≠ "" := by
  simp [historyReason]

theorem inapplicable_ne_empty {symbol : String} :
    ∀ o ∈ (profileOf symbol).inapplicable, o.2 ≠ "" := by
  intro o ho
  obtain ⟨special, hspecial, rfl⟩ := mem_map.mp ho
  have hin := mem_of_mem_filter hspecial
  simp only [specialFactors, mem_cons, not_mem_nil, or_false] at hin
  rcases hin with rfl | rfl | rfl | rfl <;> simp

end Reasons

end TalaPala.Signals
