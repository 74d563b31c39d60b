import TalaPala.Library.Strings
import TalaPala.Liquidity.KnownBand

namespace TalaPala.Portfolio

open Library Economic Liquidity.Float64

structure Tx where
  type : Text
  grams : Value
  karat : ℤ
  pricePerGram : Value
  fees : Value
  currency : Text

structure TxRequest where
  txType : Text
  grams : Value
  karat : ℤ
  pricePerGram : Value
  currency : Text
  fees : Value
  txDate : Text
  notes : Text

def validKarat (k : ℤ) : Bool := k = 18 || k = 21 || k = 22 || k = 24

def maxNotes : ℕ := 1000

/-- The problems of a payload by its fields, none when it is accepted. -/
def validateTxRequest (t : TxRequest) : List (String × String) :=
  (if t.txType ≠ "buy".toList ∧ t.txType ≠ "sell".toList
    then [("tx_type", "must be buy or sell")] else []) ++
  (if le t.grams (.finite 0) then [("grams", "must be positive")] else []) ++
  (if !validKarat t.karat then [("karat", "must be one of 18, 21, 22, 24")] else []) ++
  (if le t.pricePerGram (.finite 0) then [("price_per_gram", "must be positive")] else []) ++
  (if t.currency ≠ "IRT".toList ∧ t.currency ≠ "IRR".toList
    then [("currency", "must be IRT or IRR")] else []) ++
  (if lt t.fees (.finite 0) then [("fees", "must be non-negative")] else []) ++
  (if parseDate t.txDate = none then [("tx_date", "must be YYYY-MM-DD")] else []) ++
  (if maxNotes < byteLength t.notes then [("notes", "too long (max 1000 chars)")] else [])

def normalizeTxRequest (letters : Letters) (t : TxRequest) : TxRequest :=
  let currency := (trimSpace t.currency).map letters.toUpper
  { t with
    txType := (trimSpace t.txType).map letters.toLower
    currency := if currency = [] then "IRT".toList else currency
    karat := if t.karat = 0 then 18 else t.karat
    notes := trimSpace t.notes }

structure Accepted (t : TxRequest) : Prop where
  txType : t.txType = "buy".toList ∨ t.txType = "sell".toList
  grams : le t.grams (.finite 0) = false
  karat : validKarat t.karat = true
  pricePerGram : le t.pricePerGram (.finite 0) = false
  currency : t.currency = "IRT".toList ∨ t.currency = "IRR".toList
  fees : lt t.fees (.finite 0) = false
  txDate : parseDate t.txDate ≠ none
  notes : byteLength t.notes ≤ maxNotes

theorem validateTxRequest_eq_nil_iff {t : TxRequest} : validateTxRequest t = [] ↔ Accepted t := by
  have hif {p : Prop} [Decidable p] {x : String × String} :
      (if p then [x] else []) = [] ↔ ¬p := by
    split_ifs with h <;> simp [h]
  simp only [validateTxRequest, List.append_eq_nil_iff, hif]
  constructor
  · rintro ⟨⟨⟨⟨⟨⟨⟨htype, hgrams⟩, hkarat⟩, hprice⟩, hcurrency⟩, hfees⟩, hdate⟩, hnotes⟩
    exact ⟨by tauto, by simpa using hgrams, by simpa using hkarat, by simpa using hprice,
      by tauto, by simpa using hfees, hdate, not_lt.mp hnotes⟩
  · rintro ⟨htype, hgrams, hkarat, hprice, hcurrency, hfees, hdate, hnotes⟩
    exact ⟨⟨⟨⟨⟨⟨⟨by tauto, by simp [hgrams]⟩, by simp [hkarat]⟩, by simp [hprice]⟩, by tauto⟩,
      by simp [hfees]⟩, hdate⟩, not_lt.mpr hnotes⟩

/-! Floats are exact here where they are finite, with the special values beside them. -/

def scenarioChanges : List ℚ := [-20, -10, -5, 5, 10, 20]

structure Scenario where
  changePct : Value
  value : Value
  pnl : Value

structure Summary where
  totalGrams18kEquivalent : Value
  invested : Value
  currentValue : Value
  unrealizedPnL : Value
  pnlPct : Option Value
  avgPrice : Option Value
  breakEvenPrice : Option Value
  scenarios : List Scenario
  targetPriceForProfitPct : Option Value
  targetProfitPct : Value

def toIRT (amount : Value) (currency : Text) : Value :=
  if currency = "IRR".toList then div amount (.finite 10) else amount

def grams18k (grams : Value) (karat : ℤ) : Value :=
  div (mul grams (.finite karat)) (.finite 18)

/-- `math.Round`, halves away from zero. -/
def round : Value → Value
  | .finite q => .finite (if q < 0 then -(1 / 2 - q).floor else (q + 1 / 2).floor)
  | v => v

def roundTo (scale : ℚ) (v : Value) : Value := div (round (mul v (.finite scale))) (.finite scale)

def round2 : Value → Value := roundTo (10 ^ 2)

def round4 : Value → Value := roundTo (10 ^ 4)

def round6 : Value → Value := roundTo (10 ^ 6)

/-- The sums that `Compute` carries over the transactions. -/
structure Totals where
  grams18k : Value
  invested : Value
  buyCostGross : Value
  boughtGrams18 : Value

def Totals.step (s : Totals) (t : Tx) : Totals :=
  let g18 := Portfolio.grams18k t.grams t.karat
  let price := toIRT t.pricePerGram t.currency
  let fees := toIRT t.fees t.currency
  let gross := mul t.grams price
  if t.type = "sell".toList then
    { s with grams18k := sub s.grams18k g18, invested := sub s.invested (sub gross fees) }
  else
    ⟨add s.grams18k g18, add s.invested (add gross fees), add s.buyCostGross gross,
      add s.boughtGrams18 g18⟩

def totals (txs : List Tx) : Totals :=
  txs.foldl Totals.step ⟨.finite 0, .finite 0, .finite 0, .finite 0⟩

def compute (txs : List Tx) (current18kPrice targetProfitPct : Value) : Summary :=
  let s := totals txs
  let currentValue := round2 (mul s.grams18k current18kPrice)
  let unrealizedPnL := round2 (sub currentValue s.invested)
  let raised (pct : Value) : Value := add (.finite 1) (div pct (.finite 100))
  { totalGrams18kEquivalent := round6 s.grams18k
    invested := round2 s.invested
    currentValue := currentValue
    unrealizedPnL := unrealizedPnL
    pnlPct :=
      if lt (.finite 0) s.invested then
        some (round4 (mul (div unrealizedPnL s.invested) (.finite 100)))
      else none
    avgPrice :=
      if lt (.finite 0) s.boughtGrams18 then some (round2 (div s.buyCostGross s.boughtGrams18))
      else none
    breakEvenPrice :=
      if lt (.finite (1 / 10 ^ 12)) s.grams18k then some (round2 (div s.invested s.grams18k))
      else none
    scenarios := scenarioChanges.map (fun ch ↦
      let v := mul currentValue (raised (.finite ch))
      ⟨.finite ch, round2 v, round2 (sub v s.invested)⟩)
    targetPriceForProfitPct :=
      if lt (.finite (1 / 10 ^ 12)) s.grams18k then
        some (round2 (div (mul s.invested (raised targetProfitPct)) s.grams18k))
      else none
    targetProfitPct := targetProfitPct }

section Finite

def IsFinite (v : Value) : Prop := ∃ q, v = .finite q

theorem isFinite_finite (q : ℚ) : IsFinite (.finite q) := ⟨q, rfl⟩

variable {v w : Value}

theorem IsFinite.add (hv : IsFinite v) (hw : IsFinite w) : IsFinite (add v w) := by
  obtain ⟨x, rfl⟩ := hv
  obtain ⟨y, rfl⟩ := hw
  exact ⟨x + y, rfl⟩

theorem IsFinite.sub (hv : IsFinite v) (hw : IsFinite w) : IsFinite (sub v w) := by
  obtain ⟨x, rfl⟩ := hv
  obtain ⟨y, rfl⟩ := hw
  exact ⟨x + -y, rfl⟩

theorem IsFinite.mul (hv : IsFinite v) (hw : IsFinite w) : IsFinite (mul v w) := by
  obtain ⟨x, rfl⟩ := hv
  obtain ⟨y, rfl⟩ := hw
  exact ⟨x * y, rfl⟩

theorem IsFinite.div (hv : IsFinite v) {y : ℚ} (hy : y ≠ 0) :
    IsFinite (div v (.finite y)) := by
  obtain ⟨x, rfl⟩ := hv
  exact ⟨x / y, if_pos hy⟩

theorem IsFinite.div_of_lt (hv : IsFinite v) (hw : IsFinite w) {b : ℚ} (hb : 0 ≤ b)
    (hlt : lt (.finite b) w = true) : IsFinite (Liquidity.Float64.div v w) := by
  obtain ⟨y, rfl⟩ := hw
  have hpos : b < y := of_decide_eq_true hlt
  exact hv.div (hb.trans_lt hpos).ne'

theorem IsFinite.toIRT (hv : IsFinite v) (currency : Text) : IsFinite (toIRT v currency) := by
  rw [Portfolio.toIRT]
  split
  · exact hv.div (by norm_num)
  · exact hv

theorem IsFinite.roundTo (hv : IsFinite v) {scale : ℚ} (h : scale ≠ 0) :
    IsFinite (roundTo scale v) := by
  obtain ⟨x, hx⟩ := hv.mul (isFinite_finite scale)
  rw [Portfolio.roundTo, hx]
  exact (isFinite_finite _).div h

theorem IsFinite.round2 (hv : IsFinite v) : IsFinite (round2 v) := hv.roundTo (by norm_num)

theorem isFinite_of_mem_ite {c : Bool} (h : c = true → IsFinite v) :
    ∀ w ∈ if c then some v else none, IsFinite w := by
  cases c with
  | false => rintro w ⟨⟩
  | true =>
    rintro w ⟨⟩
    exact h rfl

structure Tx.Finite (t : Tx) : Prop where
  grams : IsFinite t.grams
  pricePerGram : IsFinite t.pricePerGram
  fees : IsFinite t.fees

structure Totals.Finite (s : Totals) : Prop where
  grams18k : IsFinite s.grams18k
  invested : IsFinite s.invested
  buyCostGross : IsFinite s.buyCostGross
  boughtGrams18 : IsFinite s.boughtGrams18

theorem Totals.Finite.step {s : Totals} (hs : s.Finite) {t : Tx} (ht : t.Finite) :
    (s.step t).Finite := by
  have hg18 : IsFinite (Portfolio.grams18k t.grams t.karat) :=
    (ht.grams.mul (isFinite_finite _)).div (by norm_num)
  have hgross := ht.grams.mul (ht.pricePerGram.toIRT t.currency)
  have hfees := ht.fees.toIRT t.currency
  rw [Totals.step]
  split
  · exact ⟨hs.grams18k.sub hg18, hs.invested.sub (hgross.sub hfees), hs.buyCostGross,
      hs.boughtGrams18⟩
  · exact ⟨hs.grams18k.add hg18, hs.invested.add (hgross.add hfees), hs.buyCostGross.add hgross,
      hs.boughtGrams18.add hg18⟩

theorem totals_finite {txs : List Tx} (h : ∀ t ∈ txs, t.Finite) : (totals txs).Finite := by
  have hrun (s : Totals) (hs : s.Finite) : (txs.foldl Totals.step s).Finite := by
    induction txs generalizing s with
    | nil => exact hs
    | cons t txs ih =>
      exact ih (fun t' ht' ↦ h t' (List.mem_cons_of_mem _ ht')) _
        (hs.step (h t List.mem_cons_self))
  exact hrun _ ⟨⟨0, rfl⟩, ⟨0, rfl⟩, ⟨0, rfl⟩, ⟨0, rfl⟩⟩

structure Summary.Finite (s : Summary) : Prop where
  totalGrams18kEquivalent : IsFinite s.totalGrams18kEquivalent
  invested : IsFinite s.invested
  currentValue : IsFinite s.currentValue
  unrealizedPnL : IsFinite s.unrealizedPnL
  pnlPct : ∀ v ∈ s.pnlPct, IsFinite v
  avgPrice : ∀ v ∈ s.avgPrice, IsFinite v
  breakEvenPrice : ∀ v ∈ s.breakEvenPrice, IsFinite v
  scenarios : ∀ x ∈ s.scenarios, IsFinite x.changePct ∧ IsFinite x.value ∧ IsFinite x.pnl
  targetPriceForProfitPct : ∀ v ∈ s.targetPriceForProfitPct, IsFinite v
  targetProfitPct : IsFinite s.targetProfitPct

theorem compute_finite {txs : List Tx} (h : ∀ t ∈ txs, t.Finite) {price target : Value}
    (hprice : IsFinite price) (htarget : IsFinite target) :
    (compute txs price target).Finite := by
  obtain ⟨hgrams, hinvested, hcost, hbought⟩ := totals_finite h
  have hcurrent := (hgrams.mul hprice).round2
  have hpnl := (hcurrent.sub hinvested).round2
  have hraised {pct : Value} (hpct : IsFinite pct) :=
    (isFinite_finite 1).add (hpct.div (y := 100) (by norm_num))
  refine ⟨hgrams.roundTo (by norm_num), hinvested.round2, hcurrent, hpnl,
    isFinite_of_mem_ite fun hlt ↦ ?_, isFinite_of_mem_ite fun hlt ↦ ?_,
    isFinite_of_mem_ite fun hlt ↦ ?_, fun x hx ↦ ?_, isFinite_of_mem_ite fun hlt ↦ ?_, htarget⟩
  · exact ((hpnl.div_of_lt hinvested le_rfl hlt).mul (isFinite_finite 100)).roundTo (by norm_num)
  · exact (hcost.div_of_lt hbought le_rfl hlt).round2
  · exact (hinvested.div_of_lt hgrams (by norm_num) hlt).round2
  · obtain ⟨ch, -, rfl⟩ := List.mem_map.mp hx
    have hvalue := hcurrent.mul (hraised (isFinite_finite ch))
    exact ⟨isFinite_finite ch, hvalue.round2, (hvalue.sub hinvested).round2⟩
  · exact ((hinvested.mul (hraised htarget)).div_of_lt hgrams (by norm_num) hlt).round2

end Finite

end TalaPala.Portfolio
