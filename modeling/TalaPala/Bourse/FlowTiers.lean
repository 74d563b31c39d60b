import TalaPala.Clock
import TalaPala.Library.Ledger
import Mathlib.Data.Rat.Floor

namespace TalaPala.Bourse

open Library

def identityTolerance : ℚ := 1 / 1000

def barTolerance : ℚ := 1 / 100

def minFlowCoverage : ℚ := 9 / 10

/-- Half away from zero, as Go's `math.Round`. -/
def mathRound (v : ℚ) : ℚ := if 0 ≤ v then round v else -round (-v)

def fp (v : ℚ) : ℚ := mathRound (v * 10 ^ 6) / 10 ^ 6

theorem abs_mathRound_sub_le (v : ℚ) : |mathRound v - v| ≤ 1 / 2 := by
  rw [mathRound]
  split
  · rw [abs_sub_comm]
    exact abs_sub_round v
  · have hneg : -((round (-v) : ℤ) : ℚ) - v = -v - (round (-v) : ℤ) := by ring
    rw [hneg]
    exact abs_sub_round (-v)

theorem abs_fp_sub_le (v : ℚ) : |fp v - v| ≤ 1 / 2 / 10 ^ 6 := by
  have h := abs_mathRound_sub_le (v * 10 ^ 6)
  have hsplit : fp v - v = (mathRound (v * 10 ^ 6) - v * 10 ^ 6) / 10 ^ 6 := by
    rw [fp]
    ring
  rw [hsplit, abs_div, abs_of_pos (show (0 : ℚ) < 10 ^ 6 by norm_num)]
  exact div_le_div_of_nonneg_right h (by norm_num)

structure FlowSession where
  day : Instant
  buyICount : ℤ
  sellICount : ℤ
  buyIVolume : ℚ
  buyNVolume : ℚ
  sellIVolume : ℚ
  sellNVolume : ℚ
  buyIValue : ℚ
  buyNValue : ℚ
  sellIValue : ℚ
  sellNValue : ℚ
  barValue : Option ℚ

def FlowSession.buy (f : FlowSession) : ℚ := f.buyIValue + f.buyNValue

def FlowSession.sell (f : FlowSession) : ℚ := f.sellIValue + f.sellNValue

def FlowSession.buyVolume (f : FlowSession) : ℚ := f.buyIVolume + f.buyNVolume

def FlowSession.sellVolume (f : FlowSession) : ℚ := f.sellIVolume + f.sellNVolume

inductive FlowTier
  | noTrade
  | excluded
  | identityOnly
  | barChecked
  deriving DecidableEq

def FlowTier.accepted (t : FlowTier) : Bool := t = .barChecked ∨ t = .identityOnly

inductive ValueReference
  | sessionStatement
  | dailyBar

inductive TierReason
  | noTradedValue
  | valuesDisagree (buy sell : ℚ)
  | noTradedVolume
  | volumesDisagree (buy sell : ℚ)
  | referenceDisagrees (buy : ℚ) (what : ValueReference) (value : ℚ)

def checkReferences (buy : ℚ) :
    List (ValueReference × Option ℚ) → Bool → FlowTier × Option TierReason
  | [], true => (.barChecked, none)
  | [], false => (.identityOnly, none)
  | (_, none) :: rest, checked => checkReferences buy rest checked
  | (what, some value) :: rest, _ =>
    if value ≤ 0 ∨ |buy / value - 1| > barTolerance then
      (.excluded, some (.referenceDisagrees buy what value))
    else checkReferences buy rest true

def classifyFlow (f : FlowSession) (sessionValue : Option ℚ) : FlowTier × Option TierReason :=
  if f.buy ≤ 0 ∧ f.sell ≤ 0 then (.noTrade, some .noTradedValue)
  else if |f.buy - f.sell| > identityTolerance * max f.buy f.sell then
    (.excluded, some (.valuesDisagree f.buy f.sell))
  else if f.buyVolume ≤ 0 ∧ f.sellVolume ≤ 0 then (.excluded, some .noTradedVolume)
  else if |f.buyVolume - f.sellVolume| > identityTolerance * max f.buyVolume f.sellVolume then
    (.excluded, some (.volumesDisagree f.buyVolume f.sellVolume))
  else checkReferences f.buy [(.sessionStatement, sessionValue), (.dailyBar, f.barValue)] false

theorem buy_pos_of_accepted {f : FlowSession} {sessionValue : Option ℚ}
    (h : (classifyFlow f sessionValue).1.accepted = true) : 0 < f.buy := by
  rw [classifyFlow] at h
  split at h
  · cases h
  · rename_i hsome
    split at h
    · cases h
    · rename_i hagree
      by_contra hbuy
      have hsell : 0 < f.sell := by
        by_contra hsell
        exact hsome ⟨not_lt.mp hbuy, not_lt.mp hsell⟩
      have hmax : max f.buy f.sell = f.sell := max_eq_right ((not_lt.mp hbuy).trans hsell.le)
      have habs : |f.buy - f.sell| = f.sell - f.buy := by
        rw [abs_sub_comm]
        exact abs_of_nonneg (by linarith [not_lt.mp hbuy])
      rw [hmax, habs, identityTolerance] at hagree
      linarith [not_lt.mp hagree, not_lt.mp hbuy]

@[ext] structure FlowAcc where
  rows : ℕ
  barChecked : ℕ
  identityOnly : ℕ
  excluded : ℕ
  noTrade : ℕ
  inflowRows : ℕ
  outflowRows : ℕ
  net : ℚ
  value : ℚ
  sellValue : ℚ
  buyI : ℚ
  sellI : ℚ
  powerBuyI : ℚ
  powerSellI : ℚ
  buyICount : ℤ
  sellICount : ℤ
  listing : ℕ
  deriving DecidableEq

namespace FlowAcc

def empty : FlowAcc := ⟨0, 0, 0, 0, 0, 0, 0, 0, 0, 0, 0, 0, 0, 0, 0, 0, 0⟩

def count (a : FlowAcc) : FlowTier → FlowAcc
  | .noTrade => { a with rows := a.rows + 1, noTrade := a.noTrade + 1 }
  | .excluded => { a with rows := a.rows + 1, excluded := a.excluded + 1 }
  | .barChecked => { a with rows := a.rows + 1, barChecked := a.barChecked + 1 }
  | .identityOnly => { a with rows := a.rows + 1, identityOnly := a.identityOnly + 1 }

def add (a : FlowAcc) (f : FlowSession) (tier : FlowTier) (listing : Bool) : FlowAcc :=
  let a := a.count tier
  if tier.accepted then
    let n := f.buyIValue - f.sellIValue
    let a := { a with
      net := a.net + n
      inflowRows := a.inflowRows + if n > 0 then 1 else 0
      outflowRows := a.outflowRows + if n < 0 then 1 else 0
      value := a.value + f.buy
      sellValue := a.sellValue + f.sell
      buyI := a.buyI + f.buyIValue
      sellI := a.sellI + f.sellIValue }
    if listing then { a with listing := a.listing + 1 }
    else { a with
      powerBuyI := a.powerBuyI + f.buyIValue
      powerSellI := a.powerSellI + f.sellIValue
      buyICount := a.buyICount + f.buyICount
      sellICount := a.sellICount + f.sellICount }
  else a

def merge (a b : FlowAcc) : FlowAcc where
  rows := a.rows + b.rows
  barChecked := a.barChecked + b.barChecked
  identityOnly := a.identityOnly + b.identityOnly
  excluded := a.excluded + b.excluded
  noTrade := a.noTrade + b.noTrade
  inflowRows := a.inflowRows + b.inflowRows
  outflowRows := a.outflowRows + b.outflowRows
  net := a.net + b.net
  value := a.value + b.value
  sellValue := a.sellValue + b.sellValue
  buyI := a.buyI + b.buyI
  sellI := a.sellI + b.sellI
  powerBuyI := a.powerBuyI + b.powerBuyI
  powerSellI := a.powerSellI + b.powerSellI
  buyICount := a.buyICount + b.buyICount
  sellICount := a.sellICount + b.sellICount
  listing := a.listing + b.listing

def consistent (a : FlowAcc) : ℕ := a.barChecked + a.identityOnly

theorem merge_assoc (a b c : FlowAcc) : (a.merge b).merge c = a.merge (b.merge c) := by
  simp only [merge, add_assoc]

theorem merge_comm (a b : FlowAcc) : a.merge b = b.merge a := by
  rw [merge, merge]
  ext <;> exact add_comm _ _

theorem empty_merge (a : FlowAcc) : empty.merge a = a := by simp only [merge, empty, zero_add]

theorem merge_empty (a : FlowAcc) : a.merge empty = a := by rw [merge_comm, empty_merge]

instance : Add FlowAcc := ⟨merge⟩

instance : Zero FlowAcc := ⟨empty⟩

instance : AddCommMonoid FlowAcc where
  add_assoc := merge_assoc
  zero_add := empty_merge
  add_zero := merge_empty
  add_comm := merge_comm
  nsmul := nsmulRec

theorem merge_eq_add (a b : FlowAcc) : a.merge b = a + b := rfl

theorem empty_eq_zero : empty = 0 := rfl

def ofRow (f : FlowSession) (tier : FlowTier) (listing : Bool) : FlowAcc :=
  empty.add f tier listing

theorem add_eq (a : FlowAcc) (f : FlowSession) (tier : FlowTier) (listing : Bool) :
    a.add f tier listing = a + ofRow f tier listing := by
  rw [← merge_eq_add]
  cases tier <;> cases listing <;> ext <;> simp [ofRow, add, count, merge, empty, FlowTier.accepted]

@[simp] theorem rows_add (a b : FlowAcc) : (a + b).rows = a.rows + b.rows := rfl
@[simp] theorem barChecked_add (a b : FlowAcc) :
    (a + b).barChecked = a.barChecked + b.barChecked := rfl
@[simp] theorem identityOnly_add (a b : FlowAcc) :
    (a + b).identityOnly = a.identityOnly + b.identityOnly := rfl
@[simp] theorem excluded_add (a b : FlowAcc) : (a + b).excluded = a.excluded + b.excluded := rfl
@[simp] theorem noTrade_add (a b : FlowAcc) : (a + b).noTrade = a.noTrade + b.noTrade := rfl
@[simp] theorem inflowRows_add (a b : FlowAcc) :
    (a + b).inflowRows = a.inflowRows + b.inflowRows := rfl
@[simp] theorem outflowRows_add (a b : FlowAcc) :
    (a + b).outflowRows = a.outflowRows + b.outflowRows := rfl
@[simp] theorem net_add (a b : FlowAcc) : (a + b).net = a.net + b.net := rfl
@[simp] theorem value_add (a b : FlowAcc) : (a + b).value = a.value + b.value := rfl
@[simp] theorem listing_add (a b : FlowAcc) : (a + b).listing = a.listing + b.listing := rfl

theorem consistent_add (a b : FlowAcc) : (a + b).consistent = a.consistent + b.consistent :=
  add_add_add_comm _ _ _ _

structure Sound (a : FlowAcc) : Prop where
  idle : a.consistent = 0 →
    a.net = 0 ∧ a.value = 0 ∧ a.inflowRows = 0 ∧ a.outflowRows = 0 ∧ a.listing = 0
  traded : a.consistent ≠ 0 → 0 < a.value

theorem Sound.zero : Sound 0 where
  idle _ := ⟨rfl, rfl, rfl, rfl, rfl⟩
  traded h := absurd rfl h

theorem Sound.value_nonneg {a : FlowAcc} (h : a.Sound) : 0 ≤ a.value := by
  by_cases hc : a.consistent = 0
  · exact (h.idle hc).2.1.ge
  · exact (h.traded hc).le

theorem Sound.add {a b : FlowAcc} (ha : a.Sound) (hb : b.Sound) : (a + b).Sound where
  idle h := by
    rw [consistent_add, Nat.add_eq_zero_iff] at h
    obtain ⟨hnet, hvalue, hin, hout, hlisting⟩ := ha.idle h.1
    obtain ⟨hnet', hvalue', hin', hout', hlisting'⟩ := hb.idle h.2
    simp only [net_add, value_add, inflowRows_add, outflowRows_add, listing_add, hnet, hvalue, hin,
      hout, hlisting, hnet', hvalue', hin', hout', hlisting', add_zero, and_self]
  traded h := by
    rw [consistent_add] at h
    rw [value_add]
    by_cases hc : a.consistent = 0
    · have hb' : b.consistent ≠ 0 := fun hb' ↦ h (by rw [hc, hb'])
      exact add_pos_of_nonneg_of_pos ha.value_nonneg (hb.traded hb')
    · exact add_pos_of_pos_of_nonneg (ha.traded hc) hb.value_nonneg

theorem Sound.sum {l : List FlowAcc} (h : ∀ a ∈ l, a.Sound) : l.sum.Sound := by
  induction l with
  | nil => exact .zero
  | cons a rest ih =>
    rw [List.sum_cons]
    exact (h a List.mem_cons_self).add (ih (fun b hb ↦ h b (List.mem_cons_of_mem a hb)))

theorem ofRow_sound {f : FlowSession} {tier : FlowTier} (h : tier.accepted → 0 < f.buy)
    (listing : Bool) : (ofRow f tier listing).Sound := by
  cases tier with
  | noTrade => exact ⟨fun _ ↦ ⟨rfl, rfl, rfl, rfl, rfl⟩, fun h ↦ absurd rfl h⟩
  | excluded => exact ⟨fun _ ↦ ⟨rfl, rfl, rfl, rfl, rfl⟩, fun h ↦ absurd rfl h⟩
  | identityOnly =>
    refine ⟨fun h ↦ ?_, fun _ ↦ ?_⟩
    · cases listing <;> simp [ofRow, add, count, empty, consistent, FlowTier.accepted] at h
    · cases listing <;> simpa [ofRow, add, count, empty, FlowTier.accepted] using h rfl
  | barChecked =>
    refine ⟨fun h ↦ ?_, fun _ ↦ ?_⟩
    · cases listing <;> simp [ofRow, add, count, empty, consistent, FlowTier.accepted] at h
    · cases listing <;> simpa [ofRow, add, count, empty, FlowTier.accepted] using h rfl

def inTier (a : FlowAcc) : FlowTier → ℕ
  | .noTrade => a.noTrade
  | .excluded => a.excluded
  | .identityOnly => a.identityOnly
  | .barChecked => a.barChecked

theorem inTier_add (a b : FlowAcc) (t : FlowTier) : (a + b).inTier t = a.inTier t + b.inTier t := by
  cases t <;> rfl

theorem ofRow_rows (f : FlowSession) (tier : FlowTier) (listing : Bool) :
    (ofRow f tier listing).rows = 1 := by
  cases tier <;> cases listing <;> rfl

theorem ofRow_inTier (f : FlowSession) (tier t : FlowTier) (listing : Bool) :
    (ofRow f tier listing).inTier t = if tier = t then 1 else 0 := by
  cases tier <;> cases listing <;> cases t <;> rfl

end FlowAcc

end TalaPala.Bourse
