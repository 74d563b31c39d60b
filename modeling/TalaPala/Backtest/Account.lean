import TalaPala.Library.Trailing
import Mathlib.Algebra.BigOperators.Group.List.Basic
import Mathlib.Algebra.Order.Field.Rat
import Mathlib.Tactic.Ring

namespace TalaPala.Backtest

open Library

inductive Decision
  | stay
  | enter
  | leave
  deriving DecidableEq

structure Account where
  equity : Track ℚ
  gross : Track ℚ
  position : Bool
  entryEquity : ℚ
  trades : List (Option ℚ)

namespace Account

def start : Account :=
  { equity := Track.start 1
    gross := Track.start 1
    position := false
    entryEquity := 0
    trades := [] }

end Account

def tradeReturn (eq entryEquity : ℚ) : Option ℚ :=
  if entryEquity = 0 then none else some ((eq / entryEquity - 1) * 100)

namespace Account

def trade (costSide : ℚ) (decision : Decision) (account : Account) : ℚ × Account :=
  let eq := account.equity.last
  match decision with
  | .stay => (eq, account)
  | .enter =>
    let eq := eq * (1 - costSide)
    (eq, { account with position := true, entryEquity := eq })
  | .leave =>
    let eq := eq * (1 - costSide)
    (eq, { account with
      position := false
      trades := account.trades ++ [tradeReturn eq account.entryEquity] })

def earn (eq stepRet : ℚ) (account : Account) : Account :=
  { account with
    equity := account.equity.push (if account.position then eq * (1 + stepRet) else eq)
    gross := account.gross.push
      (if account.position then account.gross.last * (1 + stepRet) else account.gross.last) }

def advance (costSide stepRet : ℚ) (decision : Decision) (account : Account) : Account :=
  let traded := account.trade costSide decision
  traded.2.earn traded.1 stepRet

def close (costSide : ℚ) (account : Account) : Account :=
  if account.position then
    let eq := account.equity.last * (1 - costSide)
    { account with
      trades := account.trades ++ [tradeReturn eq account.entryEquity]
      equity := account.equity.setLast eq }
  else account

def Allows (account : Account) (decision : Decision) : Prop :=
  match decision with
  | .stay => True
  | .enter => account.position = false
  | .leave => account.position = true

def opened (account : Account) : ℕ := account.trades.length + account.position.toNat

variable {account : Account} {costSide stepRet : ℚ} {decision : Decision}

@[simp] theorem position_stay :
    (account.advance costSide stepRet .stay).position = account.position := rfl

@[simp] theorem position_enter : (account.advance costSide stepRet .enter).position = true := rfl

@[simp] theorem position_leave : (account.advance costSide stepRet .leave).position = false := rfl

@[simp] theorem points_equity_advance :
    (account.advance costSide stepRet decision).equity.points =
      account.equity.points ++ [(account.advance costSide stepRet decision).equity.last] := by
  cases decision <;> simp [advance, trade, earn]

@[simp] theorem points_gross_advance :
    (account.advance costSide stepRet decision).gross.points =
      account.gross.points ++ [(account.advance costSide stepRet decision).gross.last] := by
  cases decision <;> simp [advance, trade, earn]

theorem opened_advance (hallows : account.Allows decision) :
    (account.advance costSide stepRet decision).opened =
      account.opened + if decision = .enter then 1 else 0 := by
  cases decision with
  | stay => simp [advance, trade, earn, opened]
  | enter =>
    have hflat : account.position = false := hallows
    simp [advance, trade, earn, opened, hflat]
  | leave =>
    have hheld : account.position = true := hallows
    simp [advance, trade, earn, opened, hheld]

theorem length_trades_close : (account.close costSide).trades.length = account.opened := by
  rw [close, opened]
  split
  next hheld => simp [hheld]
  next hflat => simp [hflat]

end Account

section Costs

def compounded : List (Option ℚ) → Option ℚ
  | [] => some 1
  | trade :: trades => do return (1 + (← trade) / 100) * (← compounded trades)

theorem compounded_append (trades : List (Option ℚ)) (trade : Option ℚ) :
    compounded (trades ++ [trade]) =
      do return (← compounded trades) * (1 + (← trade) / 100) := by
  induction trades with
  | nil => cases trade <;> simp [compounded]
  | cons first trades ih =>
    rw [List.cons_append, compounded, compounded, ih]
    cases first <;> cases compounded trades <;> cases trade <;> simp [mul_assoc]

theorem growth_tradeReturn {entryEquity : ℚ} (eq : ℚ) (h : entryEquity ≠ 0) :
    ∃ r, tradeReturn eq entryEquity = some r ∧ 1 + r / 100 = eq / entryEquity := by
  refine ⟨(eq / entryEquity - 1) * 100, if_neg h, ?_⟩
  ring

namespace Account

structure Charged (costSide : ℚ) (account : Account) : Prop where
  gross_pos : 0 < account.gross.last
  net : account.equity.last =
    account.gross.last * (1 - costSide) ^ (account.trades.length + account.opened)

structure Compounds (costSide : ℚ) (account : Account) : Prop where
  flat : account.position = false → ∃ product, compounded account.trades = some product ∧
    product * (1 - costSide) ^ account.opened = account.equity.last
  held : account.position = true → account.entryEquity ≠ 0 ∧
    ∃ product, compounded account.trades = some product ∧
      product * (1 - costSide) ^ account.opened = account.entryEquity

structure Ruined (account : Account) : Prop where
  trades : ∀ trade ∈ account.trades, trade = none
  held : account.position = true → account.entryEquity = 0

variable {account : Account} {costSide stepRet : ℚ} {decision : Decision}

theorem Charged.advance (h : Charged costSide account) (hallows : account.Allows decision)
    (hret : 0 < 1 + stepRet) : Charged costSide (account.advance costSide stepRet decision) := by
  obtain ⟨hpos, hnet⟩ := h
  have hearned := mul_pos hpos hret
  cases decision with
  | stay =>
    cases hposition : account.position with
    | false => constructor <;> simp_all [Account.advance, trade, earn, opened]
    | true =>
      constructor
      · simpa [Account.advance, trade, earn, hposition] using hearned
      · simp [Account.advance, trade, earn, opened, hposition, hnet]
        ring
  | enter =>
    have hflat : account.position = false := hallows
    constructor
    · simpa [Account.advance, trade, earn] using hearned
    · simp [Account.advance, trade, earn, opened, hflat, hnet]
      ring
  | leave =>
    have hheld : account.position = true := hallows
    constructor
    · simpa [Account.advance, trade, earn] using hpos
    · simp [Account.advance, trade, earn, opened, hheld, hnet]
      ring

theorem Charged.equity_ne_zero (h : Charged costSide account) (hcost : costSide ≠ 1) :
    account.equity.last ≠ 0 := by
  rw [h.net]
  exact mul_ne_zero h.gross_pos.ne' (pow_ne_zero _ (sub_ne_zero.mpr hcost.symm))

theorem compounded_close (eq : ℚ) (h : Compounds costSide account)
    (hheld : account.position = true) :
    ∃ product, compounded (account.trades ++ [tradeReturn eq account.entryEquity]) = some product ∧
      product * (1 - costSide) ^ account.opened = eq := by
  obtain ⟨hentry, product, hproduct, hmissing⟩ := h.held hheld
  obtain ⟨r, hr, hgrowth⟩ := growth_tradeReturn eq hentry
  refine ⟨product * (eq / account.entryEquity), ?_, ?_⟩
  · rw [compounded_append, hproduct, hr]
    simp [hgrowth]
  · rw [mul_right_comm, hmissing, mul_div_cancel₀ eq hentry]

theorem Compounds.advance (h : Compounds costSide account) (hcharged : Charged costSide account)
    (hcost : costSide ≠ 1) (hallows : account.Allows decision) :
    Compounds costSide (account.advance costSide stepRet decision) := by
  cases decision with
  | stay =>
    cases hposition : account.position with
    | false =>
      refine ⟨fun _ ↦ ?_, fun hheld ↦ ?_⟩
      · simpa [Account.advance, trade, earn, opened, hposition] using h.flat hposition
      · simp [Account.advance, trade, earn, hposition] at hheld
    | true =>
      refine ⟨fun hflat ↦ ?_, fun _ ↦ ?_⟩
      · simp [Account.advance, trade, earn, hposition] at hflat
      · simpa [Account.advance, trade, earn, opened, hposition] using h.held hposition
  | enter =>
    have hflat : account.position = false := hallows
    obtain ⟨product, hproduct, hmissing⟩ := h.flat hflat
    refine ⟨fun hheld ↦ ?_, fun _ ↦ ⟨?_, product, hproduct, ?_⟩⟩
    · simp [Account.advance, trade, earn] at hheld
    · exact mul_ne_zero (hcharged.equity_ne_zero hcost) (sub_ne_zero.mpr hcost.symm)
    · have hopened : account.opened = account.trades.length := by simp [opened, hflat]
      rw [hopened] at hmissing
      simp [Account.advance, trade, earn, opened, pow_succ, ← mul_assoc, hmissing]
  | leave =>
    have hheld : account.position = true := hallows
    obtain ⟨product, hproduct, hmissing⟩ :=
      compounded_close (account.equity.last * (1 - costSide)) h hheld
    refine ⟨fun _ ↦ ⟨product, hproduct, ?_⟩, fun hopen ↦ ?_⟩
    · have hopened : account.opened = account.trades.length + 1 := by simp [opened, hheld]
      rw [hopened] at hmissing
      simpa [Account.advance, trade, earn, opened] using hmissing
    · simp [Account.advance, trade, earn] at hopen

theorem tradeReturn_zero (eq : ℚ) : tradeReturn eq 0 = none := if_pos rfl

theorem Ruined.advance (h : Ruined account) (hallows : account.Allows decision) :
    Ruined (account.advance 1 stepRet decision) := by
  obtain ⟨htrades, hentry⟩ := h
  cases decision with
  | stay => exact ⟨htrades, hentry⟩
  | enter => exact ⟨htrades, fun _ ↦ by simp [Account.advance, trade, earn]⟩
  | leave =>
    have hheld : account.position = true := hallows
    refine ⟨?_, fun hopen ↦ ?_⟩
    · simp only [Account.advance, trade, earn, hentry hheld, tradeReturn_zero]
      exact List.forall_mem_append.mpr ⟨htrades, by simp⟩
    · simp [Account.advance, trade, earn] at hopen

theorem charged_start : Charged costSide start := ⟨by simp [start], by simp [start, opened]⟩

theorem compounds_start : Compounds costSide start :=
  ⟨fun _ ↦ ⟨1, rfl, by simp [start, opened]⟩, fun hheld ↦ by simp [start] at hheld⟩

theorem ruined_start : Ruined start := ⟨by simp [start], fun hheld ↦ by simp [start] at hheld⟩

theorem Charged.close (h : Charged costSide account) :
    (account.close costSide).equity.last =
      (account.close costSide).gross.last *
        (1 - costSide) ^ (2 * (account.close costSide).trades.length) := by
  rw [length_trades_close]
  obtain ⟨-, hnet⟩ := h
  cases hposition : account.position with
  | false => simp [Account.close, opened, hposition, hnet, two_mul]
  | true =>
    simp [Account.close, opened, hposition, hnet]
    ring

theorem Compounds.close (h : Compounds costSide account) :
    ∃ product, compounded (account.close costSide).trades = some product ∧
      product * (1 - costSide) ^ (account.close costSide).trades.length =
        (account.close costSide).equity.last := by
  rw [length_trades_close]
  cases hposition : account.position with
  | false => simpa [Account.close, hposition] using h.flat hposition
  | true =>
    obtain ⟨product, hproduct, hmissing⟩ :=
      compounded_close (account.equity.last * (1 - costSide)) h hposition
    exact ⟨product, by simpa [Account.close, hposition] using hproduct,
      by simpa [Account.close, hposition] using hmissing⟩

/-- An account that never opened a position is worth what it started with. -/
def Untouched (account : Account) : Prop := account.opened = 0 → account.equity.last = 1

theorem Untouched.advance (h : Untouched account) (hallows : account.Allows decision) :
    Untouched (account.advance costSide stepRet decision) := by
  intro hopened
  rw [opened_advance hallows] at hopened
  have hnone : account.opened = 0 := Nat.eq_zero_of_add_eq_zero_right hopened
  have hflat : account.position = false :=
    Bool.toNat_eq_zero.mp (Nat.eq_zero_of_add_eq_zero_left hnone)
  cases decision with
  | stay => simpa [Account.advance, trade, earn, hflat] using h hnone
  | enter => simp at hopened
  | leave => rw [Allows, hflat] at hallows; exact absurd hallows Bool.false_ne_true

theorem compounded_none {trades : List (Option ℚ)} (h : none ∈ trades) :
    compounded trades = none := by
  induction trades with
  | nil => cases h
  | cons trade trades ih =>
    rcases List.mem_cons.mp h with rfl | hmem
    · rfl
    · rw [compounded, ih hmem]
      cases trade <;> rfl

theorem Ruined.close (h : Ruined account) :
    ∀ trade ∈ (account.close 1).trades, trade = none := by
  rw [Account.close]
  split
  next hheld =>
    simp only [h.held hheld, tradeReturn_zero]
    exact List.forall_mem_append.mpr ⟨h.trades, by simp⟩
  next => exact h.trades

theorem compounded_close_iff (hcharged : Charged costSide account)
    (hcompounds : costSide ≠ 1 → Compounds costSide account)
    (hruined : costSide = 1 → Ruined account) (huntouched : Untouched account) :
    compounded (account.close costSide).trades = some (account.close costSide).equity.last ↔
      (1 - costSide) ^ account.opened = 1 := by
  by_cases hcost : costSide = 1
  · subst hcost
    rcases Nat.eq_zero_or_pos account.opened with hnone | hsome
    · have hflat : account.position = false :=
        Bool.toNat_eq_zero.mp (Nat.eq_zero_of_add_eq_zero_left hnone)
      have htrades : account.trades = [] :=
        List.length_eq_zero_iff.mp (Nat.eq_zero_of_add_eq_zero_right hnone)
      have hone := huntouched hnone
      simp [Account.close, hflat, htrades, hone, hnone, compounded]
    · have hlength : (account.close 1).trades.length = account.opened := length_trades_close
      obtain ⟨trade, htrade⟩ := List.exists_mem_of_length_pos (hlength ▸ hsome)
      rw [compounded_none ((hruined rfl).close trade htrade ▸ htrade), sub_self, zero_pow hsome.ne']
      exact iff_of_false (by simp) zero_ne_one
  · obtain ⟨product, hproduct, hmissing⟩ := (hcompounds hcost).close
    have hequity : (account.close costSide).equity.last ≠ 0 := by
      have hgross : (account.close costSide).gross = account.gross := by
        rw [Account.close]
        split <;> rfl
      rw [hcharged.close, hgross]
      exact mul_ne_zero hcharged.gross_pos.ne' (pow_ne_zero _ (sub_ne_zero.mpr (Ne.symm hcost)))
    have hsome : product ≠ 0 := left_ne_zero_of_mul (hmissing ▸ hequity)
    rw [hproduct, Option.some_inj, ← hmissing, length_trades_close, eq_comm, mul_eq_left₀ hsome]

end Account

end Costs

end TalaPala.Backtest
