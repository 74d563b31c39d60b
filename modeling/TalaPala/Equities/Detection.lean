import TalaPala.Clock
import Mathlib.Algebra.Order.Field.Rat
import Mathlib.Data.List.Sort

namespace TalaPala.Equities

open List

/-- One daily bar as TSETMC served it. `finalClose` is `pClosing` and `close`
is `pDrCotVal`, the last trade; prices are read in exact arithmetic. -/
structure Bar where
  insCode : String
  tradeDate : Date
  opening : ℚ
  high : ℚ
  low : ℚ
  close : ℚ
  finalClose : ℚ
  priceYesterday : ℚ
  volume : ℤ
  tradeCount : ℤ
  value : ℚ
  deriving DecidableEq

def Bar.traded (bar : Bar) : Bool := decide (bar.volume > 0) || decide (bar.tradeCount > 0)

inductive ActionKind
  | referenceRestated
  | closeRestated
  deriving DecidableEq

structure CorporateAction where
  effectiveDate : Date
  prevTradeDate : Date
  prevClose : ℚ
  priceYesterday : ℚ
  ratio : ℚ
  cumulativeFactor : ℚ
  kind : ActionKind
  restatedClose : Option ℚ
  deriving DecidableEq

structure ContestedBreak where
  effectiveDate : Date
  prevTradeDate : Date
  prevClose : ℚ
  priceYesterday : ℚ
  chainedBy : ℚ

/-- Every other statement a copy has served, per trade date, as pairs of a
final close and a reference. The empty list stands for `None` as well: the
source treats the two alike. -/
abbrev Alternatives := List (Date × List (ℚ × ℚ))

def Alternatives.get (alternatives : Alternatives) (date : Date) : List (ℚ × ℚ) :=
  (alternatives.lookup date).getD []

inductive BarParseError
  | noBars
  | ratioUnderivable (date : Date) (priceYesterday previousClose : ℚ)
  | closeUnderivable (date : Date) (finalClose priceYesterday : ℚ)
  | neverTraded (insCode : String) (bars : ℕ)
  | zeroDivision
  deriving DecidableEq

def firstTradedIndex (bars : List Bar) : ℕ := bars.findIdx Bar.traded

theorem untraded_of_zero {bar : Bar} (hv : bar.volume = 0) (hc : bar.tradeCount = 0) :
    bar.traded = false := by
  simp [Bar.traded, hv, hc]

def chainedByACopy (previous current : Bar) (alternatives : Alternatives) : Option ℚ :=
  if alternatives.isEmpty then none
  else
    let closes := previous.finalClose :: (alternatives.get previous.tradeDate).map Prod.fst
    let refs := current.priceYesterday :: (alternatives.get current.tradeDate).map Prod.snd
    (closes.filter (fun value ↦ value ∈ refs)).min?

inductive Finding
  | nothing
  | contested (broken : ContestedBreak)
  | action (found : CorporateAction)

def Finding.actions : Finding → List CorporateAction
  | .action found => [found]
  | _ => []

def Finding.contestedBreaks : Finding → List ContestedBreak
  | .contested broken => [broken]
  | _ => []

def referenceAction (previous current : Bar) : CorporateAction where
  effectiveDate := current.tradeDate
  prevTradeDate := previous.tradeDate
  prevClose := previous.finalClose
  priceYesterday := current.priceYesterday
  ratio := current.priceYesterday / previous.finalClose
  cumulativeFactor := 1
  kind := .referenceRestated
  restatedClose := none

def closeAction (previous current : Bar) : CorporateAction where
  effectiveDate := current.tradeDate
  prevTradeDate := previous.tradeDate
  prevClose := previous.finalClose
  priceYesterday := current.priceYesterday
  ratio := current.finalClose / current.priceYesterday
  cumulativeFactor := 1
  kind := .closeRestated
  restatedClose := some current.finalClose

def chainedBetween (previous current : Bar) (alternatives : Alternatives) : Option ℚ :=
  if previous.traded && current.traded then chainedByACopy previous current alternatives else none

def examine (alternatives : Alternatives) (previous current : Bar) :
    Except BarParseError Finding :=
  if current.priceYesterday ≠ previous.finalClose then
    match chainedBetween previous current alternatives with
    | some chained => .ok (.contested
        { effectiveDate := current.tradeDate
          prevTradeDate := previous.tradeDate
          prevClose := previous.finalClose
          priceYesterday := current.priceYesterday
          chainedBy := chained })
    | none =>
      if current.priceYesterday ≤ 0 ∨ previous.finalClose ≤ 0 then
        .error (.ratioUnderivable current.tradeDate current.priceYesterday previous.finalClose)
      else .ok (.action (referenceAction previous current))
  else if current.traded = false ∧ current.finalClose ≠ current.priceYesterday then
    -- only a bar on which nothing traded restates its own close
    if current.priceYesterday ≤ 0 then
      .error (.closeUnderivable current.tradeDate current.finalClose current.priceYesterday)
    else .ok (.action (closeAction previous current))
  else .ok .nothing

/-- Every restatement of the price basis, oldest first, and the contested
breaks met on the way. The first pair that cannot be read refuses the list. -/
def detectActions (alternatives : Alternatives) :
    List Bar → Except BarParseError (List CorporateAction × List ContestedBreak)
  | previous :: current :: bars =>
    match examine alternatives previous current with
    | .error e => .error e
    | .ok finding =>
      match detectActions alternatives (current :: bars) with
      | .error e => .error e
      | .ok (actions, contested) =>
        .ok (finding.actions ++ actions, finding.contestedBreaks ++ contested)
  | _ => .ok ([], [])

theorem examine_cases {alternatives : Alternatives} {previous current : Bar} {finding : Finding}
    (h : examine alternatives previous current = .ok finding) :
    (current.priceYesterday ≠ previous.finalClose ∧
      (∃ chained, chainedBetween previous current alternatives = some chained) ∧
      finding.actions = []) ∨
    (current.priceYesterday ≠ previous.finalClose ∧
      chainedBetween previous current alternatives = none ∧
      0 < current.priceYesterday ∧ 0 < previous.finalClose ∧
      finding = .action (referenceAction previous current)) ∨
    (current.priceYesterday = previous.finalClose ∧ current.traded = false ∧
      current.finalClose ≠ current.priceYesterday ∧ 0 < current.priceYesterday ∧
      finding = .action (closeAction previous current)) ∨
    (current.priceYesterday = previous.finalClose ∧
      (current.traded = true ∨ current.finalClose = current.priceYesterday) ∧
      finding = .nothing) := by
  unfold examine at h
  split at h
  · rename_i hne
    split at h
    · rename_i chained hc
      obtain rfl := Except.ok.inj h
      exact .inl ⟨hne, ⟨chained, hc⟩, rfl⟩
    · rename_i hc
      split at h
      · cases h
      · rename_i hpos
        obtain ⟨hp, hf⟩ := not_or.mp hpos
        obtain rfl := Except.ok.inj h
        exact .inr (.inl ⟨hne, hc, not_le.mp hp, not_le.mp hf, rfl⟩)
  · rename_i heq
    rw [ne_eq, not_not] at heq
    split at h
    · rename_i hclose
      split at h
      · cases h
      · rename_i hpos
        obtain rfl := Except.ok.inj h
        exact .inr (.inr (.inl ⟨heq, hclose.1, hclose.2, not_le.mp hpos, rfl⟩))
    · rename_i hclose
      obtain rfl := Except.ok.inj h
      refine .inr (.inr (.inr ⟨heq, ?_, rfl⟩))
      rcases Bool.eq_false_or_eq_true current.traded with ht | ht
      · exact .inl ht
      · exact .inr (by_contra fun hne ↦ hclose ⟨ht, hne⟩)

theorem examine_action_date {alternatives : Alternatives} {previous current : Bar}
    {finding : Finding} (h : examine alternatives previous current = .ok finding)
    {found : CorporateAction} (hf : found ∈ finding.actions) :
    found.effectiveDate = current.tradeDate ∧ found.prevTradeDate = previous.tradeDate := by
  rcases examine_cases h with ⟨_, _, hn⟩ | ⟨_, _, _, _, rfl⟩ | ⟨_, _, _, _, rfl⟩ | ⟨_, _, rfl⟩
  · rw [hn] at hf; cases hf
  · obtain rfl := mem_singleton.mp hf; exact ⟨rfl, rfl⟩
  · obtain rfl := mem_singleton.mp hf; exact ⟨rfl, rfl⟩
  · cases hf

theorem detectActions_cons {alternatives : Alternatives} {previous current : Bar} {bars : List Bar}
    {found : List CorporateAction × List ContestedBreak}
    (h : detectActions alternatives (previous :: current :: bars) = .ok found) :
    ∃ finding rest, examine alternatives previous current = .ok finding ∧
      detectActions alternatives (current :: bars) = .ok rest ∧
      found = (finding.actions ++ rest.1, finding.contestedBreaks ++ rest.2) := by
  simp only [detectActions] at h
  cases he : examine alternatives previous current with
  | error e => rw [he] at h; cases h
  | ok finding =>
    cases hr : detectActions alternatives (current :: bars) with
    | error e => rw [he, hr] at h; cases h
    | ok rest =>
      rw [he, hr] at h
      exact ⟨finding, rest, rfl, rfl, (Except.ok.inj h).symm⟩

theorem action_of_pair {alternatives : Alternatives} {bars : List Bar}
    {found : List CorporateAction × List ContestedBreak}
    (h : detectActions alternatives bars = .ok found) {a : CorporateAction} (ha : a ∈ found.1) :
    ∃ i previous current finding, bars[i]? = some previous ∧ bars[i + 1]? = some current ∧
      examine alternatives previous current = .ok finding ∧ a ∈ finding.actions := by
  induction bars generalizing found with
  | nil => obtain rfl := Except.ok.inj h; cases ha
  | cons previous bars ih =>
    cases bars with
    | nil => obtain rfl := Except.ok.inj h; cases ha
    | cons current bars =>
      obtain ⟨finding, rest, he, hr, rfl⟩ := detectActions_cons h
      rcases mem_append.mp ha with ha | ha
      · exact ⟨0, previous, current, finding, rfl, rfl, he, ha⟩
      · obtain ⟨i, p, c, f, hp, hc, hf, hm⟩ := ih hr ha
        exact ⟨i + 1, p, c, f, by simpa using hp, by simpa using hc, hf, hm⟩

abbrev Ascending (bars : List Bar) : Prop :=
  bars.Pairwise (fun a b ↦ a.tradeDate < b.tradeDate)

theorem Ascending.date_le_iff {bars : List Bar} (hs : Ascending bars) {i j : ℕ} {a b : Bar}
    (ha : bars[i]? = some a) (hb : bars[j]? = some b) : a.tradeDate ≤ b.tradeDate ↔ i ≤ j := by
  obtain ⟨hi, rfl⟩ := List.getElem?_eq_some_iff.mp ha
  obtain ⟨hj, rfl⟩ := List.getElem?_eq_some_iff.mp hb
  constructor
  · intro hle
    by_contra hji
    exact (pairwise_iff_getElem.mp hs j i hj hi (not_le.mp hji)).not_ge hle
  · intro hij
    rcases hij.lt_or_eq with hlt | rfl
    · exact (pairwise_iff_getElem.mp hs i j hi hj hlt).le
    · exact le_rfl

theorem action_dated {alternatives : Alternatives} {bars : List Bar}
    {found : List CorporateAction × List ContestedBreak}
    (h : detectActions alternatives bars = .ok found) {a : CorporateAction} (ha : a ∈ found.1) :
    ∃ i current, bars[i + 1]? = some current ∧ a.effectiveDate = current.tradeDate := by
  obtain ⟨i, _, current, _, _, hc, hf, hm⟩ := action_of_pair h ha
  exact ⟨i, current, hc, (examine_action_date hf hm).1⟩

theorem date_mem_tail {alternatives : Alternatives} {first : Bar} {bars : List Bar}
    {found : List CorporateAction × List ContestedBreak}
    (h : detectActions alternatives (first :: bars) = .ok found) {a : CorporateAction}
    (ha : a ∈ found.1) : ∃ bar ∈ bars, a.effectiveDate = bar.tradeDate := by
  obtain ⟨i, c, hc, hd⟩ := action_dated h ha
  rw [getElem?_cons_succ] at hc
  exact ⟨c, mem_of_getElem? hc, hd⟩

theorem detectActions_sorted {alternatives : Alternatives} {bars : List Bar} (hs : Ascending bars)
    {found : List CorporateAction × List ContestedBreak}
    (h : detectActions alternatives bars = .ok found) :
    found.1.Pairwise (fun a b ↦ a.effectiveDate < b.effectiveDate) := by
  induction bars generalizing found with
  | nil => obtain rfl := Except.ok.inj h; exact .nil
  | cons previous bars ih =>
    cases bars with
    | nil => obtain rfl := Except.ok.inj h; exact .nil
    | cons current bars =>
      obtain ⟨finding, rest, he, hr, rfl⟩ := detectActions_cons h
      have hrest := ih hs.tail hr
      have hlater : ∀ a ∈ finding.actions, ∀ b ∈ rest.1, a.effectiveDate < b.effectiveDate := by
        intro a ha b hb
        obtain ⟨bar, hbar, hd⟩ := date_mem_tail hr hb
        rw [(examine_action_date he ha).1, hd]
        exact (pairwise_cons.mp hs.tail).1 bar hbar
      have hone : finding.actions.Pairwise (fun a b ↦ a.effectiveDate < b.effectiveDate) := by
        cases finding <;> simp [Finding.actions]
      exact pairwise_append.mpr ⟨hone, hrest, hlater⟩

theorem actions_at {alternatives : Alternatives} {bars : List Bar} (hs : Ascending bars)
    {found : List CorporateAction × List ContestedBreak}
    (h : detectActions alternatives bars = .ok found) {i : ℕ} {previous current : Bar}
    (hp : bars[i]? = some previous) (hc : bars[i + 1]? = some current) :
    ∃ finding, examine alternatives previous current = .ok finding ∧
      found.1.filter (fun a ↦ a.effectiveDate = current.tradeDate) = finding.actions := by
  induction bars generalizing found i with
  | nil => cases hp
  | cons first bars ih =>
    cases bars with
    | nil => cases hc
    | cons second bars =>
      obtain ⟨finding, rest, he, hr, rfl⟩ := detectActions_cons h
      cases i with
      | zero =>
        obtain rfl : first = previous := by simpa using hp
        obtain rfl : second = current := by simpa using hc
        refine ⟨finding, he, ?_⟩
        have hkeep : finding.actions.filter
            (fun a ↦ a.effectiveDate = second.tradeDate) = finding.actions := by
          rw [filter_eq_self]
          exact fun a ha ↦ decide_eq_true (examine_action_date he ha).1
        have hdrop : rest.1.filter (fun a ↦ a.effectiveDate = second.tradeDate) = [] := by
          rw [filter_eq_nil_iff]
          intro a ha
          obtain ⟨bar, hbar, hd⟩ := date_mem_tail hr ha
          have hlt := (pairwise_cons.mp hs.tail).1 bar hbar
          simp [hd, hlt.ne']
        simp only [filter_append, hkeep, hdrop, append_nil]
      | succ i =>
        rw [getElem?_cons_succ] at hp hc
        obtain ⟨later, hl, hat⟩ := ih hs.tail hr hp hc
        refine ⟨later, hl, ?_⟩
        have hdrop : finding.actions.filter
            (fun a ↦ a.effectiveDate = current.tradeDate) = [] := by
          rw [filter_eq_nil_iff]
          intro a ha
          rw [getElem?_cons_succ] at hc
          have hlt := (pairwise_cons.mp hs.tail).1 current (mem_of_getElem? hc)
          simp [(examine_action_date he ha).1, hlt.ne]
        simp only [filter_append, hdrop, nil_append, hat]

theorem detected_ratio_pos {alternatives : Alternatives} {bars : List Bar}
    (hclose : ∀ bar ∈ bars, 0 < bar.finalClose)
    {found : List CorporateAction × List ContestedBreak}
    (h : detectActions alternatives bars = .ok found) {a : CorporateAction} (ha : a ∈ found.1) :
    0 < a.ratio := by
  obtain ⟨i, p, c, f, _, hc, hf, hm⟩ := action_of_pair h ha
  rcases examine_cases hf with ⟨_, _, hn⟩ | ⟨_, _, hp, hq, rfl⟩ | ⟨_, _, _, hp, rfl⟩ | ⟨_, _, rfl⟩
  · rw [hn] at hm; cases hm
  · obtain rfl := mem_singleton.mp hm; exact div_pos hp hq
  · obtain rfl := mem_singleton.mp hm
    exact div_pos (hclose c (mem_of_getElem? hc)) hp
  · cases hm

end TalaPala.Equities
