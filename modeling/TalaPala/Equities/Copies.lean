import TalaPala.Equities.Detection
import Mathlib.Data.Finset.Basic
import Mathlib.Tactic.NormNum

namespace TalaPala.Equities

open List

structure StoredCopy (served : Date → Finset (ℚ × ℚ)) where
  bars : List Bar
  alternatives : Alternatives
  stored : ∀ bar ∈ bars, (bar.finalClose, bar.priceYesterday) ∈ served bar.tradeDate
  remaining : ∀ bar ∈ bars, ∀ statement, statement ∈ alternatives.get bar.tradeDate ↔
    statement ∈ served bar.tradeDate ∧ statement ≠ (bar.finalClose, bar.priceYesterday)

def sessions (bars : List Bar) : List (Date × Bool) :=
  bars.map (fun bar ↦ (bar.tradeDate, bar.traded))

def Chained (served : Date → Finset (ℚ × ℚ)) (earlier later : Date) : Prop :=
  ∃ s ∈ served earlier, ∃ t ∈ served later, s.1 = t.2

def referenceDates (bars : List Bar) (actions : List CorporateAction) : Set Date :=
  {date | ∃ (i : ℕ) (previous current : Bar), bars[i]? = some previous ∧
    bars[i + 1]? = some current ∧ previous.traded = true ∧ current.traded = true ∧
    current.tradeDate = date ∧
    ∃ a ∈ actions, a.kind = .referenceRestated ∧ a.effectiveDate = date}

variable {served : Date → Finset (ℚ × ℚ)}

theorem remaining_of_erase {bars : List Bar} {alternatives : Alternatives}
    (h : ∀ bar ∈ bars, (alternatives.get bar.tradeDate).toFinset =
      (served bar.tradeDate).erase (bar.finalClose, bar.priceYesterday)) :
    ∀ bar ∈ bars, ∀ statement, statement ∈ alternatives.get bar.tradeDate ↔
      statement ∈ served bar.tradeDate ∧ statement ≠ (bar.finalClose, bar.priceYesterday) := by
  intro bar hb statement
  rw [← mem_toFinset, h bar hb, Finset.mem_erase, and_comm]

theorem StoredCopy.served_iff (copy : StoredCopy served) {bar : Bar} (hb : bar ∈ copy.bars)
    {statement : ℚ × ℚ} : statement ∈ served bar.tradeDate ↔
      statement = (bar.finalClose, bar.priceYesterday) ∨
        statement ∈ copy.alternatives.get bar.tradeDate := by
  rw [copy.remaining bar hb]
  constructor
  · intro h
    by_cases he : statement = (bar.finalClose, bar.priceYesterday)
    · exact .inl he
    · exact .inr ⟨h, he⟩
  · rintro (rfl | h)
    · exact copy.stored bar hb
    · exact h.1

theorem StoredCopy.chained_iff (copy : StoredCopy served) {previous current : Bar}
    (hp : previous ∈ copy.bars) (hc : current ∈ copy.bars) :
    Chained served previous.tradeDate current.tradeDate ↔
      current.priceYesterday = previous.finalClose ∨
        (chainedByACopy previous current copy.alternatives).isSome = true := by
  have hclose : ∀ x, (∃ s ∈ served previous.tradeDate, s.1 = x) ↔
      x ∈ previous.finalClose :: (copy.alternatives.get previous.tradeDate).map Prod.fst := by
    intro x
    simp only [copy.served_iff hp, mem_cons, mem_map, or_and_right, exists_or, exists_eq_left]
    exact or_congr_left eq_comm
  have href : ∀ x, (∃ t ∈ served current.tradeDate, t.2 = x) ↔
      x ∈ current.priceYesterday :: (copy.alternatives.get current.tradeDate).map Prod.snd := by
    intro x
    simp only [copy.served_iff hc, mem_cons, mem_map, or_and_right, exists_or, exists_eq_left]
    exact or_congr_left eq_comm
  have hcommon : Chained served previous.tradeDate current.tradeDate ↔
      ∃ x, x ∈ previous.finalClose :: (copy.alternatives.get previous.tradeDate).map Prod.fst ∧
        x ∈ current.priceYesterday :: (copy.alternatives.get current.tradeDate).map Prod.snd := by
    simp only [← hclose, ← href, Chained]
    constructor
    · rintro ⟨s, hs, t, ht, he⟩
      exact ⟨s.1, ⟨s, hs, rfl⟩, t, ht, he.symm⟩
    · rintro ⟨x, ⟨s, hs, rfl⟩, t, ht, he⟩
      exact ⟨s, hs, t, ht, he.symm⟩
  rw [hcommon]
  unfold chainedByACopy
  split
  · rename_i hempty
    obtain hnil : copy.alternatives = [] := List.isEmpty_iff.mp hempty
    simp [hnil, Alternatives.get, eq_comm]
  · simp only [isSome_min?_iff, ne_eq, filter_eq_nil_iff, decide_eq_true_eq, not_forall,
      not_not, exists_prop]
    constructor
    · exact .inr
    · rintro (he | h)
      · exact ⟨previous.finalClose, mem_cons_self, by simp [he]⟩
      · exact h

theorem examine_of_pos (alternatives : Alternatives) {previous current : Bar}
    (hp : 0 < previous.finalClose) (hc : 0 < current.priceYesterday) :
    ∃ finding, examine alternatives previous current = .ok finding := by
  unfold examine
  split
  · split
    · exact ⟨_, rfl⟩
    · rw [if_neg (by simp [hp, hc])]
      exact ⟨_, rfl⟩
  · split
    · rw [if_neg (by simp [hc])]
      exact ⟨_, rfl⟩
    · exact ⟨_, rfl⟩

theorem detectActions_of_pos (alternatives : Alternatives) {bars : List Bar}
    (h : ∀ bar ∈ bars, 0 < bar.finalClose ∧ 0 < bar.priceYesterday) :
    ∃ found, detectActions alternatives bars = .ok found := by
  induction bars with
  | nil => exact ⟨_, rfl⟩
  | cons previous bars ih =>
    obtain ⟨rest, hr⟩ := ih (fun bar hb ↦ h bar (mem_cons_of_mem previous hb))
    cases bars with
    | nil => exact ⟨_, rfl⟩
    | cons current bars =>
      obtain ⟨finding, he⟩ := examine_of_pos alternatives
        (h previous (by simp)).1 (h current (by simp)).2
      simp only [detectActions, he, hr]
      exact ⟨_, rfl⟩

theorem StoredCopy.restated_iff (copy : StoredCopy served) {previous current : Bar}
    (hp : previous ∈ copy.bars) (hc : current ∈ copy.bars) (htp : previous.traded = true)
    (htc : current.traded = true) {finding : Finding}
    (he : examine copy.alternatives previous current = .ok finding) :
    (∃ a ∈ finding.actions, a.kind = .referenceRestated) ↔
      ¬ Chained served previous.tradeDate current.tradeDate := by
  have hbetween : chainedBetween previous current copy.alternatives =
      chainedByACopy previous current copy.alternatives := by
    simp [chainedBetween, htp, htc]
  rw [copy.chained_iff hp hc]
  rcases examine_cases he with ⟨_, ⟨v, hv⟩, hn⟩ | ⟨hne, hnone, _, _, rfl⟩ | ⟨_, hf, _⟩ |
    ⟨heq, _, rfl⟩
  · rw [hbetween] at hv
    simp [hn, hv]
  · rw [hbetween] at hnone
    simp [Finding.actions, referenceAction, hne, hnone]
  · rw [hf] at htc; cases htc
  · simp [Finding.actions, heq]

theorem StoredCopy.mem_referenceDates (copy : StoredCopy served) (hs : Ascending copy.bars)
    {found : List CorporateAction × List ContestedBreak}
    (h : detectActions copy.alternatives copy.bars = .ok found) (date : Date) :
    date ∈ referenceDates copy.bars found.1 ↔
      ∃ (i : ℕ) (earlier : Date), (sessions copy.bars)[i]? = some (earlier, true) ∧
        (sessions copy.bars)[i + 1]? = some (date, true) ∧ ¬ Chained served earlier date := by
  simp only [sessions, getElem?_map, Option.map_eq_some_iff, Prod.mk.injEq]
  constructor
  · rintro ⟨i, previous, current, hp, hc, htp, htc, rfl, a, ha, hk, hd⟩
    obtain ⟨finding, he, hat⟩ := actions_at hs h hp hc
    have ham : a ∈ finding.actions := by
      rw [← hat, mem_filter]
      exact ⟨ha, decide_eq_true hd⟩
    have hbreak := (copy.restated_iff (mem_of_getElem? hp) (mem_of_getElem? hc) htp htc
      he).mp ⟨a, ham, hk⟩
    exact ⟨i, previous.tradeDate, ⟨previous, hp, rfl, htp⟩, ⟨current, hc, rfl, htc⟩, hbreak⟩
  · rintro ⟨i, earlier, ⟨previous, hp, rfl, htp⟩, ⟨current, hc, rfl, htc⟩, hbreak⟩
    obtain ⟨finding, he, hat⟩ := actions_at hs h hp hc
    obtain ⟨a, ha, hk⟩ := (copy.restated_iff (mem_of_getElem? hp) (mem_of_getElem? hc)
      htp htc he).mpr hbreak
    have ham : a ∈ found.1.filter (fun a ↦ a.effectiveDate = current.tradeDate) :=
      hat ▸ ha
    rw [mem_filter, decide_eq_true_eq] at ham
    exact ⟨i, previous, current, hp, hc, htp, htc, rfl, a, ham.1, hk, ham.2⟩

/-- Which copy happens to be stored does not decide what counts as a
reference restatement between two traded bars. -/
theorem referenceDates_independent (hpos : ∀ date, ∀ s ∈ served date, 0 < s.1 ∧ 0 < s.2)
    (first second : StoredCopy served) (hs : Ascending first.bars)
    (hsame : sessions first.bars = sessions second.bars) :
    ∃ found found', detectActions first.alternatives first.bars = .ok found ∧
      detectActions second.alternatives second.bars = .ok found' ∧
      referenceDates first.bars found.1 = referenceDates second.bars found'.1 := by
  have hs' : Ascending second.bars := by
    have hd : (sessions second.bars).Pairwise (fun a b ↦ a.1 < b.1) :=
      hsame ▸ pairwise_map.mpr hs
    simpa only [sessions, pairwise_map] using hd
  obtain ⟨found, hf⟩ := detectActions_of_pos first.alternatives
    (fun bar hb ↦ hpos _ _ (first.stored bar hb))
  obtain ⟨found', hf'⟩ := detectActions_of_pos second.alternatives
    (fun bar hb ↦ hpos _ _ (second.stored bar hb))
  refine ⟨found, found', hf, hf', ?_⟩
  ext date
  rw [first.mem_referenceDates hs hf, second.mem_referenceDates hs' hf', hsame]

def twoCopies (date : Date) : Finset (ℚ × ℚ) :=
  if date = 1 then {(20620, 20000), (20610, 20000)}
  else if date = 2 then {(20700, 20610)}
  else if date = 3 then {(9000, 8900)}
  else ∅

def copiedBar (date : Date) (finalClose priceYesterday : ℚ) : Bar where
  insCode := "35700344742885862"
  tradeDate := date
  opening := finalClose
  high := finalClose
  low := finalClose
  close := finalClose
  finalClose := finalClose
  priceYesterday := priceYesterday
  volume := 10
  tradeCount := 2
  value := finalClose

def chainedStored : StoredCopy twoCopies where
  bars := [copiedBar 1 20610 20000, copiedBar 2 20700 20610, copiedBar 3 9000 8900]
  alternatives := [(1, [(20620, 20000)])]
  stored := by decide
  remaining := remaining_of_erase (by decide)

def brokenStored : StoredCopy twoCopies where
  bars := [copiedBar 1 20620 20000, copiedBar 2 20700 20610, copiedBar 3 9000 8900]
  alternatives := [(1, [(20610, 20000)])]
  stored := by decide
  remaining := remaining_of_erase (by decide)

theorem twoCopies_agree :
    ∃ found found', detectActions chainedStored.alternatives chainedStored.bars = .ok found ∧
      detectActions brokenStored.alternatives brokenStored.bars = .ok found' ∧
      referenceDates chainedStored.bars found.1 = referenceDates brokenStored.bars found'.1 := by
  refine referenceDates_independent ?_ chainedStored brokenStored (by decide) (by decide)
  intro date s hs
  simp only [twoCopies] at hs
  split_ifs at hs <;> simp only [Finset.mem_insert, Finset.mem_singleton, Finset.notMem_empty] at hs
  · rcases hs with rfl | rfl <;> norm_num
  · subst hs; norm_num
  · subst hs; norm_num

end TalaPala.Equities
