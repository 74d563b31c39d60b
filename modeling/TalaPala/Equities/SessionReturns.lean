import TalaPala.Equities.Adjustment
import Mathlib.Tactic.Linarith

namespace TalaPala.Equities

open Library SuffixFactor List

theorem backFactor_step {alternatives : Alternatives} {bars : List Bar} (hs : Ascending bars)
    {found : List CorporateAction × List ContestedBreak}
    (h : detectActions alternatives bars = .ok found) {i : ℕ} {previous current : Bar}
    (hp : bars[i]? = some previous) (hc : bars[i + 1]? = some current) :
    ∃ finding, examine alternatives previous current = .ok finding ∧
      backFactor found.1 previous.tradeDate =
        (finding.actions.map CorporateAction.ratio).prod *
          backFactor found.1 current.tradeDate := by
  obtain ⟨finding, he, hat⟩ := actions_at hs h hp hc
  refine ⟨finding, he, ?_⟩
  have hlt : previous.tradeDate < current.tradeDate := by
    rw [← not_le, hs.date_le_iff hc hp]
    omega
  -- an action dated after the earlier bar was found on a pair at or after this one
  have hbetween : ∀ a ∈ found.1, previous.tradeDate < a.effectiveDate →
      current.tradeDate ≤ a.effectiveDate := by
    intro a ha hafter
    obtain ⟨j, bar, hbar, hd⟩ := action_dated h ha
    rw [hd, ← not_le, hs.date_le_iff hbar hp] at hafter
    rw [hd, hs.date_le_iff hc hbar]
    omega
  rw [backFactor, factorAfter_step hlt hbetween, factorAt, hat, backFactor]

theorem backFactor_pos {alternatives : Alternatives} {bars : List Bar}
    (hclose : ∀ bar ∈ bars, 0 < bar.finalClose)
    {found : List CorporateAction × List ContestedBreak}
    (h : detectActions alternatives bars = .ok found) (date : Date) :
    0 < backFactor found.1 date :=
  factorAfter_closed (p := fun x ↦ 0 < x) one_pos (fun _ _ ↦ mul_pos)
    (fun _ ha ↦ detected_ratio_pos hclose h ha) date

theorem adjusted_step {bars : List Bar} {bounds : Bounds} {alternatives : Alternatives}
    {series : AdjustedSeries} (hdates : (bars.map Bar.tradeDate).Nodup)
    (hclose : ∀ bar ∈ bars, 0 < bar.finalClose)
    (h : adjust bars bounds alternatives = .ok series) {i : ℕ} {p c : Bar × ℚ}
    (hp : (adjustedPairs series)[i]? = some p) (hc : (adjustedPairs series)[i + 1]? = some c) :
    ∃ finding factor, examine alternatives p.1 c.1 = .ok finding ∧ 0 < factor ∧
      0 < p.1.finalClose ∧ 0 < c.1.finalClose ∧ c.2 = c.1.finalClose * factor ∧
      p.2 = p.1.finalClose * ((finding.actions.map CorporateAction.ratio).prod * factor) := by
  obtain ⟨found, hd, hs, hcl⟩ := adjustedCloses_eq hdates h
  rw [adjustedPairs_eq hcl, getElem?_map, Option.map_eq_some_iff] at hp hc
  obtain ⟨previous, hp, rfl⟩ := hp
  obtain ⟨current, hc, rfl⟩ := hc
  rw [AdjustedSeries.tradedBars, getElem?_drop] at hp hc
  have hbars : ∀ bar ∈ series.bars, 0 < bar.finalClose :=
    fun bar hb ↦ hclose bar ((mem_bars h).mp hb)
  obtain ⟨finding, he, hstep⟩ := backFactor_step hs hd hp hc
  exact ⟨finding, backFactor found.1 current.tradeDate, he, backFactor_pos hbars hd _,
    hbars _ (mem_of_getElem? hp), hbars _ (mem_of_getElem? hc), rfl, by rw [hstep]⟩

theorem adjusted_last {bars : List Bar} {bounds : Bounds} {alternatives : Alternatives}
    {series : AdjustedSeries} (hdates : (bars.map Bar.tradeDate).Nodup)
    (h : adjust bars bounds alternatives = .ok series) :
    series.adjustedCloses.getLast? = series.bars.getLast?.map Bar.finalClose := by
  obtain ⟨found, hd, hs, hcl⟩ := adjustedCloses_eq hdates h
  obtain ⟨_, _, _, _, _, hlead, _⟩ := adjust_ok h
  have hspan : series.tradedBars.getLast? = series.bars.getLast? := by
    rw [AdjustedSeries.tradedBars, getLast?_drop, if_neg (by omega)]
  rw [hcl, getLast?_map, hspan]
  apply Option.map_congr
  intro last hlast
  have hone : backFactor found.1 last.tradeDate = 1 := by
    apply factorAfter_eq_one
    intro a ha
    obtain ⟨j, bar, hbar, ha⟩ := action_dated hd ha
    rw [getLast?_eq_getElem?] at hlast
    obtain ⟨hj, _⟩ := List.getElem?_eq_some_iff.mp hbar
    rw [ha, hs.date_le_iff hbar hlast]
    omega
  rw [hone, mul_one]

theorem reference_carries {previous current : Bar} (h : 0 < previous.finalClose) :
    previous.finalClose * ((Finding.action (referenceAction previous current)).actions.map
      CorporateAction.ratio).prod = current.priceYesterday := by
  simp only [Finding.actions, referenceAction, map_cons, map_nil, prod_cons, prod_nil, mul_one]
  exact mul_div_cancel₀ _ h.ne'

theorem close_carries {previous current : Bar} (h : 0 < current.priceYesterday)
    (heq : current.priceYesterday = previous.finalClose) :
    previous.finalClose * ((Finding.action (closeAction previous current)).actions.map
      CorporateAction.ratio).prod = current.finalClose := by
  simp only [Finding.actions, closeAction, map_cons, map_nil, prod_cons, prod_nil, mul_one, ← heq]
  exact mul_div_cancel₀ _ h.ne'

theorem nothing_carries {previous : Bar} :
    previous.finalClose * (Finding.nothing.actions.map CorporateAction.ratio).prod =
      previous.finalClose := mul_one _

theorem not_chained_without_copies (previous current : Bar) :
    chainedBetween previous current [] = none := by
  simp [chainedBetween, chainedByACopy]

/-- Back-adjustment reproduces the exchange's own session return, and leaves
the newest close at its raw value. -/
theorem adjusted_return_eq_session_return {bars : List Bar} {bounds : Bounds}
    {series : AdjustedSeries} (hdates : (bars.map Bar.tradeDate).Nodup)
    (hclose : ∀ bar ∈ bars, 0 < bar.finalClose) (h : adjust bars bounds [] = .ok series) :
    series.adjustedCloses.length = series.tradedBars.length ∧
    (∀ (i : ℕ) (p c : Bar × ℚ), (adjustedPairs series)[i]? = some p →
      (adjustedPairs series)[i + 1]? = some c → c.1.traded = true →
      0 < p.2 ∧ 0 < c.1.priceYesterday ∧ c.2 / p.2 = c.1.finalClose / c.1.priceYesterday) ∧
    series.adjustedCloses.getLast? = series.bars.getLast?.map Bar.finalClose := by
  refine ⟨?_, ?_, adjusted_last hdates h⟩
  · obtain ⟨_, _, _, hcl⟩ := adjustedCloses_eq hdates h
    rw [hcl, length_map]
  · intro i p c hp hc ht
    obtain ⟨finding, factor, he, hpos, hpf, hcf, hc2, hp2⟩ := adjusted_step hdates hclose h hp hc
    have hreturn : p.1.finalClose * (finding.actions.map CorporateAction.ratio).prod =
        c.1.priceYesterday ∧ 0 < c.1.priceYesterday := by
      rcases examine_cases he with ⟨_, ⟨_, hs⟩, _⟩ | ⟨_, _, hpy, _, rfl⟩ | ⟨_, hf, _⟩ |
        ⟨heq, _, rfl⟩
      · rw [not_chained_without_copies] at hs; cases hs
      · exact ⟨reference_carries hpf, hpy⟩
      · rw [hf] at ht; cases ht
      · exact ⟨nothing_carries.trans heq.symm, heq ▸ hpf⟩
    obtain ⟨hcarry, hpy⟩ := hreturn
    have hp2' : p.2 = c.1.priceYesterday * factor := by rw [hp2, ← mul_assoc, hcarry]
    refine ⟨hp2' ▸ mul_pos hpy hpos, hpy, ?_⟩
    rw [hc2, hp2', mul_div_mul_right _ _ hpos.ne']

def flatBar (date : Date) (finalClose priceYesterday : ℚ) (volume : ℤ) : Bar where
  insCode := "46348559193224090"
  tradeDate := date
  opening := finalClose
  high := finalClose
  low := finalClose
  close := finalClose
  finalClose := finalClose
  priceYesterday := priceYesterday
  volume := volume
  tradeCount := volume
  value := finalClose * volume

def restatedHistory : List Bar :=
  [flatBar 6 1100 1000 7, flatBar 5 1000 3100 0, flatBar 4 3100 1500 5, flatBar 3 3000 400 10,
    flatBar 2 500 1000 0, flatBar 1 1000 0 0]

theorem series_of_pairs {bars : List Bar} {pairs : List (Bar × ℚ)}
    (h : (adjust bars {} []).map adjustedPairs = .ok pairs) :
    ∃ series, adjust bars {} [] = .ok series ∧ adjustedPairs series = pairs := by
  cases ha : adjust bars {} [] with
  | error e => rw [ha] at h; cases h
  | ok series =>
    rw [ha] at h
    exact ⟨series, rfl, Except.ok.inj h⟩

theorem restatedHistory_returns :
    ∃ series, adjust restatedHistory {} [] = .ok series ∧
      series.adjustedCloses.length = series.tradedBars.length ∧
      (∀ (i : ℕ) (p c : Bar × ℚ), (adjustedPairs series)[i]? = some p →
        (adjustedPairs series)[i + 1]? = some c → c.1.traded = true →
        0 < p.2 ∧ 0 < c.1.priceYesterday ∧ c.2 / p.2 = c.1.finalClose / c.1.priceYesterday) ∧
      series.adjustedCloses.getLast? = series.bars.getLast?.map Bar.finalClose := by
  have hpairs : (adjust restatedHistory {} []).map adjustedPairs =
      .ok [(flatBar 3 3000 400 10, 1500 / 3100 * 1000), (flatBar 4 3100 1500 5, 1000),
        (flatBar 5 1000 3100 0, 1000), (flatBar 6 1100 1000 7, 1100)] := by decide +kernel
  obtain ⟨series, h, _⟩ := series_of_pairs hpairs
  exact ⟨series, h, adjusted_return_eq_session_return (by decide) (by decide) h⟩

/-- A bar without trades moves the adjusted series exactly when the exchange restated its
reference and its own close at once: that close is left in the series as a price move. -/
theorem untraded_bar_still_iff {bars : List Bar} {bounds : Bounds} {series : AdjustedSeries}
    (hdates : (bars.map Bar.tradeDate).Nodup) (hclose : ∀ bar ∈ bars, 0 < bar.finalClose)
    (h : adjust bars bounds [] = .ok series) {i : ℕ} {p c : Bar × ℚ}
    (hp : (adjustedPairs series)[i]? = some p) (hc : (adjustedPairs series)[i + 1]? = some c)
    (hv : c.1.volume = 0) (hn : c.1.tradeCount = 0) :
    c.2 = p.2 ↔
      ¬ (c.1.priceYesterday ≠ p.1.finalClose ∧ c.1.finalClose ≠ c.1.priceYesterday) := by
  obtain ⟨finding, factor, he, hpos, hpf, hcf, hc2, hp2⟩ := adjusted_step hdates hclose h hp hc
  rw [hc2, hp2, ← mul_assoc, mul_left_inj' hpos.ne']
  rcases examine_cases he with ⟨_, ⟨_, hs⟩, _⟩ | ⟨hne, _, _, _, rfl⟩ | ⟨heq, _, _, hpy, rfl⟩ |
    ⟨heq, ht, rfl⟩
  · rw [not_chained_without_copies] at hs; cases hs
  · rw [reference_carries hpf]
    simp [hne]
  · rw [close_carries hpy heq]
    simp [heq]
  · have hclosed : c.1.finalClose = c.1.priceYesterday :=
      ht.resolve_left (by simp [untraded_of_zero hv hn])
    rw [nothing_carries]
    simp [hclosed, heq]

def restatedTwice : List Bar := [flatBar 1 100 0 10, flatBar 2 45 50 0, flatBar 3 46 45 10]

theorem restatedTwice_pairs : (adjust restatedTwice {} []).map adjustedPairs =
    .ok [(flatBar 1 100 0 10, 50), (flatBar 2 45 50 0, 45), (flatBar 3 46 45 10, 46)] := by
  decide +kernel

theorem restatedTwice_still : ∃ series p c, adjust restatedTwice {} [] = .ok series ∧
    (adjustedPairs series)[0]? = some p ∧ (adjustedPairs series)[1]? = some c ∧
    c.1.volume = 0 ∧ c.1.tradeCount = 0 ∧
    (c.2 = p.2 ↔
      ¬ (c.1.priceYesterday ≠ p.1.finalClose ∧ c.1.finalClose ≠ c.1.priceYesterday)) := by
  obtain ⟨series, h, hpairs⟩ := series_of_pairs restatedTwice_pairs
  have hp : (adjustedPairs series)[0]? = some (flatBar 1 100 0 10, 50) := by rw [hpairs]; rfl
  have hc : (adjustedPairs series)[1]? = some (flatBar 2 45 50 0, 45) := by rw [hpairs]; rfl
  exact ⟨series, _, _, h, hp, hc, rfl, rfl,
    untraded_bar_still_iff (by decide) (by decide) h hp hc rfl rfl⟩

theorem untraded_bar_moves :
    ¬ ∀ (bars : List Bar) (series : AdjustedSeries), (bars.map Bar.tradeDate).Nodup →
      (∀ bar ∈ bars, 0 < bar.finalClose) →
      (∀ bar ∈ (byTradeDate bars).tail, 0 < bar.priceYesterday) →
      adjust bars {} [] = .ok series →
      ∀ (i : ℕ) (p c : Bar × ℚ), (adjustedPairs series)[i]? = some p →
        (adjustedPairs series)[i + 1]? = some c → c.1.volume = 0 → c.1.tradeCount = 0 →
        c.2 = p.2 := by
  intro hall
  obtain ⟨series, h, hpairs⟩ := series_of_pairs restatedTwice_pairs
  have hmove := hall restatedTwice series (by decide) (by decide) (by decide) h 0
    (flatBar 1 100 0 10, 50) (flatBar 2 45 50 0, 45) (by rw [hpairs]; rfl) (by rw [hpairs]; rfl)
    rfl rfl
  exact absurd hmove (by decide)

end TalaPala.Equities
