import TalaPala.Bourse.FundCloses
import TalaPala.Equities.ActionPlans

namespace TalaPala.Bourse

open Library Library.Transition List
open Equities (Ascending Bar insertIgnore insertIgnore_fresh parseDailyList parseDailyList_ok)
open Prices (closeStamp closeStamp_lt_iff utcDate utcDate_closeStamp)

section Steps

def RoundingSteps : ℕ → ℚ → ℚ → Prop
  | 0, x, y => x = y
  | n + 1, x, y => ∃ z, RoundingSteps n x z ∧ roundingApart z y = true

theorem RoundingSteps.one {x y : ℚ} : RoundingSteps 1 x y ↔ roundingApart x y = true := by
  simp [RoundingSteps]

def carriesBetween (bars : List Bar) (after before : Date) : List Bar :=
  bars.filter (fun bar ↦ !bar.traded && decide (after < bar.tradeDate) &&
    decide (bar.tradeDate < before))

variable {bars front mid back : List Bar} {a b x y : Bar}

theorem tradeDate_inj (h : Ascending bars) (ha : a ∈ bars) (hb : b ∈ bars)
    (hdate : a.tradeDate = b.tradeDate) : a = b := by
  by_contra hne
  rcases pairwise_iff_getElem.mp h with h
  obtain ⟨i, hi, rfl⟩ := getElem_of_mem ha
  obtain ⟨j, hj, rfl⟩ := getElem_of_mem hb
  rcases lt_trichotomy i j with hij | rfl | hij
  · exact absurd hdate (h i j hi hj hij).ne
  · exact hne rfl
  · exact absurd hdate.symm (h j i hj hi hij).ne

theorem exists_between (h : Ascending bars) (ha : a ∈ bars) (hb : b ∈ bars)
    (hlt : a.tradeDate < b.tradeDate) : ∃ front mid back, bars = front ++ a :: (mid ++ b :: back) := by
  obtain ⟨front, rest, rfl⟩ := append_of_mem ha
  rcases mem_append.mp hb with hb | hb
  · have hback := (pairwise_append.mp h).2.2 b hb a mem_cons_self
    exact absurd hlt (not_lt.mpr hback.le)
  · rcases mem_cons.mp hb with rfl | hb
    · exact absurd hlt (lt_irrefl _)
    · obtain ⟨mid, back, rfl⟩ := append_of_mem hb
      exact ⟨front, mid, back, rfl⟩

theorem mem_mid (h : Ascending (front ++ a :: (mid ++ b :: back))) (hx : x ∈ mid) :
    a.tradeDate < x.tradeDate ∧ x.tradeDate < b.tradeDate := by
  have hrest := pairwise_cons.mp (pairwise_append.mp h).2.1
  exact ⟨hrest.1 x (mem_append_left _ hx), (pairwise_append.mp hrest.2).2.2 x hx b mem_cons_self⟩

theorem not_between (h : Ascending (front ++ x :: y :: back)) (ha : a ∈ front ++ x :: y :: back) :
    ¬ (x.tradeDate < a.tradeDate ∧ a.tradeDate < y.tradeDate) := by
  rintro ⟨hxa, hay⟩
  obtain ⟨-, hrest, hfront⟩ := pairwise_append.mp h
  obtain ⟨-, hrest⟩ := pairwise_cons.mp hrest
  obtain ⟨hback, -⟩ := pairwise_cons.mp hrest
  rcases mem_append.mp ha with ha | ha
  · exact absurd hxa (not_lt.mpr (hfront a ha x mem_cons_self).le)
  · rcases mem_cons.mp ha with rfl | ha
    · exact absurd hxa (lt_irrefl _)
    · rcases mem_cons.mp ha with rfl | ha
      · exact absurd hay (lt_irrefl _)
      · exact absurd hay (not_lt.mpr (hback a ha).le)

theorem carriesBetween_eq (h : Ascending (front ++ a :: (mid ++ b :: back)))
    (hmid : ∀ c ∈ mid, c.traded = false) :
    carriesBetween (front ++ a :: (mid ++ b :: back)) a.tradeDate b.tradeDate = mid := by
  obtain ⟨-, hrest, hfront⟩ := pairwise_append.mp h
  obtain ⟨-, hrest⟩ := pairwise_cons.mp hrest
  obtain ⟨-, hlast, -⟩ := pairwise_append.mp hrest
  obtain ⟨hback, -⟩ := pairwise_cons.mp hlast
  have hnone : front.filter (fun c ↦ !c.traded && decide (a.tradeDate < c.tradeDate) &&
      decide (c.tradeDate < b.tradeDate)) = [] := by
    refine filter_eq_nil_iff.mpr (fun c hc ↦ ?_)
    simp [(hfront c hc a mem_cons_self).le]
  have hafter : back.filter (fun c ↦ !c.traded && decide (a.tradeDate < c.tradeDate) &&
      decide (c.tradeDate < b.tradeDate)) = [] := by
    refine filter_eq_nil_iff.mpr (fun c hc ↦ ?_)
    simp [(hback c hc).le]
  have hall : mid.filter (fun c ↦ !c.traded && decide (a.tradeDate < c.tradeDate) &&
      decide (c.tradeDate < b.tradeDate)) = mid := by
    refine filter_eq_self.mpr (fun c hc ↦ ?_)
    simp [hmid c hc, mem_mid h hc]
  rw [carriesBetween, filter_append, hnone, nil_append, filter_cons_of_neg (by simp),
    filter_append, hall, filter_cons_of_neg (by simp), hafter, append_nil]

end Steps

section Checked

variable {closes : List FundClose} {bars front mid back : List Bar} {only : Date → Bool}
  {sessions : List Date} {a b x y c : Bar}

@[simp] theorem asStored_tradeDate : (asStored closes a).tradeDate = a.tradeDate := by
  unfold asStored
  split
  · split <;> rfl
  · rfl

@[simp] theorem asStored_priceYesterday :
    (asStored closes a).priceYesterday = a.priceYesterday := by
  unfold asStored
  split
  · split <;> rfl
  · rfl

theorem asStored_carry (h : a.traded = false) : asStored closes a = a := by
  rw [asStored, h, if_neg Bool.false_ne_true]

theorem asStored_of_none (h : storedClose closes a.tradeDate = none) : asStored closes a = a := by
  unfold asStored
  rw [h]
  split <;> rfl

theorem asStored_of_some {value : ℚ} (htraded : a.traded = true)
    (h : storedClose closes a.tradeDate = some value) :
    (asStored closes a).finalClose = value * 10 := by
  unfold asStored
  rw [if_pos htraded, h]

theorem referenceRestatements_eq_nil (h : referenceRestatements bars only sessions = []) :
    (∀ pair ∈ pairs bars, wantedPair only pair = true →
      between sessions pair.1.tradeDate pair.2.tradeDate = [] →
        roundingApart pair.2.priceYesterday pair.1.finalClose = true) ∧
    ∀ bar ∈ bars, only bar.tradeDate = true → bar.traded = false →
      roundingApart bar.finalClose bar.priceYesterday = true := by
  rw [referenceRestatements, ← length_eq_zero_iff, length_insertionSort,
    length_eq_zero_iff, append_eq_nil_iff, map_eq_nil_iff, map_eq_nil_iff] at h
  constructor
  · intro pair hpair hwanted hsessions
    have hnot := filter_eq_nil_iff.mp h.1 pair hpair
    simpa [hwanted, hsessions] using hnot
  · intro bar hbar honly htraded
    have hnot := filter_eq_nil_iff.mp h.2 bar hbar
    simpa [honly, htraded] using hnot

theorem mem_pairs_asStored (h : bars = front ++ x :: y :: back) :
    (asStored closes x, asStored closes y) ∈ pairs (bars.map (asStored closes)) := by
  have hpair : (x, y) ∈ pairs bars := by
    rw [h, pairs]
    clear h
    induction front with
    | nil => exact mem_cons_self
    | cons b front ih =>
      cases front with
      | nil => exact mem_cons_of_mem _ mem_cons_self
      | cons b' front => exact mem_cons_of_mem _ ih
  rw [pairs, ← map_tail, zip_map]
  exact mem_map.mpr ⟨(x, y), hpair, rfl⟩

theorem steps_of_checked (hasc : Ascending bars)
    (hnone : referenceRestatements (bars.map (asStored closes)) only sessions = [])
    (hsessions : ∀ s ∈ sessions, a.tradeDate < s → s < b.tradeDate →
      ∃ c ∈ bars, c.tradeDate = s)
    (hends : only a.tradeDate = true ∨ only b.tradeDate = true)
    (hmid : ∀ c ∈ mid, c.traded = false ∧ only c.tradeDate = true)
    (hbars : bars = front ++ a :: (mid ++ b :: back)) :
    RoundingSteps (2 * mid.length + 1) b.priceYesterday (asStored closes a).finalClose := by
  obtain ⟨hpairs, hcarries⟩ := referenceRestatements_eq_nil hnone
  have hpair : ∀ front' x y back', bars = front' ++ x :: y :: back' → a.tradeDate ≤ x.tradeDate →
      y.tradeDate ≤ b.tradeDate → (only x.tradeDate = true ∨ only y.tradeDate = true) →
        roundingApart y.priceYesterday (asStored closes x).finalClose = true := by
    intro front' x y back' heq hax hyb hwanted
    have hgap : between sessions x.tradeDate y.tradeDate = [] := by
      refine filter_eq_nil_iff.mpr (fun s hs hbetween ↦ ?_)
      obtain ⟨hxs, hsy⟩ := of_decide_eq_true hbetween
      obtain ⟨c, hc, rfl⟩ := hsessions s hs (hax.trans_lt hxs) (hsy.trans_le hyb)
      exact not_between (heq ▸ hasc) (heq ▸ hc) ⟨hxs, hsy⟩
    have hchecked := hpairs _ (mem_pairs_asStored heq)
    simp only [wantedPair, asStored_tradeDate, asStored_priceYesterday] at hchecked
    refine hchecked ?_ hgap
    rw [Bool.or_eq_true]
    exact hwanted.symm
  -- the walk from the first bar to the last, one carry row after the other
  have hwalk : ∀ mid' front' x, bars = front' ++ x :: (mid' ++ b :: back) → mid' <:+ mid →
      a.tradeDate ≤ x.tradeDate → (only x.tradeDate = true ∨ (mid' = [] → only b.tradeDate = true)) →
        RoundingSteps (2 * mid'.length + 1) b.priceYesterday (asStored closes x).finalClose := by
    intro mid'
    induction mid' with
    | nil =>
      intro front' x heq _ hax hx
      exact RoundingSteps.one.mpr (hpair front' x b back heq hax le_rfl (hx.imp_right (· rfl)))
    | cons c mid' ih =>
      intro front' x heq hsuffix hax hx
      have hc : c ∈ mid := hsuffix.subset mem_cons_self
      obtain ⟨hcarry, honly⟩ := hmid c hc
      have hdates := mem_mid (hbars ▸ hasc) hc
      have hsteps := ih (front' ++ [x]) c (by rw [heq, append_assoc]; rfl)
        ((suffix_cons c mid').trans hsuffix) hdates.1.le (.inl honly)
      have hown : roundingApart c.finalClose c.priceYesterday = true := by
        have hmem : c ∈ bars.map (asStored closes) := by
          refine mem_map.mpr ⟨c, ?_, asStored_carry hcarry⟩
          rw [heq]
          exact mem_append_right _ (mem_cons_of_mem _ mem_cons_self)
        exact hcarries c hmem honly hcarry
      have hlink := hpair front' x c (mid' ++ b :: back) heq hax hdates.2.le (.inr honly)
      rw [asStored_carry hcarry] at hsteps
      exact ⟨c.priceYesterday, ⟨c.finalClose, hsteps, hown⟩, hlink⟩
  refine hwalk mid front a hbars suffix_rfl le_rfl (hends.imp_right (fun h _ ↦ h))

end Checked

section Accepted

variable {store store' : FundStore} {closes : List FundClose} {call : FundCall} {bars : List Bar}
  {report : FundReport} {bar n : Bar} {day : Date} {value : ℚ}

theorem mem_settled : bar ∈ call.settled bars ↔
    bar ∈ bars ∧ bar.traded = true ∧ closeStamp bar.tradeDate ≤ call.now ∧
      ∀ day ∈ call.liveDay, bar.tradeDate < day := by
  rw [FundCall.settled, mem_filter, Bool.and_eq_true, FundCall.isSettled, Bool.and_eq_true,
    decide_eq_true_eq, FundCall.isBeforeLive, Option.all_eq_true, and_assoc]
  simp only [decide_eq_true_eq, Option.mem_def]

theorem mem_newBars : bar ∈ call.newBars closes bars ↔
    bar ∈ call.settled bars ∧ storedClose closes bar.tradeDate = none := by
  rw [FundCall.newBars, mem_filter, Option.isNone_iff_eq_none]

theorem storedClose_eq_none : storedClose closes day = none ↔
    ∀ row ∈ closes, row.observedAt ≠ closeStamp day := by
  rw [storedClose, Option.map_eq_none_iff, find?_eq_none]
  exact forall₂_congr (fun row _ ↦ by rw [decide_eq_true_eq])

theorem insert_new (hasc : Ascending bars) (hpositive : ∀ bar ∈ bars, 0 < bar.finalClose) :
    insertIgnore sameStamp FundClose.checked closes ((call.newBars closes bars).map call.row) =
      some (closes ++ (call.newBars closes bars).map call.row) := by
  refine insertIgnore_fresh (fun row hrow ↦ ?_) (fun row hrow stored hstored ↦ ?_) ?_
  · obtain ⟨bar, hbar, rfl⟩ := mem_map.mp hrow
    have hmem := (mem_settled.mp (mem_newBars.mp hbar).1).1
    exact decide_eq_true (div_pos (hpositive bar hmem) (by decide))
  · obtain ⟨bar, hbar, rfl⟩ := mem_map.mp hrow
    exact decide_eq_false (storedClose_eq_none.mp (mem_newBars.mp hbar).2 stored hstored)
  · have hnew : Ascending (call.newBars closes bars) :=
      hasc.sublist (filter_sublist.trans filter_sublist)
    refine pairwise_map.mpr (hnew.imp (fun hlt ↦ ?_))
    exact decide_eq_false (closeStamp_lt_iff.mpr hlt).ne

theorem writeFundCloses_ok (hasc : Ascending bars) (hpositive : ∀ bar ∈ bars, 0 < bar.finalClose)
    (h : writeFundCloses store call bars = .ok (store', report)) :
    store'.closes = store.closes ++ (call.newBars store.closes bars).map call.row ∧
      referenceRestatements (bars.map (asStored store.closes))
        (judged store.closes bars (call.newBars store.closes bars)) (call.sessions bars) = [] := by
  rw [writeFundCloses] at h
  dsimp only at h
  split at h
  · cases h
  · split at h
    · cases h
    · rename_i hrestatements
      split at h
      · rename_i closes raw hcloses hraw
        obtain ⟨rfl, -⟩ := Prod.mk.inj (Except.ok.inj h)
        rw [insert_new hasc hpositive] at hcloses
        exact ⟨(Option.some.inj hcloses).symm, not_not.mp hrestatements⟩
      · cases h

theorem ingestFundCloses_ok (h : ingestFundCloses store call = .ok (store', report)) :
    ∃ bars, parseDailyList call.payload "" = .ok bars ∧ Ascending bars ∧
      store'.closes = store.closes ++ (call.newBars store.closes bars).map call.row ∧
      referenceRestatements (bars.map (asStored store.closes))
        (judged store.closes bars (call.newBars store.closes bars)) (call.sessions bars) = [] := by
  rw [ingestFundCloses] at h
  split at h
  · cases h
  · rename_i bars hparse
    obtain ⟨hasc, hpositive⟩ := parseDailyList_ok hparse
    dsimp only at h
    split at h
    · cases h
    · split at h
      · cases h
      · exact ⟨bars, hparse, hasc, writeFundCloses_ok hasc hpositive h⟩

theorem asStored_of_held (hasc : Ascending bars) (hbar : bar ∈ bars) (htraded : bar.traded = true)
    (hheld : storedClose (closes ++ (call.newBars closes bars).map call.row) bar.tradeDate =
      some value) : (asStored closes bar).finalClose = value * 10 := by
  cases hstored : storedClose closes bar.tradeDate with
  | some old =>
    rw [asStored_of_some htraded hstored]
    rw [storedClose, Option.map_eq_some_iff] at hstored hheld
    obtain ⟨row, hrow, rfl⟩ := hstored
    obtain ⟨row', hrow', rfl⟩ := hheld
    rw [find?_append, hrow, Option.some_or] at hrow'
    rw [Option.some.inj hrow']
  | none =>
    rw [asStored_of_none hstored]
    rw [storedClose, Option.map_eq_some_iff] at hheld
    obtain ⟨row, hrow, rfl⟩ := hheld
    have hmem := mem_of_find?_eq_some hrow
    have hstamp : row.observedAt = closeStamp bar.tradeDate := by
      have hfound := find?_some hrow
      exact of_decide_eq_true hfound
    rcases mem_append.mp hmem with hold | hnew
    · exact absurd hstamp (storedClose_eq_none.mp hstored row hold)
    · obtain ⟨bar', hbar', rfl⟩ := mem_map.mp hnew
      have hdate : bar'.tradeDate = bar.tradeDate := by
        rw [← utcDate_closeStamp bar'.tradeDate, ← utcDate_closeStamp bar.tradeDate]
        exact congrArg utcDate hstamp
      obtain rfl := tradeDate_inj hasc (mem_settled.mp (mem_newBars.mp hbar').1).1 hbar hdate
      rw [FundCall.row, rialToToman, div_mul_cancel₀ _ (by decide)]

end Accepted

section Neighbours

structure NearestBefore (closes : List FundClose) (day e : Date) : Prop where
  stored : (storedClose closes e).isSome = true
  before : e < day
  nearest : ∀ d, (storedClose closes d).isSome = true → d < day → d ≤ e

structure NearestAfter (closes : List FundClose) (day l : Date) : Prop where
  stored : (storedClose closes l).isSome = true
  after : day < l
  nearest : ∀ d, (storedClose closes d).isSome = true → day < d → l ≤ d

def Skips (call : FundCall) (bars : List Bar) (after before : Date) : Prop :=
  ∃ session ∈ call.calendar, after < session ∧ session < before ∧
    ∀ bar ∈ bars, bar.tradeDate ≠ session

structure Chained (closes : List FundClose) (call : FundCall) (bars : List Bar) (n : Bar) :
    Prop where
  earlier : ∀ e value, NearestBefore closes n.tradeDate e → storedClose closes e = some value →
    ¬ Skips call bars e n.tradeDate →
      RoundingSteps (2 * (carriesBetween bars e n.tradeDate).length + 1) n.priceYesterday
        (value * 10)
  later : ∀ l value, NearestAfter closes n.tradeDate l →
    storedClose closes n.tradeDate = some value → ¬ Skips call bars n.tradeDate l →
      ∃ bar ∈ bars, bar.tradeDate = l ∧
        RoundingSteps (2 * (carriesBetween bars n.tradeDate l).length + 1) bar.priceYesterday
          (value * 10)

def FundCall.held (call : FundCall) (closes : List FundClose) (bars : List Bar) :
    List FundClose :=
  closes ++ (call.newBars closes bars).map call.row

structure Joined (closes : List FundClose) (bars : List Bar) (session after before : Date) :
    Prop where
  served : ∃ bar ∈ bars, bar.tradeDate = session ∧ bar.traded = true
  carries : ∀ bar ∈ bars, after < bar.tradeDate → bar.tradeDate < before →
    bar.traded = false ∧ ∀ newest ∈ newestStored closes, newest < bar.tradeDate

structure FundCall.Neighboured (call : FundCall) (closes : List FundClose) (bars : List Bar) :
    Prop where
  earlier : ∀ n ∈ call.newBars closes bars, ∀ e,
    NearestBefore (call.held closes bars) n.tradeDate e → ¬ Skips call bars e n.tradeDate →
      Joined closes bars e e n.tradeDate
  later : ∀ n ∈ call.newBars closes bars, ∀ l,
    NearestAfter (call.held closes bars) n.tradeDate l → ¬ Skips call bars n.tradeDate l →
      Joined closes bars l n.tradeDate l

variable {closes : List FundClose} {call : FundCall} {bars : List Bar} {a b n : Bar}

theorem steps_of_joined (hasc : Ascending bars)
    (hnone : referenceRestatements (bars.map (asStored closes))
      (judged closes bars (call.newBars closes bars)) (call.sessions bars) = [])
    (ha : a ∈ bars) (hb : b ∈ bars) (hlt : a.tradeDate < b.tradeDate)
    (hends : a ∈ call.newBars closes bars ∨ b ∈ call.newBars closes bars)
    (hskips : ¬ Skips call bars a.tradeDate b.tradeDate)
    (hcarries : ∀ bar ∈ bars, a.tradeDate < bar.tradeDate → bar.tradeDate < b.tradeDate →
      bar.traded = false ∧ ∀ newest ∈ newestStored closes, newest < bar.tradeDate) :
    RoundingSteps (2 * (carriesBetween bars a.tradeDate b.tradeDate).length + 1) b.priceYesterday
      (asStored closes a).finalClose := by
  obtain ⟨front, mid, back, rfl⟩ := exists_between hasc ha hb hlt
  have hmid : ∀ c ∈ mid, c ∈ front ++ a :: (mid ++ b :: back) ∧ c.traded = false ∧
      ∀ newest ∈ newestStored closes, newest < c.tradeDate := by
    intro c hc
    have hmem : c ∈ front ++ a :: (mid ++ b :: back) :=
      mem_append_right _ (mem_cons_of_mem _ (mem_append_left _ hc))
    obtain ⟨hac, hcb⟩ := mem_mid hasc hc
    exact ⟨hmem, hcarries c hmem hac hcb⟩
  have hnew : ∀ c ∈ call.newBars closes (front ++ a :: (mid ++ b :: back)),
      judged closes (front ++ a :: (mid ++ b :: back))
        (call.newBars closes (front ++ a :: (mid ++ b :: back))) c.tradeDate = true := by
    intro c hc
    rw [judged, Bool.or_eq_true]
    exact .inl (any_eq_true.mpr ⟨c, hc, decide_eq_true rfl⟩)
  rw [carriesBetween_eq hasc (fun c hc ↦ (hmid c hc).2.1)]
  refine steps_of_checked hasc hnone (fun s hs has hsb ↦ ?_)
    (hends.imp (hnew a) (hnew b)) (fun c hc ↦ ?_) rfl
  · by_contra hno
    exact hskips ⟨s, (mem_filter.mp hs).1, has, hsb, fun c hc heq ↦ hno ⟨c, hc, heq⟩⟩
  · obtain ⟨hmem, htraded, hnewest⟩ := hmid c hc
    refine ⟨htraded, ?_⟩
    rw [judged, Bool.or_eq_true]
    refine .inr (any_eq_true.mpr ⟨c, hmem, ?_⟩)
    have hall : (newestStored closes).all (fun newest ↦ newest < c.tradeDate) = true :=
      (Option.all_eq_true _ _).mpr (fun newest hmem ↦ decide_eq_true (hnewest newest hmem))
    rw [htraded, hall]
    simp

theorem newBars_traded (hn : n ∈ call.newBars closes bars) :
    n ∈ bars ∧ n.traded = true ∧ storedClose closes n.tradeDate = none := by
  obtain ⟨hsettled, hnone⟩ := mem_newBars.mp hn
  obtain ⟨hmem, htraded, -⟩ := mem_settled.mp hsettled
  exact ⟨hmem, htraded, hnone⟩

theorem FundCall.Neighboured.chained (h : call.Neighboured closes bars) (hasc : Ascending bars)
    (hnone : referenceRestatements (bars.map (asStored closes))
      (judged closes bars (call.newBars closes bars)) (call.sessions bars) = [])
    (hn : n ∈ call.newBars closes bars) : Chained (call.held closes bars) call bars n := by
  obtain ⟨hmem, htraded, hfresh⟩ := newBars_traded hn
  constructor
  · intro e value hnearest hvalue hskips
    obtain ⟨⟨bar, hbar, rfl, hbar_traded⟩, hcarries⟩ := h.earlier n hn e hnearest hskips
    rw [← asStored_of_held hasc hbar hbar_traded hvalue]
    exact steps_of_joined hasc hnone hbar hmem hnearest.before (.inr hn) hskips hcarries
  · intro l value hnearest hvalue hskips
    obtain ⟨⟨bar, hbar, rfl, -⟩, hcarries⟩ := h.later n hn l hnearest hskips
    refine ⟨bar, hbar, rfl, ?_⟩
    rw [← asStored_of_held hasc hmem htraded hvalue]
    exact steps_of_joined hasc hnone hmem hbar hnearest.after (.inl hn) hskips hcarries

end Neighbours

section Runs

def FundStore.post (store : FundStore) (call : FundCall) : FundStore :=
  match ingestFundCloses store call with
  | .error _ => store
  | .ok (store, _) => store

variable {store s : FundStore} {calls : List FundCall} {call : FundCall}

structure Settled (calls : List FundCall) (row : FundClose) : Prop where
  written : ∃ call ∈ calls, row.collectedAt = call.now ∧ row.observedAt ≤ call.now ∧
    ∀ day ∈ call.liveDay, utcDate row.observedAt < day

theorem FundStore.post_cases (s : FundStore) (call : FundCall) :
    s.post call = s ∨ ∃ report, ingestFundCloses s call = .ok (s.post call, report) := by
  rw [FundStore.post]
  split
  · exact .inl rfl
  · rename_i store report hingest
    exact .inr ⟨report, hingest⟩

theorem settled_post (h : ∀ row ∈ s.closes, Settled calls row) :
    ∀ row ∈ (s.post call).closes, Settled (calls ++ [call]) row := by
  have hold : ∀ row ∈ s.closes, Settled (calls ++ [call]) row := by
    intro row hrow
    obtain ⟨call', hcall', hrest⟩ := (h row hrow).written
    exact ⟨call', mem_append_left _ hcall', hrest⟩
  rcases s.post_cases call with heq | ⟨report, hingest⟩
  · rw [heq]
    exact hold
  · obtain ⟨bars, -, -, hcloses, -⟩ := ingestFundCloses_ok hingest
    rw [hcloses]
    refine forall_mem_append.mpr ⟨hold, fun row hrow ↦ ?_⟩
    obtain ⟨bar, hbar, rfl⟩ := mem_map.mp hrow
    obtain ⟨-, -, hnow, hlive⟩ := mem_settled.mp (mem_newBars.mp hbar).1
    refine ⟨call, mem_append_right _ mem_cons_self, rfl, hnow, fun day hday ↦ ?_⟩
    rw [FundCall.row, utcDate_closeStamp]
    exact hlive day hday

/-- Stored closes stay as they are, are out when written and lie before the live era; a
refused list writes nothing; and what is written chains to the neighbours the list joins. -/
theorem fund_closes_chain (hempty : store.closes = [])
    (hrun : Run (fun s call ↦ some (FundStore.post s call)) (fun _ _ ↦ True) store calls s) :
    (∀ row ∈ s.closes, Settled calls row) ∧ ∀ call,
      s.closes <+: (s.post call).closes ∧
      (∀ e, ingestFundCloses s call = .error e → s.post call = s) ∧
      ∀ store' report, ingestFundCloses s call = .ok (store', report) → ∃ bars,
        parseDailyList call.payload "" = .ok bars ∧
          store'.closes = s.closes ++ (call.newBars s.closes bars).map call.row ∧
            (call.Neighboured s.closes bars → ∀ n ∈ call.newBars s.closes bars,
              Chained store'.closes call bars n) := by
  constructor
  · have hstart : ∀ row ∈ store.closes, Settled [] row := by
      rw [hempty]
      exact fun row hrow ↦ absurd hrow not_mem_nil
    refine hrun.preserves_history (I := fun calls (s : FundStore) ↦
      ∀ row ∈ s.closes, Settled calls row) (fun front s call t hs _ hnext ↦ ?_) hstart
    obtain rfl := Option.some.inj hnext
    exact settled_post hs
  · intro call
    refine ⟨?_, fun e he ↦ by rw [FundStore.post, he], fun store' report hingest ↦ ?_⟩
    · rcases s.post_cases call with heq | ⟨report, hingest⟩
      · rw [heq]
      · obtain ⟨bars, -, -, hcloses, -⟩ := ingestFundCloses_ok hingest
        rw [hcloses]
        exact prefix_append _ _
    · obtain ⟨bars, hparse, hasc, hcloses, hnone⟩ := ingestFundCloses_ok hingest
      refine ⟨bars, hparse, hcloses, fun hneighbours n hn ↦ ?_⟩
      rw [hcloses]
      exact hneighbours.chained hasc hnone hn

end Runs

section Example

def fundBar (tradeDate : Date) (volume : ℤ) (reference finalClose : ℚ) : Bar where
  insCode := "34144395039913458"
  tradeDate := tradeDate
  opening := finalClose
  high := finalClose
  low := finalClose
  close := finalClose
  finalClose := finalClose
  priceYesterday := reference
  volume := volume
  tradeCount := volume
  value := volume * finalClose

def fundCall (payload : List Bar) (calendar : List Date) : FundCall where
  payload := payload
  now := closeStamp 9
  otherSince := none
  calendar := calendar

def emptyFund : FundStore where
  fund := ⟨"34144395039913458", "AYAR", "عیار", true, none, none, 0⟩
  closes := []
  raw := []

def lackingList : List Bar := [fundBar 1 5 9900 10000, fundBar 4 5 10500 10600]

def wholeList : List Bar :=
  [fundBar 1 5 9900 10000, fundBar 2 5 10000 10500, fundBar 4 5 10500 10600,
    fundBar 5 0 10600 10600, fundBar 6 5 10600 10700]

def lackingStore : FundStore := emptyFund.post (fundCall lackingList [1, 2, 4])

theorem mem_of_stored {closes : List FundClose} {day : Date}
    (h : (storedClose closes day).isSome = true) :
    day ∈ closes.map (fun row ↦ utcDate row.observedAt) := by
  obtain ⟨value, hvalue⟩ := Option.isSome_iff_exists.mp h
  obtain ⟨row, hrow, -⟩ := Option.map_eq_some_iff.mp hvalue
  refine mem_map.mpr ⟨row, mem_of_find?_eq_some hrow, ?_⟩
  have hstamp := find?_some hrow
  rw [of_decide_eq_true hstamp, utcDate_closeStamp]

theorem whole_newBars :
    (fundCall wholeList [1, 2, 4, 5, 6]).newBars lackingStore.closes wholeList =
      [fundBar 2 5 10000 10500, fundBar 6 5 10600 10700] := by
  decide +kernel

theorem whole_neighboured :
    (fundCall wholeList [1, 2, 4, 5, 6]).Neighboured lackingStore.closes wholeList := by
  have hdays : ((fundCall wholeList [1, 2, 4, 5, 6]).held lackingStore.closes wholeList).map
      (fun row ↦ utcDate row.observedAt) = [1, 4, 2, 6] := by
    decide +kernel
  constructor
  · intro n hn e hnearest _
    have hday := hdays ▸ mem_of_stored hnearest.stored
    have hbefore := hnearest.before
    have hfirst := hnearest.nearest 1 (by decide +kernel)
    have hfourth := hnearest.nearest 4 (by decide +kernel)
    rw [whole_newBars] at hn
    simp only [mem_cons, not_mem_nil, or_false] at hn hday
    rcases hn with rfl | rfl
    · obtain rfl : e = 1 := by
        rcases hday with rfl | rfl | rfl | rfl <;> simp [fundBar] at hbefore hfirst ⊢
      exact ⟨by decide +kernel, by decide +kernel⟩
    · obtain rfl : e = 4 := by
        rcases hday with rfl | rfl | rfl | rfl <;> simp [fundBar] at hbefore hfourth ⊢
      exact ⟨by decide +kernel, by decide +kernel⟩
  · intro n hn l hnearest _
    have hday := hdays ▸ mem_of_stored hnearest.stored
    have hafter := hnearest.after
    have hfourth := hnearest.nearest 4 (by decide +kernel)
    rw [whole_newBars] at hn
    simp only [mem_cons, not_mem_nil, or_false] at hn hday
    rcases hn with rfl | rfl
    · obtain rfl : l = 4 := by
        rcases hday with rfl | rfl | rfl | rfl <;> simp [fundBar] at hafter hfourth ⊢
      exact ⟨by decide +kernel, by decide +kernel⟩
    · rcases hday with rfl | rfl | rfl | rfl <;> simp [fundBar] at hafter

/-- The session that the first copy lacks comes late, between two stored ones,
and the newest one comes after a carry row. -/
theorem late_session_chains : ∃ store' report,
    ingestFundCloses lackingStore (fundCall wholeList [1, 2, 4, 5, 6]) = .ok (store', report) ∧
      store'.closes.map (fun row ↦ (utcDate row.observedAt, row.value)) =
        [(1, 1000), (4, 1060), (2, 1050), (6, 1070)] ∧
      ∀ n ∈ [fundBar 2 5 10000 10500, fundBar 6 5 10600 10700],
        Chained store'.closes (fundCall wholeList [1, 2, 4, 5, 6]) wholeList n := by
  have hrun : Run (fun s call ↦ some (FundStore.post s call)) (fun _ _ ↦ True) emptyFund
      [fundCall lackingList [1, 2, 4]] lackingStore := .cons trivial rfl (.nil _)
  have hparse : parseDailyList wholeList "" = .ok wholeList := by decide +kernel
  obtain ⟨-, hcalls⟩ := fund_closes_chain rfl hrun
  obtain ⟨-, -, hwritten⟩ := hcalls (fundCall wholeList [1, 2, 4, 5, 6])
  rcases lackingStore.post_cases (fundCall wholeList [1, 2, 4, 5, 6]) with h | ⟨report, h⟩
  · exact absurd h (by decide +kernel)
  · refine ⟨_, report, h, by decide +kernel, ?_⟩
    obtain ⟨bars, hbars, -, hchained⟩ := hwritten _ report h
    obtain rfl : wholeList = bars := Except.ok.inj (hparse.symm.trans hbars)
    rw [whole_newBars] at hchained
    exact hchained whole_neighboured

/-- The later list lacks the session that is stored, so its new close is held
against the one before it. -/
theorem lacking_list_steps :
    ¬ ∀ (store s store' : FundStore) (calls : List FundCall) (call : FundCall)
      (report : FundReport) (bars : List Bar), store.closes = [] →
      Run (fun s call ↦ some (FundStore.post s call)) (fun _ _ ↦ True) store calls s →
      ingestFundCloses s call = .ok (store', report) →
      parseDailyList call.payload "" = .ok bars →
      ∀ n ∈ call.newBars s.closes bars, Chained store'.closes call bars n := by
  intro h
  let first := fundCall [fundBar 1 5 9900 10000, fundBar 2 5 10000 10500] []
  let later := fundCall [fundBar 1 5 9900 10000, fundBar 3 5 10000 10000] []
  have hrun : Run (fun s call ↦ some (FundStore.post s call)) (fun _ _ ↦ True) emptyFund
      [first] (emptyFund.post first) := .cons trivial rfl (.nil _)
  rcases (emptyFund.post first).post_cases later with hsame | ⟨report, hingest⟩
  · exact absurd hsame (by decide +kernel)
  · have hparse : parseDailyList later.payload "" = .ok later.payload := by decide +kernel
    have hchained := h emptyFund _ _ _ later report later.payload rfl hrun hingest hparse
      (fundBar 3 5 10000 10000) (by decide +kernel)
    have hnearest : NearestBefore ((emptyFund.post first).post later).closes 3 2 := by
      refine ⟨by decide +kernel, by decide, fun d _ hd ↦ Int.lt_add_one_iff.mp hd⟩
    have hsteps := hchained.earlier 2 1050 hnearest (by decide +kernel)
      (fun ⟨_, hsession, _⟩ ↦ absurd hsession not_mem_nil)
    have hcarries : carriesBetween later.payload 2 3 = [] := by decide +kernel
    rw [show (fundBar 3 5 10000 10000).tradeDate = 3 from rfl, hcarries] at hsteps
    have hapart : ¬ RoundingSteps 1 10000 (1050 * 10) := by
      rw [RoundingSteps.one]
      decide +kernel
    exact hapart hsteps

end Example

end TalaPala.Bourse
