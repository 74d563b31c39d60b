import TalaPala.Bourse.FlowOrder
import TalaPala.Bourse.MarketCalendar

namespace TalaPala.Bourse

open Library List

theorem prod_filter_split {α M : Type*} [CommMonoid M] {p q r : α → Bool} (f : α → M) {l : List α}
    (hr : ∀ a ∈ l, r a = (p a || q a)) (hpq : ∀ a ∈ l, p a → q a = false) :
    ((l.filter r).map f).prod = ((l.filter p).map f).prod * ((l.filter q).map f).prod := by
  induction l with
  | nil => simp
  | cons a rest ih =>
    have hrest := ih (fun b hb ↦ hr b (mem_cons_of_mem a hb))
      (fun b hb ↦ hpq b (mem_cons_of_mem a hb))
    have ha := hr a mem_cons_self
    cases hp : p a with
    | true =>
      have hq := hpq a mem_cons_self hp
      rw [filter_cons_of_pos (by rw [ha, hp]; rfl), filter_cons_of_pos hp,
        filter_cons_of_neg (by rw [hq]; exact Bool.false_ne_true), map_cons,
        prod_cons, hrest, map_cons, prod_cons, mul_assoc]
    | false =>
      cases hq : q a with
      | true =>
        rw [filter_cons_of_pos (by rw [ha, hp, hq]; rfl), filter_cons_of_pos hq,
          filter_cons_of_neg (by rw [hp]; exact Bool.false_ne_true), map_cons,
          prod_cons, hrest, map_cons, prod_cons, mul_left_comm]
      | false =>
        rw [filter_cons_of_neg (by rw [ha, hp, hq]; exact Bool.false_ne_true),
          filter_cons_of_neg (by rw [hp]; exact Bool.false_ne_true),
          filter_cons_of_neg (by rw [hq]; exact Bool.false_ne_true), hrest]

section Windows

def Span.holds (w : Span) (d : Instant) : Bool := w.start ≤ d ∧ d ≤ w.stop

def PriceRow.usedIn (p : PriceRow) (w : Span) : Bool := w.holds (dayFloor p.day) ∧ p.priced

def PriceRow.isListing (p : PriceRow) (listing : Option Instant) : Bool :=
  listing.any (dayFloor p.day = dayFloor ·)

def PriceRow.movesIn (p : PriceRow) (w : Span) (listing : Option Instant) : Bool :=
  p.usedIn w && !p.isListing listing

def moves (prices : List PriceRow) (w : Span) (listing : Option Instant) : List ℚ :=
  (prices.filter (fun p ↦ p.movesIn w listing)).map PriceRow.ratio

def growth (prices : List PriceRow) (w : Span) (listing : Option Instant) : ℚ :=
  (moves prices w listing).prod

def pricedOn (prices : List PriceRow) (w : Span) (d : Instant) : Prop :=
  ∃ p ∈ prices, p.usedIn w ∧ dayFloor p.day = dayFloor d

structure Adjacent (prices : List PriceRow) (traded : List Instant) (w w' : Span) : Prop where
  ordered : w.start ≤ w.stop
  ordered' : w'.start ≤ w'.stop
  before : w.stop < w'.start
  prices : ∀ p ∈ prices, ¬(w.stop < dayFloor p.day ∧ dayFloor p.day < w'.start)
  traded : ∀ d ∈ traded, ¬(w.stop < d ∧ d < w'.start)

def Span.union (w w' : Span) : Span := ⟨w.start, w'.stop⟩

def changeOver (prices : List PriceRow) (traded : List Instant) (listing : Option Instant)
    (w : Span) : PriceChange :=
  chainLinkedChange prices (traded.filter w.holds) w listing

variable {prices : List PriceRow} {traded : List Instant} {listing : Option Instant} {w w' : Span}

theorem pct_chainLinkedChange (prices : List PriceRow) (traded : List Instant) (w : Span)
    (listing : Option Instant) : (chainLinkedChange prices traded w listing).pct =
      if traded.countP (fun d ↦ !(prices.filter (fun p ↦ p.usedIn w)).any
          (fun p ↦ dayFloor p.day = dayFloor d)) > 0 ∨ moves prices w listing = [] then none
      else some (fp ((growth prices w listing - 1) * 100)) := by
  have hused : prices.filter (fun p ↦
      w.start ≤ dayFloor p.day ∧ dayFloor p.day ≤ w.stop ∧ p.priced) =
      prices.filter (fun p ↦ p.usedIn w) := by
    refine filter_congr (fun p _ ↦ ?_)
    simp [PriceRow.usedIn, Span.holds, and_assoc]
  have hmoves : ((prices.filter (fun p ↦ p.usedIn w)).filter (fun p ↦
      !listing.any (dayFloor p.day = dayFloor ·))).map PriceRow.ratio =
      moves prices w listing := by
    rw [filter_filter, moves]
    refine congrArg _ (filter_congr (fun p _ ↦ ?_))
    rw [PriceRow.movesIn, Bool.and_comm, PriceRow.isListing]
  rw [growth]
  unfold chainLinkedChange
  simp only [hused, hmoves]
  split
  · rename_i hmissing
    rw [if_pos (.inl hmissing)]
  · rename_i hpriced
    split
    · rename_i hnone
      rw [if_pos (.inr hnone)]
    · rename_i hnone
      split <;> exact (if_pos (.inr hnone)).symm
    · rename_i hlisted hidle
      have hsome : moves prices w listing ≠ [] := by
        intro h
        cases hl : lastOf (fun p ↦ listing.any (dayFloor p.day = dayFloor ·))
            (prices.filter (fun p ↦ p.usedIn w)) with
        | none => exact hidle hl h
        | some p => exact hlisted p hl h
      rw [if_neg (not_or.mpr ⟨hpriced, hsome⟩)]

theorem unpriced_pos_iff : traded.countP (fun d ↦ !(prices.filter (fun p ↦ p.usedIn w)).any
    (fun p ↦ dayFloor p.day = dayFloor d)) > 0 ↔ ∃ d ∈ traded, ¬pricedOn prices w d := by
  rw [gt_iff_lt, countP_pos_iff]
  refine exists_congr (fun d ↦ and_congr_right (fun _ ↦ ?_))
  rw [Bool.not_eq_true', Bool.eq_false_iff, Ne, any_eq_true, pricedOn]
  simp only [mem_filter, decide_eq_true_eq, and_assoc]

theorem moves_eq_nil_iff : moves prices w listing = [] ↔
    ∀ p ∈ prices, p.usedIn w → p.isListing listing := by
  rw [moves, map_eq_nil_iff, filter_eq_nil_iff]
  refine forall₂_congr (fun p _ ↦ ?_)
  rw [PriceRow.movesIn]
  cases p.usedIn w <;> cases p.isListing listing <;> simp

theorem pct_changeOver_eq_none_iff : (changeOver prices traded listing w).pct = none ↔
    (∃ d ∈ traded, w.holds d ∧ ¬pricedOn prices w d) ∨
      ∀ p ∈ prices, p.usedIn w → p.isListing listing := by
  rw [changeOver, pct_chainLinkedChange, ite_eq_left_iff, unpriced_pos_iff, moves_eq_nil_iff]
  simp only [reduceCtorEq, imp_false, not_not, mem_filter, and_assoc]

theorem pct_changeOver_eq_some {x : ℚ} (h : (changeOver prices traded listing w).pct = some x) :
    x = fp ((growth prices w listing - 1) * 100) := by
  rw [changeOver, pct_chainLinkedChange] at h
  split at h
  · cases h
  · exact (Option.some.inj h).symm

namespace Adjacent

variable (h : Adjacent prices traded w w')

include h

theorem holds_union {d : Instant} (hd : ¬(w.stop < d ∧ d < w'.start)) :
    (w.union w').holds d = (w.holds d || w'.holds d) := by
  have hle := h.ordered
  have hle' := h.ordered'
  have hlt := h.before
  rw [Span.holds, Span.holds, Span.holds, Span.union, ← Bool.decide_or, decide_eq_decide]
  grind

theorem usedIn_union {p : PriceRow} (hp : p ∈ prices) :
    p.usedIn (w.union w') = (p.usedIn w || p.usedIn w') := by
  rw [PriceRow.usedIn, PriceRow.usedIn, PriceRow.usedIn, h.holds_union (h.prices p hp)]
  cases w.holds (dayFloor p.day) <;> cases w'.holds (dayFloor p.day) <;> simp

theorem not_usedIn {p : PriceRow} (hp : p.usedIn w) : p.usedIn w' = false := by
  have hstop : dayFloor p.day ≤ w.stop := (of_decide_eq_true (of_decide_eq_true hp).1).2
  have hbefore := h.before
  rw [Bool.eq_false_iff]
  intro hp'
  have hstart : w'.start ≤ dayFloor p.day := (of_decide_eq_true (of_decide_eq_true hp').1).1
  exact absurd (hstart.trans hstop) (not_le.mpr hbefore)

theorem growth_union (listing : Option Instant) :
    growth prices (w.union w') listing = growth prices w listing * growth prices w' listing := by
  refine prod_filter_split PriceRow.ratio (fun p hp ↦ ?_) (fun p hp hmoves ↦ ?_)
  · rw [PriceRow.movesIn, PriceRow.movesIn, PriceRow.movesIn, h.usedIn_union hp,
      Bool.and_or_distrib_right]
  · rw [PriceRow.movesIn, Bool.and_eq_true] at hmoves
    rw [PriceRow.movesIn, h.not_usedIn hmoves.1, Bool.false_and]

theorem isSome_union (hw : (changeOver prices traded listing w).pct.isSome)
    (hw' : (changeOver prices traded listing w').pct.isSome) :
    (changeOver prices traded listing (w.union w')).pct.isSome := by
  rw [Option.isSome_iff_ne_none, Ne, pct_changeOver_eq_none_iff] at hw hw' ⊢
  rintro (⟨d, hd, hheld, hnone⟩ | hlisted)
  · rw [h.holds_union (h.traded d hd), Bool.or_eq_true] at hheld
    rcases hheld with hheld | hheld
    · refine hw (.inl ⟨d, hd, hheld, fun ⟨p, hp, hused, hday⟩ ↦ hnone ⟨p, hp, ?_, hday⟩⟩)
      rw [h.usedIn_union hp, hused, Bool.true_or]
    · refine hw' (.inl ⟨d, hd, hheld, fun ⟨p, hp, hused, hday⟩ ↦ hnone ⟨p, hp, ?_, hday⟩⟩)
      rw [h.usedIn_union hp, hused, Bool.or_true]
  · refine hw (.inr (fun p hp hused ↦ hlisted p hp ?_))
    rw [h.usedIn_union hp, hused, Bool.true_or]

end Adjacent

end Windows

section Traded

theorem checkReferences_ne_noTrade (buy : ℚ) (refs : List (ValueReference × Option ℚ))
    (checked : Bool) : (checkReferences buy refs checked).1 ≠ .noTrade := by
  induction refs generalizing checked with
  | nil => cases checked <;> exact FlowTier.noConfusion
  | cons ref rest ih =>
    obtain ⟨what, value⟩ := ref
    cases value with
    | none => exact ih checked
    | some value =>
      rw [checkReferences]
      split
      · exact FlowTier.noConfusion
      · exact ih true

theorem classifyFlow_ne_noTrade {f : FlowSession} {sessionValue : Option ℚ} :
    (classifyFlow f sessionValue).1 ≠ .noTrade ↔ 0 < f.buy ∨ 0 < f.sell := by
  rw [← not_le, ← not_le, ← not_and_or, classifyFlow]
  split
  · rename_i hidle
    exact ⟨fun h ↦ absurd rfl h, fun h ↦ absurd hidle h⟩
  · rename_i hsome
    refine ⟨fun _ ↦ hsome, fun _ ↦ ?_⟩
    split
    · exact FlowTier.noConfusion
    · split
      · exact FlowTier.noConfusion
      · split
        · exact FlowTier.noConfusion
        · exact checkReferences_ne_noTrade _ _ _

namespace SectorFlowInput

variable (inp : SectorFlowInput)

def ShowsTrade (row : MarketRow) : Prop :=
  let d := dayFloor row.flow.day
  if d ∈ inp.calendar.sessions then 0 < row.flow.buy ∨ 0 < row.flow.sell
  else inp.oldestSession.any (· ≤ d) ∧ inp.newestSession.any (d ≤ ·) ∧
    0 < row.flow.buy + row.flow.sell

def tradedAll (code : String) : List Instant :=
  inp.tradedDays code inp.calendar.sessions.length ++ inp.thinTraded code

theorem pos_eq_none_iff {d : Instant} : inp.pos d = none ↔ d ∉ inp.calendar.sessions := by
  rw [pos, Option.map_eq_none_iff, lastOf, getLast?_eq_none_iff, filter_eq_nil_iff]
  constructor
  · intro h hd
    obtain ⟨i, hi⟩ := mem_iff_getElem?.mp hd
    exact h (d, i) (mem_zipIdx_iff_getElem?.mpr hi) (decide_eq_true rfl)
  · rintro h ⟨d', i⟩ hmem hd
    obtain rfl : d' = d := of_decide_eq_true hd
    exact h (mem_of_getElem? (mem_zipIdx_iff_getElem?.mp hmem))

theorem getElem?_of_mem_byShare {code : String} {r : TieredRow} (h : r ∈ inp.byShare code) :
    inp.calendar.sessions[r.idx]? = some r.day := by
  obtain ⟨row, -, -, hplace⟩ := inp.mem_byShare.mp h
  obtain ⟨i, hi, rfl⟩ := Option.map_eq_some_iff.mp hplace
  exact inp.getElem?_of_pos hi

theorem mem_tradedAll {code : String} {d : Instant} : d ∈ inp.tradedAll code ↔
    ∃ row ∈ inp.rows, row.insCode = code ∧ inp.ShowsTrade row ∧ dayFloor row.flow.day = d := by
  have hsession : d ∈ inp.tradedDays code inp.calendar.sessions.length ↔
      ∃ row ∈ inp.rows, row.insCode = code ∧ dayFloor row.flow.day ∈ inp.calendar.sessions ∧
        inp.ShowsTrade row ∧ dayFloor row.flow.day = d := by
    rw [tradedDays, mem_map]
    constructor
    · rintro ⟨r, hr, rfl⟩
      obtain ⟨hmem, hkind⟩ := mem_filter.mp hr
      have hsession := mem_of_getElem? (inp.getElem?_of_mem_byShare hmem)
      obtain ⟨row, hrow, hcode, hplace⟩ := inp.mem_byShare.mp hmem
      obtain ⟨i, -, rfl⟩ := Option.map_eq_some_iff.mp hplace
      refine ⟨row, hrow, hcode, hsession, ?_, rfl⟩
      rw [ShowsTrade, if_pos hsession]
      exact classifyFlow_ne_noTrade.mp (of_decide_eq_true hkind).2
    · rintro ⟨row, hrow, hcode, hsession, htrade, rfl⟩
      rw [ShowsTrade, if_pos hsession] at htrade
      obtain ⟨i, hi⟩ := Option.ne_none_iff_exists'.mp
        (fun h ↦ inp.pos_eq_none_iff.mp h hsession)
      have hplace : inp.place row = some ⟨i, dayFloor row.flow.day, row.flow,
          (classifyFlow row.flow row.sessionValue).1⟩ := by rw [place, hi, Option.map_some]
      have hlt : i < inp.calendar.sessions.length :=
        (List.getElem?_eq_some_iff.mp (inp.getElem?_of_pos hi)).1
      exact ⟨_, mem_filter.mpr ⟨inp.mem_byShare.mpr ⟨row, hrow, hcode, hplace⟩,
        decide_eq_true ⟨hlt, classifyFlow_ne_noTrade.mpr htrade⟩⟩, rfl⟩
  have hthin : d ∈ inp.thinTraded code ↔
      ∃ row ∈ inp.rows, row.insCode = code ∧ dayFloor row.flow.day ∉ inp.calendar.sessions ∧
        inp.ShowsTrade row ∧ dayFloor row.flow.day = d := by
    rw [thinTraded, mem_map]
    constructor
    · rintro ⟨row, hrow, rfl⟩
      obtain ⟨hmem, hkind⟩ := mem_filter.mp hrow
      obtain ⟨hmem, hcode⟩ := mem_filter.mp hmem
      obtain ⟨hpos, hthin⟩ := of_decide_eq_true hkind
      have hnot := inp.pos_eq_none_iff.mp hpos
      refine ⟨row, hmem, of_decide_eq_true hcode, hnot, ?_, rfl⟩
      rw [ShowsTrade, if_neg hnot]
      exact hthin
    · rintro ⟨row, hrow, hcode, hnot, htrade, rfl⟩
      rw [ShowsTrade, if_neg hnot] at htrade
      exact ⟨row, mem_filter.mpr ⟨mem_filter.mpr ⟨hrow, decide_eq_true hcode⟩,
        decide_eq_true ⟨inp.pos_eq_none_iff.mpr hnot, htrade⟩⟩, rfl⟩
  rw [tradedAll, mem_append, hsession, hthin]
  constructor
  · rintro (⟨row, hrow, hcode, -, h⟩ | ⟨row, hrow, hcode, -, h⟩)
    · exact ⟨row, hrow, hcode, h⟩
    · exact ⟨row, hrow, hcode, h⟩
  · rintro ⟨row, hrow, hcode, h⟩
    by_cases hd : dayFloor row.flow.day ∈ inp.calendar.sessions
    · exact .inl ⟨row, hrow, hcode, hd, h⟩
    · exact .inr ⟨row, hrow, hcode, hd, h⟩

theorem holds_iff_lt (hcal : inp.calendar.sessions.Pairwise (· > ·)) {n i : ℕ} {w : Span}
    {d : Instant} (hw : (n, w) ∈ inp.spans) (hd : inp.calendar.sessions[i]? = some d) :
    w.holds d = true ↔ i < n := by
  obtain ⟨k, hk, hspan⟩ := mem_filterMap.mp hw
  obtain ⟨w', hw', he⟩ := Option.map_eq_some_iff.mp hspan
  obtain ⟨rfl, rfl⟩ := Prod.mk.inj he
  have hpos : 0 < k := by
    revert hk
    rw [flowWindows]
    simp only [mem_cons, not_mem_nil, or_false]
    rintro (rfl | rfl | rfl | rfl) <;> decide
  rw [window, windowOn] at hw'
  split at hw'
  · cases hw'
  · simp only [spanOf] at hw'
    split at hw'
    · rename_i stop start hstop hstart
      obtain rfl := Option.some.inj hw'
      obtain ⟨hi, rfl⟩ := List.getElem?_eq_some_iff.mp hd
      obtain ⟨hzero, rfl⟩ := List.getElem?_eq_some_iff.mp hstop
      obtain ⟨hlast, rfl⟩ := List.getElem?_eq_some_iff.mp hstart
      have hlt := pairwise_iff_getElem.mp hcal
      have hnewest : inp.calendar.sessions[i] ≤ inp.calendar.sessions[0] := by
        rcases Nat.eq_zero_or_pos i with rfl | hpos'
        · exact le_refl _
        · exact (hlt 0 i hzero hi hpos').le
      rw [Span.holds, decide_eq_true_iff]
      constructor
      · rintro ⟨hle, -⟩
        by_contra hge
        exact absurd hle (not_le.mpr (hlt _ i hlast hi (by omega)))
      · intro hin
        refine ⟨?_, hnewest⟩
        rcases Nat.eq_or_lt_of_le (show i ≤ 0 + k - 1 by omega) with he | hbefore
        · simp only [he]
          exact le_refl _
        · exact (hlt i _ hi hlast hbefore).le
    · cases hw'

theorem tradedIn_eq (hcal : inp.calendar.sessions.Pairwise (· > ·)) {n : ℕ} {w : Span}
    (hw : (n, w) ∈ inp.spans) (code : String) :
    inp.tradedIn code n w = (inp.tradedAll code).filter w.holds := by
  have hdays : inp.tradedDays code n =
      (inp.tradedDays code inp.calendar.sessions.length).filter w.holds := by
    rw [tradedDays, tradedDays, filter_map, filter_filter]
    refine congrArg _ (filter_congr (fun r hr ↦ ?_))
    have hday := inp.getElem?_of_mem_byShare hr
    have hlt : r.idx < inp.calendar.sessions.length := (List.getElem?_eq_some_iff.mp hday).1
    have hholds := inp.holds_iff_lt hcal hw hday
    rw [Function.comp_apply, Bool.eq_iff_iff, Bool.and_eq_true, decide_eq_true_iff,
      decide_eq_true_iff, hholds]
    tauto
  rw [tradedIn, tradedAll, filter_append, hdays]
  rfl

end SectorFlowInput

end Traded

/-- A change is null exactly when a traded day has no price or the window none but the
listing's, and else what its priced sessions make of a unit; over windows in a row these
multiply. -/
theorem changes_chain :
    (∀ (prices : List PriceRow) (traded : List Instant) (listing : Option Instant) (w : Span),
      ((changeOver prices traded listing w).pct = none ↔
        (∃ d ∈ traded, w.holds d ∧ ¬pricedOn prices w d) ∨
          ∀ p ∈ prices, p.usedIn w → p.isListing listing) ∧
      ∀ x, (changeOver prices traded listing w).pct = some x →
        x = fp ((growth prices w listing - 1) * 100)) ∧
    (∀ (prices : List PriceRow) (traded : List Instant) (listing : Option Instant) (w w' : Span),
      Adjacent prices traded w w' → (changeOver prices traded listing w).pct.isSome →
      (changeOver prices traded listing w').pct.isSome →
        (changeOver prices traded listing (w.union w')).pct.isSome ∧
          growth prices (w.union w') listing =
            growth prices w listing * growth prices w' listing) ∧
    (∀ (inp : SectorFlowInput) (code : String), inp.calendar.sessions.Pairwise (· > ·) →
      (∀ d, d ∈ inp.tradedAll code ↔ ∃ row ∈ inp.rows,
        row.insCode = code ∧ inp.ShowsTrade row ∧ dayFloor row.flow.day = d) ∧
      ∀ n w, (n, w) ∈ inp.spans → inp.changeIn code n w =
        changeOver (inp.pricesOf code) (inp.tradedAll code) (inp.listing code) w) ∧
    ∀ (counts : List SessionCount) (keep : ℕ),
      (counts.map (fun x ↦ dayFloor x.day)).Nodup →
        (buildMarketCalendar counts keep).sessions.Pairwise (· > ·) := by
  refine ⟨fun prices traded listing w ↦ ⟨pct_changeOver_eq_none_iff,
    fun x hx ↦ pct_changeOver_eq_some hx⟩, fun prices traded listing w w' h hw hw' ↦
    ⟨h.isSome_union hw hw', h.growth_union listing⟩, fun inp code hcal ↦
    ⟨fun d ↦ inp.mem_tradedAll, fun n w hw ↦ ?_⟩, pairwise_sessions⟩
  rw [SectorFlowInput.changeIn, inp.tradedIn_eq hcal hw, changeOver]

def priceOn (day : Date) (close priceYesterday : ℚ) : PriceRow :=
  ⟨"a", day * microsPerDay, close, priceYesterday⟩

theorem risingPrices_chain :
    growth [priceOn 0 11 10, priceOn 1 12 11] (Span.union ⟨0, 0⟩ ⟨microsPerDay, microsPerDay⟩) none =
        growth [priceOn 0 11 10, priceOn 1 12 11] ⟨0, 0⟩ none *
          growth [priceOn 0 11 10, priceOn 1 12 11] ⟨microsPerDay, microsPerDay⟩ none ∧
      mixedSession.changeIn "a" 1 ⟨0, 0⟩ =
        changeOver (mixedSession.pricesOf "a") (mixedSession.tradedAll "a")
          (mixedSession.listing "a") ⟨0, 0⟩ ∧
      (buildMarketCalendar [⟨0, 0, 0, false, 0, 0, 0, 0⟩] 120).sessions.Pairwise (· > ·) := by
  obtain ⟨-, hchain, hbuild, hcalendar⟩ := changes_chain
  have hadjacent : Adjacent [priceOn 0 11 10, priceOn 1 12 11] [0, microsPerDay] ⟨0, 0⟩
      ⟨microsPerDay, microsPerDay⟩ :=
    ⟨by decide, by decide, by decide, by decide +kernel, by decide +kernel⟩
  exact ⟨(hchain _ _ none _ _ hadjacent (by decide +kernel) (by decide +kernel)).2,
    (hbuild mixedSession "a" (by decide)).2 1 _ (by decide +kernel), hcalendar _ _ (by decide)⟩

/-- A window with the listing alone has no change, a priced session without trades is in
the product, and changes multiply only before they are rounded. -/
theorem listing_alone_has_no_change :
    ((changeOver [priceOn 0 15818 420] [0] (some 0) ⟨0, 0⟩).pct = none ∧
      ∀ d ∈ [(0 : Instant)], ∃ p ∈ [priceOn 0 15818 420], p.usedIn ⟨0, 0⟩ ∧ dayFloor p.day = d) ∧
    (changeOver [priceOn 0 11 10, priceOn 1 11 10] [microsPerDay] none
      ⟨0, microsPerDay⟩).pct = some 21 ∧
    (changeOver [priceOn 0 4 3, priceOn 1 4 3] [0, microsPerDay] none ⟨0, 0⟩).pct =
        some (33333333 / 1000000) ∧
    (changeOver [priceOn 0 4 3, priceOn 1 4 3] [0, microsPerDay] none
      ⟨microsPerDay, microsPerDay⟩).pct = some (33333333 / 1000000) ∧
    (changeOver [priceOn 0 4 3, priceOn 1 4 3] [0, microsPerDay] none
      ⟨0, microsPerDay⟩).pct = some (77777778 / 1000000) ∧
    (1 + 33333333 / 1000000 / 100) * (1 + 33333333 / 1000000 / 100) ≠
      (1 + 77777778 / 1000000 / 100 : ℚ) := by
  decide +kernel

end TalaPala.Bourse
