import TalaPala.Library.Selection
import TalaPala.Library.Grid
import Mathlib.Algebra.Order.Field.Rat
import Mathlib.Data.String.Basic

namespace TalaPala.Chart

open Library List

inductive IntervalId
  | minutes5 | minutes10 | minutes15 | minutes20 | minutes30 | minutes45
  | hours1 | hours2 | hours3 | hours4 | hours6 | hours8 | hours12
  | days1 | days2 | days3 | week1
  deriving DecidableEq

def intervalSeconds : IntervalId → ℤ
  | .minutes5 => 300
  | .minutes10 => 600
  | .minutes15 => 900
  | .minutes20 => 1200
  | .minutes30 => 1800
  | .minutes45 => 2700
  | .hours1 => 3600
  | .hours2 => 7200
  | .hours3 => 10800
  | .hours4 => 14400
  | .hours6 => 21600
  | .hours8 => 28800
  | .hours12 => 43200
  | .days1 => 86400
  | .days2 => 2 * 86400
  | .days3 => 3 * 86400
  | .week1 => 7 * 86400

def defaultBars : IntervalId → ℕ
  | .minutes5 | .minutes10 | .minutes15 => 480
  | .hours1 | .days1 => 500
  | .week1 => 300
  | _ => 400

theorem intervalSeconds_pos (id : IntervalId) : 0 < intervalSeconds id := by
  cases id <;> decide

/-- The pair a store is keyed by, `${symbol}|${interval}`. -/
structure ChartKey where
  symbol : String
  interval : IntervalId
  deriving DecidableEq

/-- Null for a series of ticks, which is never restated. -/
abbrev Revision := Option String

/-- A bucket as it is served; `origin`, what it was served for, is not read by the
client. -/
structure ChartCandle where
  t : ℤ
  open_ : Option ℚ
  high : Option ℚ
  low : Option ℚ
  close : ℚ
  ticks : Option ℕ
  confirmed : Option Bool
  traded : Option Bool
  unchanged : Option Bool
  origin : ChartKey × Revision

def times (candles : List ChartCandle) : List ℤ := candles.map ChartCandle.t

theorem times_append (l l' : List ChartCandle) : times (l ++ l') = times l ++ times l' :=
  map_append

theorem mem_times {l : List ChartCandle} {x : ℤ} : x ∈ times l ↔ ∃ c ∈ l, c.t = x :=
  mem_map

def sortedByTime (candles : List ChartCandle) : List ChartCandle := ascending ChartCandle.t candles

def sameBar (a b : ChartCandle) : Bool :=
  a.open_ = b.open_ ∧ a.high = b.high ∧ a.low = b.low ∧ a.close = b.close ∧ a.ticks = b.ticks ∧
    a.confirmed = b.confirmed ∧ a.traded = b.traded ∧ a.unchanged = b.unchanged

/-- The binary search, `lo` included and `hi` not; every round halves what is left. -/
def searchTime (candles : List ChartCandle) (t : ℤ) : ℕ → ℕ → ℕ → Option ℕ
  | 0, _, _ => none
  | fuel + 1, lo, hi =>
    if lo < hi then
      let mid := (lo + hi - 1) / 2
      match candles[mid]? with
      | none => none
      | some v =>
        if v.t = t then some mid
        else if v.t < t then searchTime candles t fuel (mid + 1) hi
        else searchTime candles t fuel lo mid
    else none

def indexOfTime (candles : List ChartCandle) (t : ℤ) : Option ℕ :=
  searchTime candles t candles.length 0 candles.length

def mergeOlder (older current : List ChartCandle) : List ChartCandle :=
  sortedByTime (older.filter (fun c ↦ c.t ∉ times current)) ++ current

def patchBar (out : List ChartCandle) (bar : ChartCandle) : List ChartCandle :=
  match out.getLast? with
  | none => out ++ [bar]
  | some last =>
    if last.t < bar.t then out ++ [bar]
    else
      match indexOfTime out bar.t with
      | none => out
      | some i => if out[i]?.any (sameBar · bar) then out else out.set i bar

def patchTail (current fresh : List ChartCandle) : List ChartCandle :=
  if current = [] then sortedByTime fresh else (sortedByTime fresh).foldl patchBar current

section Search

theorem searchTime_spec {candles : List ChartCandle} {t : ℤ}
    (h : candles.Pairwise (fun a b ↦ a.t < b.t)) {fuel lo hi : ℕ} (hfuel : hi ≤ lo + fuel)
    (hhi : hi ≤ candles.length) :
    match searchTime candles t fuel lo hi with
    | some i => ∃ c, candles[i]? = some c ∧ c.t = t
    | none => ∀ i c, lo ≤ i → i < hi → candles[i]? = some c → c.t ≠ t := by
  induction fuel generalizing lo hi with
  | zero => exact fun i _ hlo hi' ↦ absurd (hlo.trans_lt hi') (by omega)
  | succ fuel ih =>
    rw [searchTime]
    by_cases hlt : lo < hi
    · rw [if_pos hlt]
      have hmid : (lo + hi - 1) / 2 < candles.length := by omega
      have hlt' : ∀ {i j : ℕ} {a b : ChartCandle}, i < j → candles[i]? = some a →
          candles[j]? = some b → a.t < b.t := by
        intro i j a b hij ha hb
        obtain ⟨hi', rfl⟩ := List.getElem?_eq_some_iff.mp ha
        obtain ⟨hj', rfl⟩ := List.getElem?_eq_some_iff.mp hb
        exact pairwise_iff_getElem.mp h i j hi' hj' hij
      generalize hm : (lo + hi - 1) / 2 = mid at hmid ⊢
      have hv : candles[mid]? = some candles[mid] := getElem?_eq_getElem hmid
      simp only [hv]
      by_cases heq : candles[mid].t = t
      · rw [if_pos heq]
        exact ⟨_, hv, heq⟩
      · rw [if_neg heq]
        by_cases hless : candles[mid].t < t
        · rw [if_pos hless]
          have hrest := @ih (mid + 1) hi (by omega) hhi
          split at hrest
          · exact hrest
          · rename_i hnone
            intro i c hlo hi' hc
            rcases lt_trichotomy i mid with hi | rfl | hi
            · exact ((hlt' hi hc hv).trans hless).ne
            · rw [hv] at hc
              exact Option.some.inj hc ▸ heq
            · exact hrest i c hi hi' hc
        · rw [if_neg hless]
          have hrest := @ih lo mid (by omega) (by omega)
          split at hrest
          · exact hrest
          · rename_i hnone
            intro i c hlo hi' hc
            rcases lt_trichotomy i mid with hi | rfl | hi
            · exact hrest i c hlo hi hc
            · rw [hv] at hc
              exact Option.some.inj hc ▸ heq
            · exact ((lt_of_le_of_ne (not_lt.mp hless) (Ne.symm heq)).trans (hlt' hi hv hc)).ne'
    · rw [if_neg hlt]
      exact fun i _ hlo hi' ↦ absurd (hlo.trans_lt hi') hlt

theorem indexOfTime_spec {candles : List ChartCandle} {t : ℤ}
    (h : candles.Pairwise (fun a b ↦ a.t < b.t)) :
    match indexOfTime candles t with
    | some i => ∃ c, candles[i]? = some c ∧ c.t = t
    | none => ∀ c ∈ candles, c.t ≠ t := by
  have hspec := searchTime_spec (t := t) h (Nat.le_add_left _ 0) (le_refl candles.length)
  rw [indexOfTime]
  split at hspec
  · exact hspec
  · intro c hc
    obtain ⟨i, hi⟩ := mem_iff_getElem?.mp hc
    exact hspec i c (Nat.zero_le i) (List.getElem?_eq_some_iff.mp hi).1 hi

end Search

section Patch

theorem sameBar_self (c : ChartCandle) : sameBar c c = true := by simp [sameBar]

abbrev Ascending (candles : List ChartCandle) : Prop := candles.Pairwise (fun a b ↦ a.t < b.t)

theorem ascending_times {l : List ChartCandle} : (times l).Pairwise (· < ·) ↔ Ascending l :=
  pairwise_map

theorem Ascending.eq_of_t {l : List ChartCandle} (h : Ascending l) {a b : ChartCandle} (ha : a ∈ l)
    (hb : b ∈ l) (ht : a.t = b.t) : a = b :=
  AscendingBy.eq_of_start h ha hb ht

theorem sortedByTime_of_ascending {l : List ChartCandle} (h : Ascending l) : sortedByTime l = l := by
  have hnodup : (l.map ChartCandle.t).Nodup := pairwise_map.mpr (h.imp ne_of_lt)
  exact (ascending_of_nodup hnodup).ext h (fun c ↦ (ascending_perm l).mem_iff)

def replaced (bar c : ChartCandle) : ChartCandle :=
  if c.t = bar.t ∧ sameBar c bar = false then bar else c

theorem replaced_t (bar c : ChartCandle) : (replaced bar c).t = c.t := by
  rw [replaced]
  split
  · rename_i h
    exact h.1.symm
  · rfl

theorem patchBar_eq {out : List ChartCandle} (h : Ascending out) {last : ChartCandle}
    (hlast : out.getLast? = some last) (bar : ChartCandle) :
    patchBar out bar = if last.t < bar.t then out ++ [bar] else out.map (replaced bar) := by
  rw [patchBar, hlast]
  by_cases hlt : last.t < bar.t
  · simp only [if_pos hlt]
  simp only [if_neg hlt]
  have hspec := indexOfTime_spec (t := bar.t) h
  have hkept : ∀ l : List ChartCandle, (∀ c ∈ l, replaced bar c = c) → l.map (replaced bar) = l :=
    fun l hl ↦ (map_congr_left hl).trans l.map_id
  split
  · rename_i hnone
    rw [hnone] at hspec
    exact (hkept out (fun c hc ↦ if_neg (fun hr ↦ hspec c hc hr.1))).symm
  · rename_i i hsome
    rw [hsome] at hspec
    obtain ⟨c, hc, ht⟩ := hspec
    have hcmem := mem_of_getElem? hc
    simp only [hc, Option.any_some]
    cases hsame : sameBar c bar with
    | true =>
      rw [if_pos rfl]
      refine (hkept out (fun b hb ↦ if_neg (fun hr ↦ ?_))).symm
      rw [h.eq_of_t hb hcmem (hr.1.trans ht.symm), hsame] at hr
      exact absurd hr.2 (by decide)
    | false =>
      rw [if_neg (by decide)]
      refine ext_getElem? (fun j ↦ ?_)
      rw [getElem?_map, getElem?_set]
      obtain ⟨hi, hget⟩ := List.getElem?_eq_some_iff.mp hc
      by_cases hij : i = j
      · subst hij
        rw [if_pos rfl, if_pos hi, hc, Option.map_some, replaced, if_pos ⟨ht, hsame⟩]
      · rw [if_neg hij]
        cases hj : out[j]? with
        | none => rfl
        | some b =>
          obtain ⟨hj', rfl⟩ := List.getElem?_eq_some_iff.mp hj
          have hne : out[j].t ≠ bar.t := by
            rw [← ht, ← hget]
            rcases lt_or_gt_of_ne hij with hlt | hlt
            · exact (pairwise_iff_getElem.mp h i j hi hj' hlt).ne'
            · exact (pairwise_iff_getElem.mp h j i hj' hi hlt).ne
          rw [Option.map_some, replaced, if_neg (fun hr ↦ hne hr.1)]

theorem times_map_replaced (bar : ChartCandle) (l : List ChartCandle) :
    times (l.map (replaced bar)) = times l := by
  rw [times, times, map_map]
  exact map_congr_left (fun c _ ↦ replaced_t bar c)

theorem getLast?_map_replaced {l : List ChartCandle} {last : ChartCandle} (bar : ChartCandle)
    (h : l.getLast? = some last) : (l.map (replaced bar)).getLast? = some (replaced bar last) := by
  rw [getLast?_map, h, Option.map_some]

theorem mem_patchBar {out : List ChartCandle} (h : Ascending out) {last : ChartCandle}
    (hlast : out.getLast? = some last) {bar c : ChartCandle} (hc : c ∈ patchBar out bar) :
    c ∈ out ∨ c = bar := by
  rw [patchBar_eq h hlast] at hc
  split at hc
  · exact (mem_append.mp hc).imp_right mem_singleton.mp
  · obtain ⟨b, hb, rfl⟩ := mem_map.mp hc
    rw [replaced]
    split
    · exact .inr rfl
    · exact .inl hb

theorem patchBar_spec {out : List ChartCandle} (h : Ascending out) {last : ChartCandle}
    (hlast : out.getLast? = some last) (bar : ChartCandle) :
    Ascending (patchBar out bar) ∧
      times (patchBar out bar) = times out ++ if last.t < bar.t then [bar.t] else [] := by
  have hmax : ∀ c ∈ out, c.t ≤ last.t := by
    obtain ⟨front, rfl⟩ := getLast?_eq_some_iff.mp hlast
    intro c hc
    rcases mem_append.mp hc with hc | hc
    · exact ((pairwise_append.mp h).2.2 c hc last (mem_singleton_self _)).le
    · exact le_of_eq (congrArg ChartCandle.t (mem_singleton.mp hc))
  rw [patchBar_eq h hlast]
  by_cases hlt : last.t < bar.t
  · rw [if_pos hlt, if_pos hlt]
    refine ⟨pairwise_append.mpr ⟨h, pairwise_singleton _ _, fun c hc b hb ↦ ?_⟩, times_append _ _⟩
    rw [mem_singleton.mp hb]
    exact (hmax c hc).trans_lt hlt
  · rw [if_neg hlt, if_neg hlt, append_nil]
    have ht := times_map_replaced bar out
    exact ⟨ascending_times.mp (ht ▸ ascending_times.mpr h), ht⟩

theorem getLast?_patchBar {out : List ChartCandle} (h : Ascending out) {last : ChartCandle}
    (hlast : out.getLast? = some last) (bar : ChartCandle) :
    ∃ last', (patchBar out bar).getLast? = some last' ∧ last'.t = max last.t bar.t := by
  rw [patchBar_eq h hlast]
  by_cases hlt : last.t < bar.t
  · rw [if_pos hlt]
    exact ⟨bar, by simp, (max_eq_right hlt.le).symm⟩
  · rw [if_neg hlt]
    exact ⟨_, getLast?_map_replaced bar hlast,
      (replaced_t bar last).trans (max_eq_left (not_lt.mp hlt)).symm⟩

theorem foldl_patchBar {fresh out : List ChartCandle} (hf : Ascending fresh) (h : Ascending out)
    {last : ChartCandle} (hlast : out.getLast? = some last) :
    Ascending (fresh.foldl patchBar out) ∧
      times (fresh.foldl patchBar out) =
        times out ++ (times fresh).filter (fun x ↦ last.t < x) ∧
      ∀ c ∈ fresh.foldl patchBar out, c ∈ out ∨ c ∈ fresh := by
  induction fresh generalizing out last with
  | nil => exact ⟨h, by simp [times], fun c hc ↦ .inl hc⟩
  | cons bar rest ih =>
    obtain ⟨hbar, hrest⟩ := pairwise_cons.mp hf
    obtain ⟨hasc, htimes⟩ := patchBar_spec h hlast bar
    obtain ⟨last', hlast', hmax⟩ := getLast?_patchBar h hlast bar
    obtain ⟨hasc', htimes', hmem'⟩ := ih hrest hasc hlast'
    refine ⟨hasc', ?_, fun c hc ↦ ?_⟩
    · rw [foldl_cons, htimes', htimes, hmax]
      by_cases hlt : last.t < bar.t
      · have hall : ∀ x ∈ times rest, last.t < x ∧ bar.t < x := by
          intro x hx
          obtain ⟨c, hc, rfl⟩ := mem_times.mp hx
          exact ⟨hlt.trans (hbar c hc), hbar c hc⟩
        rw [max_eq_right hlt.le, if_pos hlt, append_assoc]
        have hkeep (b : ℤ) (hb : ∀ x ∈ times rest, b < x) :
            (times rest).filter (fun x ↦ b < x) = times rest :=
          filter_eq_self.mpr (fun x hx ↦ decide_eq_true (hb x hx))
        rw [hkeep bar.t (fun x hx ↦ (hall x hx).2)]
        have hcons : times (bar :: rest) = bar.t :: times rest := rfl
        rw [hcons, filter_cons_of_pos (by simpa using hlt),
          hkeep last.t (fun x hx ↦ (hall x hx).1)]
        rfl
      · have hcons : times (bar :: rest) = bar.t :: times rest := rfl
        rw [max_eq_left (not_lt.mp hlt), if_neg hlt, append_nil, hcons,
          filter_cons_of_neg (by simpa using hlt)]
    · rcases hmem' c hc with hc | hc
      · rcases mem_patchBar h hlast hc with hc | rfl
        · exact .inl hc
        · exact .inr mem_cons_self
      · exact .inr (mem_cons_of_mem bar hc)

def Brings (held : List ChartCandle) (bar : ChartCandle) : Prop :=
  (∀ last ∈ held.getLast?, last.t < bar.t) ∨ ∃ c ∈ held, c.t = bar.t ∧ sameBar c bar = false

theorem mem_foldl_patchBar {fresh out : List ChartCandle} (h : Ascending out)
    {last : ChartCandle} (hlast : out.getLast? = some last) {c : ChartCandle} (hc : c ∈ out)
    (hlater : ∀ bar ∈ fresh, c.t < bar.t) : c ∈ fresh.foldl patchBar out := by
  induction fresh generalizing out last with
  | nil => exact hc
  | cons bar rest ih =>
    obtain ⟨hasc, -⟩ := patchBar_spec h hlast bar
    obtain ⟨last', hlast', -⟩ := getLast?_patchBar h hlast bar
    refine ih hasc hlast' ?_ (fun b hb ↦ hlater b (mem_cons_of_mem bar hb))
    rw [patchBar_eq h hlast]
    split
    · exact mem_append_left _ hc
    · refine mem_map.mpr ⟨c, hc, if_neg (fun hr ↦ ?_)⟩
      exact absurd hr.1 (hlater bar mem_cons_self).ne

theorem foldl_patchBar_eq_iff {fresh out : List ChartCandle} (hf : Ascending fresh)
    (h : Ascending out) {last : ChartCandle} (hlast : out.getLast? = some last) :
    fresh.foldl patchBar out = out ↔ ∀ bar ∈ fresh, ¬Brings out bar := by
  have hlastmem := mem_of_getLast? hlast
  induction fresh with
  | nil => exact ⟨fun _ bar hbar ↦ absurd hbar not_mem_nil, fun _ ↦ rfl⟩
  | cons bar rest ih =>
    obtain ⟨hbar, hrest⟩ := pairwise_cons.mp hf
    obtain ⟨hasc, -⟩ := patchBar_spec h hlast bar
    obtain ⟨last', hlast', -⟩ := getLast?_patchBar h hlast bar
    by_cases hb : Brings out bar
    · refine ⟨fun heq ↦ ?_, fun hno ↦ absurd hb (hno bar mem_cons_self)⟩
      have hmem : bar ∈ patchBar out bar := by
        rw [patchBar_eq h hlast]
        split
        · simp
        · rename_i hlt
          obtain hpast | ⟨c, hc, ht, hsame⟩ := hb
          · exact absurd (hpast last hlast) hlt
          · exact mem_map.mpr ⟨c, hc, if_pos ⟨ht, hsame⟩⟩
      have hheld : bar ∈ out := heq ▸ mem_foldl_patchBar hasc hlast' hmem hbar
      obtain hpast | ⟨c, hc, ht, hsame⟩ := hb
      · obtain ⟨front, rfl⟩ := getLast?_eq_some_iff.mp hlast
        have hlt := hpast last hlast
        rcases mem_append.mp hheld with hm | hm
        · exact absurd ((pairwise_append.mp h).2.2 bar hm last (mem_singleton_self _))
            hlt.asymm
        · rw [mem_singleton.mp hm] at hlt
          exact absurd hlt (lt_irrefl _)
      · rw [h.eq_of_t hc hheld ht, sameBar_self] at hsame
        cases hsame
    · have hsame : patchBar out bar = out := by
        rw [patchBar_eq h hlast, if_neg (fun hlt ↦ hb (.inl (fun l hl ↦ by
          rwa [Option.some.inj (hlast.symm.trans hl)] at hlt)))]
        refine (map_congr_left (fun c hc ↦ if_neg (fun hr ↦ ?_))).trans out.map_id
        exact hb (.inr ⟨c, hc, hr⟩)
      rw [foldl_cons, hsame, forall_mem_cons]
      exact (ih hrest).trans ⟨fun hno ↦ ⟨hb, hno⟩, And.right⟩

theorem patchTail_eq_iff {current fresh : List ChartCandle} (hf : Ascending fresh)
    (h : Ascending current) :
    patchTail current fresh = current ↔ ∀ bar ∈ fresh, ¬Brings current bar := by
  rw [patchTail, sortedByTime_of_ascending hf]
  by_cases hnil : current = []
  · subst hnil
    rw [if_pos rfl]
    constructor
    · rintro rfl bar hbar
      exact absurd hbar not_mem_nil
    · intro hno
      refine eq_nil_iff_forall_not_mem.mpr (fun bar hbar ↦ hno bar hbar (.inl ?_))
      exact fun last hlast ↦ nomatch hlast
  · rw [if_neg hnil]
    exact foldl_patchBar_eq_iff hf h (getLast?_eq_some_getLast hnil)

end Patch

end TalaPala.Chart
