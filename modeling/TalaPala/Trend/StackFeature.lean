import TalaPala.Trend.Resample
import TalaPala.Library.Trailing

namespace TalaPala.Trend

open Library List

def emaFrom (k : ℚ) (current : ℚ) : List ℚ → List (Option ℚ)
  | [] => []
  | value :: rest =>
    let next := (value - current) * k + current
    some next :: emaFrom k next rest

def emaSeries (values : List ℚ) (period : ℕ) : List (Option ℚ) :=
  if period = 0 ∨ values.length < period then values.map (fun _ ↦ none)
  else
    let k : ℚ := 2 / (period + 1)
    let seed := (values.take period).sum / period
    List.replicate (period - 1) none ++ some seed :: emaFrom k seed (values.drop period)

def cellLt : Option ℚ → Option ℚ → Bool
  | some a, some b => a < b
  | _, _ => false

def stackCell (close fast mid slow : Option ℚ) : Option ℤ :=
  let bullish := cellLt fast close && cellLt mid fast && cellLt slow mid
  let bearish := cellLt close fast && cellLt fast mid && cellLt mid slow
  let state := if bullish then 1 else if bearish then -1 else 0
  if fast.isNone || mid.isNone || slow.isNone || close.isNone then none else some state

def stackState (close fast mid slow : List (Option ℚ)) : List (Option ℤ) :=
  List.zipWith (fun (close, fast) (mid, slow) ↦ stackCell close fast mid slow)
    (close.zip fast) (mid.zip slow)

def runFrom (count : ℤ) (previous : Option ℤ) : List (Option ℤ) → List (Option ℤ)
  | [] => []
  | none :: rest => none :: runFrom 0 none rest
  | some current :: rest =>
    let count := if some current = previous then count + 1 else 1
    some (current * count) :: runFrom count (some current) rest

def stackRun (state : List (Option ℤ)) : List (Option ℤ) := runFrom 0 none state

def trendStack (close : List ℚ) (fast mid slow : ℕ) : List (Option ℤ) × List (Option ℤ) :=
  let state := stackState (close.map some) (emaSeries close fast) (emaSeries close mid)
    (emaSeries close slow)
  (state, stackRun state)

section Averages

variable {period : ℕ} {values : List ℚ}

theorem ema_concat (hpos : period ≠ 0) (hlen : period ≤ values.length) (value : ℚ) :
    ema (values ++ [value]) period =
      (ema values period).map (fun current ↦
        (value - current) * (2 / (period + 1)) + current) := by
  have hlong : ¬ (period = 0 ∨ values.length < period) := not_or.mpr ⟨hpos, not_lt.mpr hlen⟩
  have hlonger : ¬ (period = 0 ∨ (values ++ [value]).length < period) := by
    rw [length_append]
    exact not_or.mpr ⟨hpos, by omega⟩
  rw [ema, ema, if_neg hlong, if_neg hlonger, take_append_of_le_length hlen,
    drop_append_of_le_length hlen]
  dsimp only
  rw [foldl_append, Option.map_some]
  rfl

theorem emaFrom_eq {current : ℚ} (hpos : period ≠ 0) (hlen : period ≤ values.length)
    (hcurrent : ema values period = some current) (rest : List ℚ) :
    emaFrom (2 / (period + 1)) current rest = alongFrom (ema · period) values rest := by
  induction rest generalizing values current with
  | nil => rfl
  | cons value rest ih =>
    have hnext := ema_concat hpos hlen value
    rw [hcurrent, Option.map_some] at hnext
    rw [emaFrom, alongFrom, hnext, ih (by rw [length_append]; omega) hnext]

theorem along_short {done rest : List ℚ} (h : period = 0 ∨ (done ++ rest).length < period) :
    alongFrom (ema · period) done rest = List.replicate rest.length none := by
  induction rest generalizing done with
  | nil => rfl
  | cons value rest ih =>
    have hrest : period = 0 ∨ ((done ++ [value]) ++ rest).length < period := by
      rwa [← append_cons]
    have hnone : ema (done ++ [value]) period = none := by
      refine if_pos (hrest.imp id (fun hlt ↦ ?_))
      rw [length_append] at hlt
      omega
    rw [alongFrom, hnone, ih hrest, length_cons, replicate_succ]

theorem emaSeries_eq_along (values : List ℚ) (period : ℕ) :
    emaSeries values period = along (ema · period) values := by
  by_cases hshort : period = 0 ∨ values.length < period
  · rw [emaSeries, if_pos hshort, along, along_short hshort, map_const']
  · obtain ⟨hpos, hlen⟩ := not_or.mp hshort
    have hlen : period ≤ values.length := not_lt.mp hlen
    have hseed : ema (values.take period) period = some ((values.take period).sum / period) := by
      have hlong : ¬ (period = 0 ∨ (values.take period).length < period) := by
        rw [length_take]
        omega
      rw [ema, if_neg hlong, drop_eq_nil_of_le (by rw [length_take]; omega),
        take_take, min_self]
      rfl
    have hlast : (values.take (period - 1)) ++ [values[period - 1]] = values.take period := by
      rw [take_concat_get', Nat.sub_add_cancel (Nat.pos_of_ne_zero hpos)]
    have hsplit : values = values.take (period - 1) ++ values[period - 1] :: values.drop period := by
      rw [append_cons, hlast, take_append_drop]
    have hbefore : ([] ++ values.take (period - 1)).length < period := by
      rw [nil_append, length_take]
      omega
    rw [emaSeries, if_neg hshort, along]
    conv_rhs => rw [hsplit, alongFrom_append, along_short (.inr hbefore), nil_append,
      alongFrom, hlast, hseed]
    dsimp only
    rw [emaFrom_eq hpos (by rw [length_take]; omega) hseed, length_take,
      min_eq_left (by omega)]

end Averages

section Stack

variable {close : List ℚ} {fast mid slow : List ℚ → Option ℚ}

def stateCell : TrendState → Option ℤ
  | .bullish => some 1
  | .bearish => some (-1)
  | .neutral => some 0
  | .unavailable => none

theorem stackCell_eq (price fast mid slow : Option ℚ) :
    stackCell price fast mid slow = stateCell (trendState price fast mid slow) := by
  cases price with
  | none => simp [stackCell, trendState, stateCell]
  | some price =>
    cases fast with
    | none => rfl
    | some fast =>
      cases mid with
      | none => rfl
      | some mid =>
        cases slow with
        | none => rfl
        | some slow =>
          by_cases hup : fast < price ∧ mid < fast ∧ slow < mid
          · simp [stackCell, cellLt, trendState, stateCell, hup]
          · by_cases hdown : price < fast ∧ fast < mid ∧ mid < slow
            · simp [stackCell, cellLt, trendState, stateCell, hup, hdown, and_assoc]
            · simp [stackCell, cellLt, trendState, stateCell, hup, hdown, and_assoc]

theorem getElem?_stackState {t : ℕ} (h : t < close.length) :
    (stackState (close.map some) (along fast close) (along mid close) (along slow close))[t]? =
      some (stateCell (trendState close[t] (fast (close.take (t + 1)))
        (mid (close.take (t + 1))) (slow (close.take (t + 1))))) := by
  have hprice : (close.map some)[t]? = some (some close[t]) := by
    rw [getElem?_map, getElem?_eq_getElem h, Option.map_some]
  have hleft : ((close.map some).zip (along fast close))[t]? =
      some (some close[t], fast (close.take (t + 1))) :=
    getElem?_zip_eq_some.mpr ⟨hprice, getElem?_along h⟩
  have hright : ((along mid close).zip (along slow close))[t]? =
      some (mid (close.take (t + 1)), slow (close.take (t + 1))) :=
    getElem?_zip_eq_some.mpr ⟨getElem?_along h, getElem?_along h⟩
  rw [stackState, getElem?_zipWith, hleft, hright]
  exact congrArg some (stackCell_eq _ _ _ _)

end Stack

section Run

/-- The rows end with exactly `n` rows of one state. -/
def HeldFor (rows : List (Option ℤ)) (state : ℤ) (n : ℕ) : Prop :=
  0 < n ∧ ∃ front, rows = front ++ List.replicate n (some state) ∧
    front.getLast? ≠ some (some state)

def Counted (rows : List (Option ℤ)) (count : ℤ) : Option ℤ → Prop
  | none => ∀ state, rows.getLast? ≠ some (some state)
  | some state => ∃ n : ℕ, count = n ∧ HeldFor rows state n

variable {rows : List (Option ℤ)} {state : ℤ} {n : ℕ}

theorem HeldFor.concat (h : HeldFor rows state n) : HeldFor (rows ++ [some state]) state (n + 1) := by
  obtain ⟨-, front, rfl, hfront⟩ := h
  exact ⟨Nat.succ_pos n, front, by rw [append_assoc, ← replicate_succ'], hfront⟩

theorem HeldFor.first (h : rows.getLast? ≠ some (some state)) :
    HeldFor (rows ++ [some state]) state 1 :=
  ⟨Nat.one_pos, rows, rfl, h⟩

theorem HeldFor.getLast? (h : HeldFor rows state n) : rows.getLast? = some (some state) := by
  obtain ⟨hpos, front, rfl, -⟩ := h
  obtain ⟨m, rfl⟩ := Nat.exists_eq_add_one.mpr hpos
  rw [replicate_succ', ← append_assoc, getLast?_concat]

theorem Counted.step {count : ℤ} {previous : Option ℤ} (h : Counted rows count previous) :
    Counted (rows ++ [some state]) (if some state = previous then count + 1 else 1)
      (some state) := by
  by_cases hsame : some state = previous
  · subst hsame
    obtain ⟨n, rfl, hheld⟩ := h
    rw [if_pos rfl]
    exact ⟨n + 1, by push_cast; rfl, hheld.concat⟩
  · rw [if_neg hsame]
    refine ⟨1, rfl, HeldFor.first (fun hlast ↦ ?_)⟩
    cases previous with
    | none => exact h state hlast
    | some other =>
      obtain ⟨n, -, hheld⟩ := h
      rw [hheld.getLast?, Option.some.injEq] at hlast
      exact hsame hlast.symm

theorem runFrom_spec {rest : List (Option ℤ)} {count : ℤ} {previous : Option ℤ}
    (h : Counted rows count previous) {j : ℕ} (hj : j < rest.length) :
    (rest[j] = none → (runFrom count previous rest)[j]? = some none) ∧
      ∀ state, rest[j] = some state → ∃ n, HeldFor (rows ++ rest.take (j + 1)) state n ∧
        (runFrom count previous rest)[j]? = some (some (state * n)) := by
  induction rest generalizing rows count previous j with
  | nil => cases hj
  | cons row rest ih =>
    cases row with
    | none =>
      have hreset : Counted (rows ++ [none]) 0 none := fun state ↦ by
        rw [getLast?_concat]
        exact fun heq ↦ nomatch heq
      cases j with
      | zero => exact ⟨fun _ ↦ rfl, fun state hstate ↦ nomatch hstate⟩
      | succ j =>
        have hrest := ih hreset (Nat.lt_of_succ_lt_succ hj)
        rwa [append_assoc, singleton_append] at hrest
    | some current =>
      have hstep : Counted (rows ++ [some current]) _ (some current) := h.step
      cases j with
      | zero =>
        refine ⟨fun hnone ↦ (nomatch hnone), fun state hstate ↦ ?_⟩
        obtain rfl : current = state := Option.some.inj hstate
        obtain ⟨n, hn, hheld⟩ := hstep
        exact ⟨n, hheld, by rw [runFrom, hn]; rfl⟩
      | succ j =>
        have hrest := ih hstep (Nat.lt_of_succ_lt_succ hj)
        rwa [append_assoc, singleton_append] at hrest

end Run

theorem stateCell_eq_none {fast mid slow : Option ℚ} {price : ℚ} :
    stateCell (trendState price fast mid slow) = none ↔
      fast = none ∨ mid = none ∨ slow = none := by
  cases fast with
  | none => exact ⟨fun _ ↦ .inl rfl, fun _ ↦ rfl⟩
  | some fast =>
    cases mid with
    | none => exact ⟨fun _ ↦ .inr (.inl rfl), fun _ ↦ rfl⟩
    | some mid =>
      cases slow with
      | none => exact ⟨fun _ ↦ .inr (.inr rfl), fun _ ↦ rfl⟩
      | some slow =>
        rw [trendState]
        split_ifs <;> simp [stateCell]

theorem getElem?_trendStack {close : List ℚ} (fast mid slow : ℕ) {t : ℕ}
    (ht : t < close.length) :
    (trendStack close fast mid slow).1[t]? =
      some (stateCell (trendState close[t] (ema (close.take (t + 1)) fast)
        (ema (close.take (t + 1)) mid) (ema (close.take (t + 1)) slow))) := by
  rw [trendStack, emaSeries_eq_along, emaSeries_eq_along, emaSeries_eq_along]
  exact getElem?_stackState ht

/-- At every row the features are what the indicator publishes on the prefix up to it:
the averages, the state, and how long that state has held. -/
theorem trendStack_published (close : List ℚ) (fast mid slow : ℕ) {t : ℕ}
    (ht : t < close.length) :
    (∀ period, (emaSeries close period)[t]? = some (ema (close.take (t + 1)) period)) ∧
      (trendStack close fast mid slow).1[t]? =
        some (stateCell (trendState close[t] (ema (close.take (t + 1)) fast)
          (ema (close.take (t + 1)) mid) (ema (close.take (t + 1)) slow))) ∧
      ((trendStack close fast mid slow).1[t]? = some none ↔
        ema (close.take (t + 1)) fast = none ∨ ema (close.take (t + 1)) mid = none ∨
          ema (close.take (t + 1)) slow = none) ∧
      ((trendStack close fast mid slow).1[t]? = some none →
        (trendStack close fast mid slow).2[t]? = some none) ∧
      ∀ state, (trendStack close fast mid slow).1[t]? = some (some state) →
        ∃ n, HeldFor ((trendStack close fast mid slow).1.take (t + 1)) state n ∧
          (trendStack close fast mid slow).2[t]? = some (some (state * n)) := by
  have hrow := getElem?_trendStack fast mid slow ht
  obtain ⟨hlt, -⟩ := List.getElem?_eq_some_iff.mp hrow
  have hnothing : Counted [] 0 none := fun state hlast ↦ nomatch hlast
  obtain ⟨hundefined, hheld⟩ := runFrom_spec hnothing hlt
  refine ⟨fun period ↦ ?_, hrow, ?_, fun h ↦ hundefined ?_, fun state h ↦ hheld state ?_⟩
  · rw [emaSeries_eq_along, getElem?_along ht]
  · rw [hrow, Option.some.injEq]
    exact stateCell_eq_none
  · rw [getElem?_eq_getElem hlt] at h
    exact Option.some.inj h
  · rw [getElem?_eq_getElem hlt] at h
    exact Option.some.inj h

def doublings : List ℚ := [1, 2, 4, 8, 16, 32]

theorem trendStack_published_doublings :
    HeldFor ((trendStack doublings 2 3 4).1.take 6) 1 3 := by
  obtain ⟨-, -, -, -, hheld⟩ := trendStack_published doublings 2 3 4
    (show 5 < doublings.length by decide)
  obtain ⟨n, hn, hrun⟩ := hheld 1 (by decide +kernel)
  have hthree : (trendStack doublings 2 3 4).2[5]? = some (some 3) := by decide +kernel
  rw [hthree, Option.some.injEq, Option.some.injEq, one_mul] at hrun
  obtain rfl : n = 3 := by omega
  exact hn

end TalaPala.Trend
