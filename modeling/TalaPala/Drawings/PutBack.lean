import TalaPala.Drawings.Request
import TalaPala.Library.Checked

namespace TalaPala.Drawings

open Library List

variable {letters : Letters} {doubles : Doubles} {served : Text → Bool}

section Validation

variable {req : DrawingRequest} {row : DrawingRow}

structure Validates (letters : Letters) (doubles : Doubles) (served : Text → Bool)
    (req : DrawingRequest) (row : DrawingRow) : Prop where
  symbol : row.symbol = normalizeChartSymbol letters req.symbol
  interval : row.interval = (trimSpace req.interval).map letters.toLower
  drawingType : row.drawingType = (trimSpace req.drawingType).map letters.toLower
  chart : drawingChartProblems served row.symbol row.interval = []
  knownType : pointCounts.lookup row.drawingType ≠ none
  points : parseDrawingPoints doubles req.points (pointCounts.lookup row.drawingType) =
    .ok row.points
  style : parseDrawingStyle doubles req.style = .ok row.style
  locked : row.locked = decide (req.locked = some true)
  visible : row.visible = decide (req.visible ≠ some false)

theorem validateDrawingRequest_eq_ok_iff :
    validateDrawingRequest letters doubles served req = .ok row ↔
      Validates letters doubles served req row := by
  rw [validateDrawingRequest]
  constructor
  · intro h
    split at h
    next points style hproblems hpoints hstyle =>
      obtain rfl := Except.ok.inj h
      simp only [append_eq_nil_iff] at hproblems
      obtain ⟨⟨⟨hchart, htype⟩, -⟩, -⟩ := hproblems
      exact ⟨rfl, rfl, rfl, hchart, fun hnone ↦ by simp [hnone] at htype, hpoints, hstyle, rfl, rfl⟩
    next => cases h
  · rintro ⟨hsymbol, hinterval, htype, hchart, hknown, hpoints, hstyle, hlocked, hvisible⟩
    rw [hsymbol, hinterval] at hchart
    rw [htype] at hknown hpoints
    have hrow : row = ⟨row.symbol, row.interval, row.drawingType, row.points, row.style, row.locked,
      row.visible⟩ := rfl
    simp only [hchart, hknown, hpoints, hstyle, problemOf, if_false, append_nil]
    rw [hrow, hsymbol, hinterval, htype, hlocked, hvisible]

end Validation

section Names

theorem isUpperLetter_iff {c : Char} : isUpperLetter c = true ↔ 65 ≤ c.toNat ∧ c.toNat ≤ 90 := by
  rw [isUpperLetter, Bool.and_eq_true, decide_eq_true_eq, decide_eq_true_eq, Char.le_def,
    Char.le_def, UInt32.le_iff_toNat_le, UInt32.le_iff_toNat_le]
  exact Iff.rfl

def symbolChar (c : Char) : Bool := isUpperLetter c || c.isDigit || c = '_' || c = ':'

theorem toNat_symbolChar {c : Char} (h : symbolChar c = true) :
    (65 ≤ c.toNat ∧ c.toNat ≤ 90) ∨ (48 ≤ c.toNat ∧ c.toNat ≤ 57) ∨ c.toNat = 95 ∨
      c.toNat = 58 := by
  simp only [symbolChar, Bool.or_eq_true, decide_eq_true_eq] at h
  rcases h with ((h | h) | rfl) | rfl
  · exact .inl (isUpperLetter_iff.mp h)
  · exact .inr (.inl (Char.isDigit_iff_toNat.mp h))
  · exact .inr (.inr (.inl rfl))
  · exact .inr (.inr (.inr rfl))

theorem isSpace_symbolChar {c : Char} (h : symbolChar c = true) : isSpace c = false := by
  have hrange := toNat_symbolChar h
  simp only [isSpace, Bool.or_eq_false_iff, Bool.and_eq_false_iff, decide_eq_false_iff_not]
  omega

theorem toUpper_symbolChar {c : Char} (h : symbolChar c = true) : letters.toUpper c = c := by
  have hrange := toNat_symbolChar h
  have hupper : ¬(c.val ≥ 'a'.val ∧ c.val ≤ 'z'.val) := by
    intro hlower
    have hlow := UInt32.le_iff_toNat_le.mp hlower.1
    have ha : 'a'.val.toNat = 97 := rfl
    have hc : c.val.toNat = c.toNat := rfl
    omega
  exact (letters.toUpper_ascii c (by omega)).trans (dif_neg hupper)

theorem normalizeChartSymbol_fixed {s : Text} (h : ∀ c ∈ s, symbolChar c = true) :
    normalizeChartSymbol letters s = s := by
  have htrim : trimSpace s = s := trimSpace_eq_self
    (fun c hc ↦ isSpace_symbolChar (h c (mem_of_head? hc)))
    (fun c hc ↦ isSpace_symbolChar (h c (mem_of_getLast? hc)))
  rw [normalizeChartSymbol, htrim]
  exact (map_congr_left (g := id) (fun c hc ↦ toUpper_symbolChar (h c hc))).trans
    (map_id s)

theorem symbolChar_of_tickSymbolRE {s : Text} (h : tickSymbolRE s = true) :
    ∀ c ∈ s, symbolChar c = true := by
  cases s with
  | nil => cases h
  | cons c s =>
    simp only [tickSymbolRE, Bool.and_eq_true, all_eq_true] at h
    refine forall_mem_cons.mpr ⟨?_, fun d hd ↦ ?_⟩
    · simp [symbolChar, h.1.1.1]
    · have := h.2 d hd
      simp_all [symbolChar]

theorem symbolChar_of_insCode (head : Text) {s : Text} (hhead : head.all symbolChar = true)
    (hstart : head <+: s) (h : isInsCode (s.drop head.length) = true) :
    ∀ c ∈ s, symbolChar c = true := by
  obtain ⟨rest, rfl⟩ := hstart
  rw [drop_left, isInsCode, Bool.and_eq_true, all_eq_true] at h
  intro c hc
  rcases mem_append.mp hc with hc | hc
  · exact all_eq_true.mp hhead c hc
  · simp [symbolChar, h.2 c hc]

theorem symbolChar_of_isTehranChartSymbol {s : Text} (h : isTehranChartSymbol s = true) :
    ∀ c ∈ s, symbolChar c = true := by
  simp only [isTehranChartSymbol, Bool.or_eq_true, Bool.and_eq_true, decide_eq_true_eq] at h
  rcases h with h | h
  · exact symbolChar_of_insCode "IDX:".toList (by decide) h.1 h.2
  · exact symbolChar_of_insCode "EQ:".toList (by decide) h.1 h.2

theorem normal_of_accepted (letters : Letters) {symbol interval : Text}
    (h : drawingChartProblems served symbol interval = []) :
    normalizeChartSymbol letters symbol = symbol ∧ interval ∈ drawingIntervalOrder := by
  simp only [drawingChartProblems, append_eq_nil_iff] at h
  obtain ⟨hsymbol, hinterval⟩ := h
  constructor
  · apply normalizeChartSymbol_fixed
    by_cases htehran : isTehranChartSymbol symbol = true
    · exact symbolChar_of_isTehranChartSymbol htehran
    · by_cases htick : tickSymbolRE symbol = true
      · exact symbolChar_of_tickSymbolRE htick
      · simp [htehran, htick] at hsymbol
  · by_contra hnot
    have hunknown : (!drawingIntervalOrder.contains interval) = true := by
      rw [Bool.not_eq_true', ← Bool.not_eq_true, contains_iff_mem]
      exact hnot
    rw [if_pos hunknown] at hinterval
    cases hinterval

theorem map_toLower_fixed {s : Text} (h : s.all (fun c ↦ c.toNat < 128 ∧ c.toLower = c) = true) :
    s.map letters.toLower = s := by
  have hfixed (c : Char) (hc : c ∈ s) : letters.toLower c = c := by
    obtain ⟨hascii, hlower⟩ := of_decide_eq_true (all_eq_true.mp h c hc)
    exact (letters.toLower_ascii c hascii).trans hlower
  exact (map_congr_left (g := id) hfixed).trans (map_id s)

theorem interval_fixed {s : Text} (h : s ∈ drawingIntervalOrder) :
    (trimSpace s).map letters.toLower = s := by
  have hall : ∀ s ∈ drawingIntervalOrder, trimSpace s = s ∧
      s.all (fun c ↦ c.toNat < 128 ∧ c.toLower = c) = true := by decide
  rw [(hall s h).1]
  exact map_toLower_fixed (hall s h).2

theorem drawingType_fixed {s : Text} (h : pointCounts.lookup s ≠ none) :
    (trimSpace s).map letters.toLower = s := by
  have hall : ∀ x ∈ pointCounts, trimSpace x.1 = x.1 ∧
      x.1.all (fun c ↦ c.toNat < 128 ∧ c.toLower = c) = true := by decide
  obtain ⟨want, hwant⟩ := Option.ne_none_iff_exists'.mp h
  obtain ⟨front, back, heq, -⟩ := lookup_eq_some_iff.mp hwant
  obtain ⟨htrim, hlower⟩ := hall (s, want) (by rw [heq]; simp)
  rw [htrim]
  exact map_toLower_fixed hlower

end Names

section Points

def CanonicalPoint.Valid (doubles : Doubles) (p : CanonicalPoint) : Prop :=
  |p.t| ≤ 10 ^ 12 ∧ doubles.IsDouble p.price

theorem abs_truncated_le {t : ℚ} {n : ℕ} (h : |t| ≤ n) : |truncated t| ≤ n := by
  have hden : (0 : ℚ) < t.den := by exact_mod_cast t.den_pos
  have hnum : |t.num| ≤ (n * t.den : ℤ) := by
    have habs : |t| * t.den = |(t.num : ℚ)| := by
      rw [← Rat.mul_den_eq_num, abs_mul, abs_of_pos hden]
    have hle := mul_le_mul_of_nonneg_right h hden.le
    rw [habs] at hle
    exact_mod_cast hle
  rw [truncated, Int.abs_eq_natAbs, Int.natAbs_tdiv, Int.natAbs_natCast]
  rw [Int.abs_eq_natAbs] at hnum
  exact_mod_cast Nat.div_le_of_le_mul (by
    rw [mul_comm]
    exact_mod_cast hnum)

theorem truncated_intCast (n : ℤ) : truncated n = n := by
  rw [truncated, Rat.num_intCast, Rat.den_intCast]
  exact Int.tdiv_one n

theorem canonicalPoint_valid {i : ℕ} {p : DrawingPointInput} {q : CanonicalPoint}
    (h : canonicalPoint doubles i p = .ok q) : q.Valid doubles := by
  rw [canonicalPoint] at h
  split at h
  next t price _ _ =>
    split at h
    next t' price' _ hprice =>
      split_ifs at h with hbound
      obtain rfl := Except.ok.inj h
      refine ⟨?_, ?_⟩
      · exact_mod_cast abs_truncated_le (n := 10 ^ 12) (by exact_mod_cast not_lt.mp hbound)
      · cases price with
        | number l => exact doubles.isDouble_of_nearest hprice
        | _ => cases hprice
    next => cases h
  next => cases h

theorem canonicalPoints_valid {i : ℕ} {ps : List DrawingPointInput} {qs : List CanonicalPoint}
    (h : canonicalPoints doubles i ps = .ok qs) :
    qs.length = ps.length ∧ ∀ q ∈ qs, q.Valid doubles := by
  induction ps generalizing i qs with
  | nil =>
    obtain rfl := Except.ok.inj h
    exact ⟨rfl, fun q hq ↦ by cases hq⟩
  | cons p ps ih =>
    rw [canonicalPoints, bind_eq_ok] at h
    obtain ⟨q, hq, h⟩ := h
    obtain ⟨qs', hqs, h⟩ := bind_eq_ok.mp h
    obtain rfl := Except.ok.inj h
    obtain ⟨hlength, hvalid⟩ := ih hqs
    exact ⟨congrArg (· + 1) hlength, forall_mem_cons.mpr ⟨canonicalPoint_valid hq, hvalid⟩⟩

variable (doubles)

def encodePoint (p : CanonicalPoint) : Raw :=
  .object 0 [("t".toList.map .plain, .number (numericOut p.t 0)),
    ("price".toList.map .plain, .number (doubles.shortest p.price))]

def storedPoint (p : CanonicalPoint) : Jsonb :=
  .object [("t".toList, .number p.t 0),
    ("price".toList, .number (doubles.shortest p.price).numeric.1
      (doubles.shortest p.price).numeric.2)]

def returnedPoint (p : CanonicalPoint) : Raw :=
  .object 0 [("t".toList.map .plain, .number (numericOut p.t 0)),
    ("price".toList.map .plain, .number (numericOut (doubles.shortest p.price).numeric.1
      (doubles.shortest p.price).numeric.2))]

variable {doubles}

theorem jsonb_encodePoint {p : CanonicalPoint} {j : Jsonb}
    (h : (encodePoint doubles p).jsonb = some j) : j = storedPoint doubles p := by
  have hkeys (x y : Jsonb) : uniqueKeys [("t".toList, x), ("price".toList, y)] =
      [("t".toList, x), ("price".toList, y)] :=
    uniqueKeys_of_keySorted (pairwise_pair.mpr
      (show keyOrder "t".toList < keyOrder "price".toList by decide))
  rw [encodePoint, Raw.jsonb, Option.map_eq_some_iff] at h
  obtain ⟨ms, hms, rfl⟩ := h
  simp only [Raw.membersJsonb, Raw.jsonb, Option.bind_eq_bind, Option.bind_eq_some_iff,
    Option.ite_none_right_eq_some, numeric_numericOut] at hms
  obtain ⟨k, hk, t, ⟨-, ht⟩, rest, ⟨k', hk', price, ⟨-, hprice⟩, rest', hrest', hrest⟩, hms⟩ := hms
  obtain rfl : "t".toList = k := Option.some_inj.mp hk
  obtain rfl : "price".toList = k' := Option.some_inj.mp hk'
  obtain rfl := Option.some_inj.mp ht
  obtain rfl := Option.some_inj.mp hprice
  obtain rfl := Option.some_inj.mp hrest'
  obtain rfl := Option.some_inj.mp hrest
  obtain rfl := Option.some_inj.mp hms
  rw [hkeys]
  rfl

theorem jsonb_encodePoints {ps : List CanonicalPoint} {js : List Jsonb}
    (h : Raw.itemsJsonb (ps.map (encodePoint doubles)) = some js) :
    js = ps.map (storedPoint doubles) := by
  induction ps generalizing js with
  | nil => exact (Option.some_inj.mp h).symm
  | cons p ps ih =>
    rw [map_cons, Raw.itemsJsonb] at h
    simp only [Option.bind_eq_bind, Option.bind_eq_some_iff] at h
    obtain ⟨j, hj, js', hjs, h⟩ := h
    obtain rfl := Option.some_inj.mp h
    rw [jsonb_encodePoint hj, ih hjs, map_cons]

theorem returned_storedPoints (ps : List CanonicalPoint) :
    returned (.array (ps.map (storedPoint doubles))) =
      .array 0 (ps.map (returnedPoint doubles)) := by
  have hitems : Raw.itemsCompact (Jsonb.itemsOut (ps.map (storedPoint doubles))) =
      ps.map (returnedPoint doubles) := by
    induction ps with
    | nil => rfl
    | cons p ps ih =>
      rw [map_cons, Jsonb.itemsOut, Raw.itemsCompact, ih, map_cons]
      rfl
  rw [returned, Jsonb.out, Raw.compact, hitems]

theorem canonicalPoint_returnedPoint {i : ℕ} {p : CanonicalPoint} (h : p.Valid doubles) :
    ∃ input, pointInput (returnedPoint doubles p) = some input ∧
      canonicalPoint doubles i input = .ok p := by
  have ht : doubles.nearest (numericOut p.t 0).value = some (p.t : ℚ) := by
    rw [value_numericOut, numericValue]
    simpa using doubles.nearest_intCast h.1
  have hprice : doubles.nearest (numericOut (doubles.shortest p.price).numeric.1
      (doubles.shortest p.price).numeric.2).value = some p.price := by
    rw [value_numericOut, numericValue_numeric]
    exact doubles.nearest_shortest h.2
  have hbound : ¬(10 ^ 12 < |(p.t : ℚ)|) := not_lt.mpr (by exact_mod_cast h.1)
  refine ⟨⟨some _, some _⟩, rfl, ?_⟩
  simp only [canonicalPoint, finiteDrawingCoord, ht, hprice, if_neg hbound, truncated_intCast]

theorem canonicalPoints_returnedPoints (i : ℕ) {ps : List CanonicalPoint}
    (h : ∀ p ∈ ps, p.Valid doubles) :
    ∃ inputs, (ps.map (returnedPoint doubles)).mapM pointInput = some inputs ∧
      inputs.length = ps.length ∧ canonicalPoints doubles i inputs = .ok ps := by
  induction ps generalizing i with
  | nil => exact ⟨[], rfl, rfl, rfl⟩
  | cons p ps ih =>
    obtain ⟨hp, hps⟩ := forall_mem_cons.mp h
    obtain ⟨input, hinput, hpoint⟩ := canonicalPoint_returnedPoint (i := i) hp
    obtain ⟨inputs, hinputs, hlength, hpoints⟩ := ih (i := i + 1) hps
    refine ⟨input :: inputs, ?_, congrArg (· + 1) hlength, ?_⟩
    · rw [map_cons, mapM_cons, hinput, hinputs]
      rfl
    · rw [canonicalPoints, hpoint, hpoints]
      rfl

theorem parseDrawingPoints_eq_ok {blanks : ℕ} {items : List Raw} {inputs : List DrawingPointInput}
    {want : Option ℕ} {ps : List CanonicalPoint} (hinputs : items.mapM pointInput = some inputs)
    (hcount : ¬want.any (· ≠ inputs.length) = true)
    (hpoints : canonicalPoints doubles 0 inputs = .ok ps) :
    parseDrawingPoints doubles (some (.array blanks items)) want =
      .ok (encodePoints doubles ps) := by
  simp only [parseDrawingPoints, hinputs, hpoints, if_neg hcount]
  rfl

theorem parseDrawingPoints_returned {raw : Option Raw} {want : Option ℕ} {points : Raw}
    {j : Jsonb} (h : parseDrawingPoints doubles raw want = .ok points)
    (hj : points.jsonb = some j) :
    parseDrawingPoints doubles (some (returned j)) want = .ok points := by
  unfold parseDrawingPoints at h
  split at h
  next => cases h
  next blanks items =>
    split at h
    next => cases h
    next ps hps =>
      split_ifs at h with hcount
      obtain ⟨qs, hqs, rfl⟩ : ∃ qs, canonicalPoints doubles 0 ps = .ok qs ∧
          encodePoints doubles qs = points := by
        cases hqs : canonicalPoints doubles 0 ps with
        | error e =>
          rw [hqs] at h
          cases h
        | ok qs =>
          rw [hqs] at h
          exact ⟨qs, rfl, Except.ok.inj h⟩
      obtain ⟨hlength, hvalid⟩ := canonicalPoints_valid hqs
      obtain ⟨js, hjs, rfl⟩ := Option.map_eq_some_iff.mp hj
      rw [jsonb_encodePoints hjs, returned_storedPoints]
      obtain ⟨inputs, hinputs, hlength', hpoints⟩ := canonicalPoints_returnedPoints 0 hvalid
      rw [← hlength, ← hlength'] at hcount
      exact parseDrawingPoints_eq_ok hinputs hcount hpoints
  next => cases h

end Points

section Style

theorem parseDrawingStyle_object {blanks : ℕ} {members : List (List Piece × Raw)}
    (h : (Raw.object blanks members).allNumbers (fun x ↦ (doubles.nearest x).isSome) = true) :
    parseDrawingStyle doubles (some (.object blanks members)) =
      if maxDrawingStyleBytes < (Raw.object blanks members).bytes then
        .error ("must be at most " ++ toString maxDrawingStyleBytes ++ " bytes")
      else .ok (.object blanks members) := by
  rw [parseDrawingStyle]
  simp only [h, if_true]

theorem parseDrawingStyle_returned {raw : Option Raw} {style : Raw} {j : Jsonb}
    (h : parseDrawingStyle doubles raw = .ok style) (hj : style.jsonb = some j) :
    (returned j).jsonb = some j ∧ parseDrawingStyle doubles (some (returned j)) =
      if maxDrawingStyleBytes < (returned j).bytes then
        .error ("must be at most " ++ toString maxDrawingStyleBytes ++ " bytes")
      else .ok (returned j) := by
  obtain ⟨blanks, members, rfl, hnumbers⟩ : ∃ blanks members, style = .object blanks members ∧
      style.allNumbers (fun x ↦ (doubles.nearest x).isSome) = true := by
    unfold parseDrawingStyle at h
    split at h
    next =>
      obtain rfl := Except.ok.inj h
      exact ⟨0, [], rfl, rfl⟩
    next raw =>
      cases raw with
      | object blanks members =>
        split_ifs at h with hlong hnumbers
        obtain rfl := Except.ok.inj h
        exact ⟨blanks, members, rfl, hnumbers⟩
      | _ => split_ifs at h
  obtain ⟨hjsonb, hback⟩ := Jsonb.jsonb_out (Raw.canonical_jsonb hnumbers hj)
  obtain ⟨hcompact, hcompact'⟩ :=
    Raw.jsonb_compact (P := fun x ↦ (doubles.nearest x).isSome) j.out
  obtain ⟨ms, -, rfl⟩ := Option.map_eq_some_iff.mp hj
  refine ⟨hcompact.trans hjsonb, ?_⟩
  have hobject : returned (.object (uniqueKeys ms)) = .object 0
      (Raw.membersCompact (Jsonb.membersOut (uniqueKeys ms))) := rfl
  rw [← returned, hback, hobject] at hcompact'
  rw [hobject]
  exact parseDrawingStyle_object hcompact'

end Style

section PutBack

def PutBack (letters : Letters) (doubles : Doubles) (served : Text → Bool) (d : StoredDrawing) :
    Prop :=
  ∃ row, validateDrawingRequest letters doubles served d.request = .ok row ∧
    updateDrawing d row = some d

/-- A drawing can be put back when its style, as it is returned, keeps to the limit. -/
theorem putBack_iff {req : DrawingRequest} {row : DrawingRow} {id : ℤ} {d : StoredDrawing}
    (hrow : validateDrawingRequest letters doubles served req = .ok row)
    (hd : insertDrawing id row = some d) :
    PutBack letters doubles served d ↔ (returned d.style).bytes ≤ maxDrawingStyleBytes := by
  have hvalid := validateDrawingRequest_eq_ok_iff.mp hrow
  simp only [insertDrawing, Option.bind_eq_bind, Option.bind_eq_some_iff] at hd
  obtain ⟨points, hpoints, style, hstyle, hd⟩ := hd
  obtain rfl := Option.some_inj.mp hd
  obtain ⟨hback, hparse⟩ := parseDrawingStyle_returned hvalid.style hstyle
  obtain ⟨hsymbol, hinterval⟩ := normal_of_accepted letters hvalid.chart
  constructor
  · rintro ⟨row', hrow', -⟩
    have hstyle' := (validateDrawingRequest_eq_ok_iff.mp hrow').style
    by_contra hlong
    rw [StoredDrawing.request, hparse, if_pos (not_le.mp hlong)] at hstyle'
    cases hstyle'
  · intro hshort
    refine ⟨⟨row.symbol, row.interval, row.drawingType, row.points, returned style, row.locked,
      row.visible⟩, ?_, ?_⟩
    · rw [validateDrawingRequest_eq_ok_iff]
      exact
        { symbol := hsymbol.symm
          interval := (interval_fixed hinterval).symm
          drawingType := (drawingType_fixed hvalid.knownType).symm
          chart := hvalid.chart
          knownType := hvalid.knownType
          points := parseDrawingPoints_returned hvalid.points hpoints
          style := hparse.trans (if_neg (not_lt.mpr hshort))
          locked := by simp [StoredDrawing.request]
          visible := by simp [StoredDrawing.request] }
    · rw [updateDrawing, hpoints, hback]
      simp

end PutBack

section Heavy

@[irreducible] def heavyZeros : ℕ := 308

theorem heavyZeros_eq : heavyZeros = 308 := by
  rw [heavyZeros]

def floatRange : ℕ := 10 ^ (heavyZeros + 1)

theorem pow_lt_floatRange {k : ℕ} (h : k ≤ heavyZeros) : 10 ^ k < floatRange := by
  rw [floatRange]
  exact Nat.pow_lt_pow_right (by decide) (Nat.lt_succ_of_le h)

def wholeDoubles : Doubles where
  IsDouble x := x.den = 1 ∧ x.num.natAbs < floatRange
  nearest x := if x.den = 1 ∧ x.num.natAbs < floatRange then some x else none
  shortest x := numericOut x.num 0
  isDouble_of_nearest h := by
    obtain ⟨hx, h⟩ := Option.ite_none_right_eq_some.mp h
    exact Option.some_inj.mp h ▸ hx
  nearest_shortest {x} hx := by
    have hvalue : (numericOut x.num 0).value = x := by
      rw [value_numericOut, numericValue]
      simpa using Rat.coe_int_num_of_den_eq_one hx.1
    rw [hvalue, if_pos hx]
  nearest_intCast {n} hn := by
    refine if_pos ⟨Rat.den_intCast n, ?_⟩
    have hlt : (10 ^ 12 : ℕ) < floatRange := pow_lt_floatRange (by rw [heavyZeros_eq]; decide)
    rw [Rat.num_intCast]
    rw [Int.abs_eq_natAbs] at hn
    exact lt_of_le_of_lt (by exact_mod_cast hn) hlt

theorem nearest_wholeDoubles {n : ℤ} (h : n.natAbs < floatRange) :
    wholeDoubles.nearest n = some (n : ℚ) :=
  if_pos ⟨Rat.den_intCast n, by rwa [Rat.num_intCast]⟩

theorem numericFits_of_lt {n : ℤ} {k : ℕ} (hn : n.natAbs < 10 ^ k) (hk : k ≤ maxWholeDigits) :
    numericFits n 0 = true := by
  rw [numericFits, Bool.and_eq_true, decide_eq_true_eq, decide_eq_true_eq]
  exact ⟨hn.trans_le (Nat.pow_le_pow_right (by decide) hk), Nat.zero_le _⟩

def unitPoint : CanonicalPoint := ⟨0, 1⟩

theorem unitPoint_valid : unitPoint.Valid wholeDoubles := by
  refine ⟨by norm_num [unitPoint], rfl, ?_⟩
  exact pow_lt_floatRange (k := 0) (Nat.zero_le _)

def unitLine (style : Raw) : DrawingRequest :=
  ⟨"XAUUSD".toList, "1d".toList, "horizontal_line".toList,
    some (.array 0 [returnedPoint wholeDoubles unitPoint]), some style, none, none⟩

def unitRow (style : Raw) : DrawingRow :=
  ⟨"XAUUSD".toList, "1d".toList, "horizontal_line".toList, encodePoints wholeDoubles [unitPoint],
    style, false, true⟩

theorem unitLine_valid {style : Raw} (h : parseDrawingStyle wholeDoubles (some style) = .ok style) :
    validateDrawingRequest .ascii wholeDoubles (fun _ ↦ true) (unitLine style) =
      .ok (unitRow style) := by
  have hvalid : ∀ p ∈ [unitPoint], p.Valid wholeDoubles :=
    forall_mem_singleton.mpr unitPoint_valid
  obtain ⟨inputs, hinputs, hlength, hpoints⟩ := canonicalPoints_returnedPoints 0 hvalid
  have hnames : "XAUUSD".toList = normalizeChartSymbol .ascii "XAUUSD".toList ∧
      "1d".toList = (trimSpace "1d".toList).map Char.toLower ∧
      "horizontal_line".toList = (trimSpace "horizontal_line".toList).map Char.toLower ∧
      drawingChartProblems (fun _ ↦ true) "XAUUSD".toList "1d".toList = [] := by decide
  have hcount : pointCounts.lookup "horizontal_line".toList = some 1 := by decide
  rw [map_singleton] at hinputs
  have hparse : parseDrawingPoints wholeDoubles (unitLine style).points (some 1) =
      .ok (unitRow style).points :=
    parseDrawingPoints_eq_ok hinputs (by rw [hlength]; decide) hpoints
  exact validateDrawingRequest_eq_ok_iff.mpr ⟨hnames.1, hnames.2.1, hnames.2.2.1, hnames.2.2.2,
    hcount ▸ Option.some_ne_none 1,
    (congrArg (parseDrawingPoints wholeDoubles (unitLine style).points) hcount).trans hparse, h,
    rfl, rfl⟩

def unitDrawing (style : Jsonb) : StoredDrawing :=
  ⟨1, "XAUUSD".toList, "1d".toList, "horizontal_line".toList,
    .array [storedPoint wholeDoubles unitPoint], style, false, true⟩

theorem jsonb_unitPoint :
    (encodePoint wholeDoubles unitPoint).jsonb = some (storedPoint wholeDoubles unitPoint) := by
  have hshortest : wholeDoubles.shortest unitPoint.price = numericOut 1 0 := rfl
  have hkeys : Raw.membersJsonb [("t".toList.map .plain, .number (numericOut 0 0)),
      ("price".toList.map .plain, .number (numericOut 1 0))] =
      some [("t".toList, .number 0 0), ("price".toList, .number 1 0)] := by
    simp only [Raw.membersJsonb, Raw.jsonb, numeric_numericOut,
      numericFits_of_lt (n := 0) (k := 1) (by decide) (by decide),
      numericFits_of_lt (n := 1) (k := 1) (by decide) (by decide), if_true]
    rfl
  rw [encodePoint, storedPoint, hshortest, numeric_numericOut, Raw.jsonb]
  rw [show unitPoint.t = 0 from rfl, hkeys, Option.map_some, uniqueKeys_of_keySorted]
  exact pairwise_pair.mpr (show keyOrder "t".toList < keyOrder "price".toList by decide)

theorem unitLine_stored {style : Raw} {j : Jsonb} (h : style.jsonb = some j) :
    insertDrawing 1 (unitRow style) = some (unitDrawing j) := by
  have hpoints : (encodePoints wholeDoubles [unitPoint]).jsonb =
      some (.array [storedPoint wholeDoubles unitPoint]) := by
    have hitems : Raw.itemsJsonb [encodePoint wholeDoubles unitPoint] =
        some [storedPoint wholeDoubles unitPoint] := by
      rw [Raw.itemsJsonb, jsonb_unitPoint]
      rfl
    rw [encodePoints, map_singleton, ← encodePoint, Raw.jsonb, hitems, Option.map_some]
  have hrow : (unitRow style).points = encodePoints wholeDoubles [unitPoint] ∧
      (unitRow style).style = style := ⟨rfl, rfl⟩
  rw [insertDrawing, hrow.1, hrow.2, hpoints, h]
  rfl

theorem putBack_unitLine :
    PutBack .ascii wholeDoubles (fun _ ↦ true) (unitDrawing (.object [])) := by
  have hvalid : validateDrawingRequest .ascii wholeDoubles (fun _ ↦ true)
      (unitLine (.object 0 [])) = .ok (unitRow (.object 0 [])) := unitLine_valid rfl
  have hstored : insertDrawing 1 (unitRow (.object 0 [])) = some (unitDrawing (.object [])) :=
    unitLine_stored rfl
  exact (putBack_iff hvalid hstored).mpr (by decide)

/-- `1e308`. -/
def heavyNumber : NumLit := ⟨false, lowDigits 1 1, [], some ⟨none, lowDigits 3 308⟩⟩

def heavyKeys : Text := "abcdefghijklmn".toList

def heavyStyle : Raw := .object 0 (heavyKeys.map (fun c ↦ ([.plain c], .number heavyNumber)))

def heavyItem : Jsonb := .number (10 ^ heavyZeros) 0

def heavyStored : Jsonb := .object (heavyKeys.map (fun c ↦ ([c], heavyItem)))

theorem numeric_heavyNumber : heavyNumber.numeric = (10 ^ heavyZeros, 0) := by
  have hinteger : heavyNumber.integer = 1 := by decide
  have hpower : heavyNumber.power = heavyZeros := by
    rw [heavyZeros_eq]
    decide
  rw [NumLit.numeric, hinteger, hpower, if_pos (Int.natCast_nonneg _), one_mul, Int.toNat_natCast]

theorem natAbs_heavy : ((10 : ℤ) ^ heavyZeros).natAbs < 10 ^ (heavyZeros + 1) := by
  rw [Int.natAbs_pow]
  exact Nat.pow_lt_pow_right (by decide) (Nat.lt_succ_self _)

theorem jsonb_heavyStyle : heavyStyle.jsonb = some heavyStored := by
  have hnumber : (Raw.number heavyNumber).jsonb = some heavyItem := by
    rw [Raw.jsonb, numeric_heavyNumber]
    exact if_pos (numericFits_of_lt natAbs_heavy (by rw [heavyZeros_eq]; decide))
  have hmembers (cs : Text) (hcs : cs.all (fun c ↦ c.toNat ≠ 0) = true) :
      Raw.membersJsonb (cs.map (fun c ↦ ([.plain c], .number heavyNumber))) =
        some (cs.map (fun c ↦ ([c], heavyItem))) := by
    induction cs with
    | nil => rfl
    | cons c cs ih =>
      rw [all_cons, Bool.and_eq_true, decide_eq_true_eq] at hcs
      obtain ⟨hc, hcs⟩ := hcs
      have hpiece : [Piece.plain c].mapM Piece.stored = some [c] := by
        simp [Piece.stored, hc]
      rw [map_cons, Raw.membersJsonb, hpiece, hnumber, ih hcs]
      rfl
  have hsorted : KeySorted (heavyKeys.map (fun c ↦ ([c], heavyItem))) :=
    pairwise_map.mpr (show heavyKeys.Pairwise (fun c d ↦ keyOrder [c] < keyOrder [d]) by decide)
  rw [heavyStyle, Raw.jsonb, hmembers heavyKeys (by decide), Option.map_some,
    uniqueKeys_of_keySorted hsorted, heavyStored]

theorem bytes_heavyItem : (returned heavyItem).bytes = heavyZeros + 1 := by
  have hwhole : (numericOut (10 ^ heavyZeros) 0).whole.length = heavyZeros + 1 := by
    rw [numericOut, length_lowDigits, Int.natAbs_pow, pow_zero, Nat.div_one]
    exact congrArg (· + 1) (Nat.log_pow (by decide) heavyZeros)
  have hnegative : (numericOut (10 ^ heavyZeros) 0).negative = false :=
    decide_eq_false (not_lt.mpr (pow_nonneg (by decide : (0 : ℤ) ≤ 10) heavyZeros))
  have hbytes : (returned heavyItem).bytes = (numericOut (10 ^ heavyZeros) 0).bytes := rfl
  rw [hbytes, NumLit.bytes, hwhole, hnegative]
  exact Nat.zero_add _

theorem bytes_heavyStored : (returned heavyStored).bytes = 4397 := by
  have hmembers (cs : Text) : Raw.membersBytes (Raw.membersCompact (Jsonb.membersOut
      (cs.map (fun c ↦ ([c], heavyItem))))) =
      (cs.map (fun c ↦ stringBytes [(escapeJson c).compact] + 1 + (heavyZeros + 1))).sum := by
    induction cs with
    | nil => rfl
    | cons c cs ih =>
      have hitem : heavyItem.out.compact.bytes = heavyZeros + 1 := bytes_heavyItem
      rw [map_cons, Jsonb.membersOut, Raw.membersCompact, Raw.membersBytes, ih, hitem]
      rfl
  have hcount : (Raw.membersCompact (Jsonb.membersOut
      (heavyKeys.map (fun c ↦ ([c], heavyItem))))).length = 14 := rfl
  rw [returned, heavyStored, Jsonb.out, Raw.compact, Raw.bytes, hmembers, hcount, heavyZeros_eq]
  decide

theorem allNumbers_heavyStyle :
    heavyStyle.allNumbers (fun x ↦ (wholeDoubles.nearest x).isSome) = true := by
  have hvalue : heavyNumber.value = ((10 ^ heavyZeros : ℤ) : ℚ) := by
    rw [← numericValue_numeric, numeric_heavyNumber, numericValue]
    simp
  have hnumber : (wholeDoubles.nearest heavyNumber.value).isSome = true := by
    rw [hvalue, nearest_wholeDoubles (by
      rw [Int.natAbs_pow]
      exact pow_lt_floatRange le_rfl)]
    rfl
  have hmembers (cs : Text) : Raw.membersNumbers (fun x ↦ (wholeDoubles.nearest x).isSome)
      (cs.map (fun c ↦ ([.plain c], .number heavyNumber))) = true := by
    induction cs with
    | nil => rfl
    | cons c cs ih => rw [map_cons, Raw.membersNumbers, Raw.allNumbers, hnumber, ih]; rfl
  exact hmembers heavyKeys

/-- A style of fourteen short numbers comes back with every zero written out, and the
update that it is sent back in refuses it for its length. -/
theorem heavy_style_refused :
    heavyStyle.bytes = 141 ∧
      validateDrawingRequest .ascii wholeDoubles (fun _ ↦ true) (unitLine heavyStyle) =
        .ok (unitRow heavyStyle) ∧
      insertDrawing 1 (unitRow heavyStyle) = some (unitDrawing heavyStored) ∧
      ¬PutBack .ascii wholeDoubles (fun _ ↦ true) (unitDrawing heavyStored) := by
  have hbytes : heavyStyle.bytes = 141 := by decide
  have hshort : ¬maxDrawingStyleBytes < heavyStyle.bytes := by
    rw [hbytes]
    decide
  have hstyle : parseDrawingStyle wholeDoubles (some heavyStyle) = .ok heavyStyle :=
    (parseDrawingStyle_object allNumbers_heavyStyle).trans (if_neg hshort)
  refine ⟨hbytes, unitLine_valid hstyle, unitLine_stored jsonb_heavyStyle, ?_⟩
  rintro ⟨row, hrow, -⟩
  have hback := (validateDrawingRequest_eq_ok_iff.mp hrow).style
  have hlong : maxDrawingStyleBytes < (returned (unitDrawing heavyStored).style).bytes := by
    have hbytes : (returned (unitDrawing heavyStored).style).bytes = 4397 := bytes_heavyStored
    rw [hbytes]
    decide
  have hrefused : parseDrawingStyle wholeDoubles (unitDrawing heavyStored).request.style =
      .error ("must be at most " ++ toString maxDrawingStyleBytes ++ " bytes") := if_pos hlong
  rw [hrefused] at hback
  cases hback

end Heavy

end TalaPala.Drawings
