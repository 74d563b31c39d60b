import TalaPala.Economic.SheetText
import TalaPala.Library.Checked
import Mathlib.Data.Prod.Lex

namespace TalaPala.Economic

open List
open Library (bind_eq_ok eq_ok_of_forM exists_of_lastHeading lastHeading lastHeading_or
  lastHeading_self lastHeading_succ lookup_of_mem mem_of_lookup rel_of_neighbours)
open News (Text isSpace strip)

section Records

inductive SciParseError
  | tooFewRows (count : ℕ)
  | notAYear (cell : Cell)
  | yearOutOfRange (year : ℤ)
  | noColumns
  | missingSeries (codes : List SciCode)
  | noNumbers (code : SciCode)
  | baseMonths (code : SciCode) (count : ℕ)
  | baseMean (code : SciCode) (sum : Value)

structure SciPoint where
  year : ℤ
  month : ℤ
  value : Value

def SciPoint.period (point : SciPoint) : Lex (ℤ × ℤ) := toLex (point.year, point.month)

def SciCode.indicator : SciCode → Text
  | .urban => "شاخص كل".toList
  | .housing => "مسكن".toList
  | .rent => "اجاره".toList
  | .vehicles => "071 - خريد وسايل نقليه".toList

def SciCode.all : List SciCode := [.urban, .housing, .rent, .vehicles]

def minSciYear : ℤ := 1300

def maxSciYear : ℤ := 1500

end Records

section Years

/-- The characters that `isdigit` takes besides the decimal digits; `int` refuses them. -/
def otherDigits : List (ℕ × ℕ) :=
  [(0xb2, 0xb3), (0xb9, 0xb9), (0x1369, 0x1371), (0x19da, 0x19da), (0x2070, 0x2070),
    (0x2074, 0x2079), (0x2080, 0x2089), (0x2460, 0x2468), (0x2474, 0x247c), (0x2488, 0x2490),
    (0x24ea, 0x24ea), (0x24f5, 0x24fd), (0x24ff, 0x24ff), (0x2776, 0x277e), (0x2780, 0x2788),
    (0x278a, 0x2792), (0x10a40, 0x10a43), (0x10e60, 0x10e68), (0x11052, 0x1105a),
    (0x1f100, 0x1f10a)]

def isDigit (c : Char) : Bool :=
  (decimalDigit c).isSome ||
    otherDigits.any (fun range ↦ decide (range.1 ≤ c.toNat ∧ c.toNat ≤ range.2))

def isDigits (s : Text) : Bool := !s.isEmpty && s.all isDigit

def checkedYear (year : ℤ) : Except SciParseError ℤ :=
  if minSciYear ≤ year ∧ year ≤ maxSciYear then .ok year else .error (.yearOutOfRange year)

def checkedJalaliYear : Cell → Except SciParseError (Option ℤ)
  | .number q => if q = 0 then .ok none else (checkedYear (q.num.tdiv q.den)).map some
  | .infinite negative => .error (.notAYear (.infinite negative))
  | .nan => .error (.notAYear .nan)
  | .text s =>
    if isDigits (strip s) then
      match (strip s).mapM decimalDigit with
      | some digits => (checkedYear (decimalNumber digits)).map some
      | none => .error (.notAYear (.text s))
    else .ok none
  | _ => .ok none

/-- `row[col]`, and nothing past the end of the row. -/
def at? (row : List Cell) (col : ℕ) : Cell := row.getD col .empty

end Years

section Parsing

variable (nfkc : Nfkc)

structure AxisColumn where
  col : ℕ
  year : ℤ
  month : ℤ

def axisFrom (years : List Cell) :
    ℕ → Option ℤ → List Cell → Except SciParseError (List AxisColumn)
  | _, _, [] => .ok []
  | col, current, header :: headers => do
    let stated ← checkedJalaliYear (at? years col)
    let current := stated.or current
    let axis ← axisFrom years (col + 1) current headers
    match current, monthNumber nfkc header with
    | some year, some month => return ⟨col, year, month⟩ :: axis
    | _, _ => return axis

def yearRow (grid : List (List Cell)) : List Cell := grid.getD 1 []

def monthRow (grid : List (List Cell)) : List Cell := grid.getD 2 []

def axis (grid : List (List Cell)) : Except SciParseError (List AxisColumn) :=
  axisFrom nfkc (yearRow grid) 1 none (monthRow grid).tail

def targets : List (Text × SciCode) :=
  SciCode.all.map (fun code ↦ (normalizeFa nfkc code.indicator, code))

def rowCode (row : List Cell) : Option SciCode :=
  match row.head? with
  | some (.text s) => (targets nfkc).lookup (normalizeFa nfkc s)
  | _ => none

def pointAt (row : List Cell) (column : AxisColumn) : Option SciPoint :=
  (at? row column.col).value?.map (fun value ↦ ⟨column.year, column.month, value⟩)

def pointsOf (columns : List AxisColumn) (row : List Cell) : List SciPoint :=
  columns.filterMap (pointAt row)

abbrev FoundSeries := List (SciCode × List SciPoint)

def collect (columns : List AxisColumn) (found : FoundSeries) (row : List Cell) : FoundSeries :=
  match rowCode nfkc row with
  | some code =>
    if (found.lookup code).isSome then found else found ++ [(code, pointsOf columns row)]
  | none => found

def missingSeries (found : FoundSeries) : List SciCode :=
  sciCodes.filter (fun code ↦ (found.lookup code).isNone)

def addValues : Value → Value → Value
  | .finite a, .finite b => .finite (a + b)
  | .finite _, .infinite negative => .infinite negative
  | .infinite negative, .finite _ => .infinite negative
  | .infinite negative, .infinite negative' =>
    if negative = negative' then .infinite negative else .nan
  | _, _ => .nan

def offBase : Value → Bool
  | .finite sum => decide (sciBaseTolerance < |sum / 12 - 100|)
  | .infinite _ => true
  | .nan => false

def checkSeries (p : SciCode × List SciPoint) : Except SciParseError Unit :=
  let base := (p.2.filter (fun point ↦ point.year = sciBaseYear)).map SciPoint.value
  let sum := base.foldl addValues (.finite 0)
  if p.2 = [] then .error (.noNumbers p.1)
  else if base.length ≠ 12 then .error (.baseMonths p.1 base.length)
  else if offBase sum then .error (.baseMean p.1 sum)
  else .ok ()

def parseWorkbook (grid : List (List Cell)) : Except SciParseError (SciCode → List SciPoint) := do
  if grid.length < 4 then throw (.tooFewRows grid.length)
  let columns ← axis nfkc grid
  if columns = [] then throw .noColumns
  let found := (grid.drop 3).foldl (collect nfkc columns) []
  if missingSeries found ≠ [] then throw (.missingSeries (missingSeries found))
  found.forM checkSeries
  return fun code ↦ (found.lookup code).getD []

end Parsing

section Headers

variable (nfkc : Nfkc) (grid : List (List Cell))

def statedYear (years : List Cell) (col : ℕ) : Option ℤ :=
  match checkedJalaliYear (at? years col) with
  | .ok stated => stated
  | .error _ => none

def yearBetween (col col' : ℕ) : Option ℤ := lastHeading (statedYear (yearRow grid)) col col'

def monthOf (col : ℕ) : Option ℤ := monthNumber nfkc (at? (monthRow grid) col)

structure Claims (col : ℕ) (year month : ℤ) : Prop where
  pos : 1 ≤ col
  year : yearBetween grid 0 col = some year
  month : monthOf nfkc grid col = some month

def Follows (year month : ℤ) (stated : Option ℤ) (month' : ℤ) : Prop :=
  match stated with
  | none => month < month'
  | some year' => year < year' ∨ year = year' ∧ month < month'

/-- From each column with a month to the next one, either the month is later or a later year is
stated, and never an earlier one. -/
def HeaderInOrder : Prop :=
  ∀ col col' year month month', Claims nfkc grid col year month →
    monthOf nfkc grid col' = some month' → col < col' →
      (∀ between, col < between → between < col' → monthOf nfkc grid between = none) →
        Follows year month (yearBetween grid col col') month'

def isLabelled (code : SciCode) (row : List Cell) : Bool :=
  match row.head? with
  | some (.text s) => normalizeFa nfkc s = normalizeFa nfkc code.indicator
  | _ => false

structure WellBound (book : SciCode → List SciPoint) : Prop where
  ascending : ∀ code, ((book code).map SciPoint.period).Pairwise (· < ·)
  cells : ∀ code, ∃ row, (grid.drop 3).find? (isLabelled nfkc code) = some row ∧
    ∀ point, point ∈ book code ↔ ∃ col, Claims nfkc grid col point.year point.month ∧
      (at? row col).value? = some point.value
  columns : ∀ col col' year month year' month', Claims nfkc grid col year month →
    Claims nfkc grid col' year' month' → col < col' → toLex (year, month) < toLex (year', month')

end Headers

section Axis

variable {nfkc : Nfkc} {grid : List (List Cell)}

theorem axisFrom_spec {years headers : List Cell} {col : ℕ} {current : Option ℤ}
    {columns : List AxisColumn} (h : axisFrom nfkc years (col + 1) current headers = .ok columns)
    (hcurrent : current = lastHeading (statedYear years) 0 col) :
    (columns.map AxisColumn.col).Pairwise (· < ·) ∧ ∀ column, column ∈ columns ↔
      col + 1 ≤ column.col ∧ lastHeading (statedYear years) 0 column.col = some column.year ∧
        monthNumber nfkc (at? headers (column.col - (col + 1))) = some column.month := by
  induction headers generalizing col current columns with
  | nil =>
    obtain rfl := Except.ok.inj h
    refine ⟨.nil, fun column ↦ iff_of_false not_mem_nil (fun hcolumn ↦ ?_)⟩
    exact nomatch hcolumn.2.2
  | cons header headers ih =>
    rw [axisFrom] at h
    obtain ⟨stated, hstated, h⟩ := bind_eq_ok.mp h
    obtain ⟨rest, hrest, h⟩ := bind_eq_ok.mp h
    have hcurrent' : stated.or current = lastHeading (statedYear years) 0 (col + 1) := by
      rw [lastHeading_succ (Nat.zero_le col), statedYear, hstated, hcurrent]
    obtain ⟨hascend, hmem⟩ := ih hrest hcurrent'
    -- The column in hand, and those after it.
    have hhead (column : AxisColumn) (hcol : column.col = col + 1) :
        (col + 1 ≤ column.col ∧ lastHeading (statedYear years) 0 column.col = some column.year ∧
          monthNumber nfkc (at? (header :: headers) (column.col - (col + 1))) =
            some column.month) ↔
        stated.or current = some column.year ∧ monthNumber nfkc header = some column.month := by
      rw [hcol, Nat.sub_self, ← hcurrent']
      exact and_iff_right (Nat.le_refl _)
    have htail (column : AxisColumn) (hcol : column.col ≠ col + 1) :
        (col + 1 ≤ column.col ∧ lastHeading (statedYear years) 0 column.col = some column.year ∧
          monthNumber nfkc (at? (header :: headers) (column.col - (col + 1))) =
            some column.month) ↔ column ∈ rest := by
      have hcell (hle : col + 1 + 1 ≤ column.col) :
          at? (header :: headers) (column.col - (col + 1)) =
            at? headers (column.col - (col + 1 + 1)) := by
        have hindex : column.col - (col + 1) = column.col - (col + 1 + 1) + 1 := by omega
        rw [hindex]
        rfl
      rw [hmem]
      constructor
      · rintro ⟨hle, hyear, hmonth⟩
        have hnext : col + 1 + 1 ≤ column.col := by omega
        exact ⟨hnext, hyear, hcell hnext ▸ hmonth⟩
      · rintro ⟨hle, hyear, hmonth⟩
        exact ⟨by omega, hyear, (hcell hle).symm ▸ hmonth⟩
    have hfresh : ∀ column ∈ rest, col + 1 < column.col := fun column hin ↦ ((hmem column).mp hin).1
    have hskip (hnone : ¬∃ year month, stated.or current = some year ∧
        monthNumber nfkc header = some month) (column : AxisColumn) : column ∈ rest ↔
          col + 1 ≤ column.col ∧ lastHeading (statedYear years) 0 column.col = some column.year ∧
            monthNumber nfkc (at? (header :: headers) (column.col - (col + 1))) =
              some column.month := by
      by_cases hcol : column.col = col + 1
      · rw [hhead column hcol]
        refine iff_of_false (fun hin ↦ (hfresh column hin).ne' hcol) (fun hboth ↦ ?_)
        exact hnone ⟨_, _, hboth⟩
      · rw [htail column hcol]
    split at h
    next year month hyear hmonth =>
      obtain rfl := Except.ok.inj h
      refine ⟨?_, fun column ↦ ?_⟩
      · refine pairwise_cons.mpr ⟨fun c hc ↦ ?_, hascend⟩
        obtain ⟨column, hin, rfl⟩ := mem_map.mp hc
        exact hfresh column hin
      · rw [mem_cons]
        by_cases hcol : column.col = col + 1
        · rw [hhead column hcol, hyear, hmonth, Option.some.injEq, Option.some.injEq]
          obtain ⟨c, y, m⟩ := column
          obtain rfl : c = col + 1 := hcol
          constructor
          · rintro (heq | hin)
            · cases heq
              exact ⟨rfl, rfl⟩
            · exact absurd rfl (hfresh _ hin).ne
          · rintro ⟨rfl, rfl⟩
            exact .inl rfl
        · rw [htail column hcol]
          exact or_iff_right (fun heq ↦ hcol (heq ▸ rfl))
    next hnot =>
      obtain rfl := Except.ok.inj h
      exact ⟨hascend, hskip (fun ⟨year, month, hyear, hmonth⟩ ↦ hnot year month hyear hmonth)⟩

theorem axis_spec {columns : List AxisColumn} (h : axis nfkc grid = .ok columns) :
    (columns.map AxisColumn.col).Pairwise (· < ·) ∧ ∀ column, column ∈ columns ↔
      Claims nfkc grid column.col column.year column.month := by
  obtain ⟨hascend, hmem⟩ := axisFrom_spec h (lastHeading_self 0).symm
  have hcell (row : List Cell) (col : ℕ) (hpos : 1 ≤ col) :
      at? row.tail (col - (0 + 1)) = at? row col := by
    obtain ⟨k, rfl⟩ := Nat.exists_eq_add_of_le hpos
    cases row with
    | nil => rfl
    | cons cell row => rw [Nat.zero_add, Nat.add_sub_cancel_left, Nat.add_comm]; rfl
  refine ⟨hascend, fun column ↦ (hmem column).trans ⟨?_, ?_⟩⟩
  · rintro ⟨hpos, hyear, hmonth⟩
    exact ⟨hpos, hyear, by rwa [monthOf, ← hcell _ _ hpos]⟩
  · rintro ⟨hpos, hyear, hmonth⟩
    exact ⟨hpos, hyear, by rwa [hcell _ _ hpos]⟩

end Axis

section Series

variable {nfkc : Nfkc} {grid : List (List Cell)} {columns : List AxisColumn}

theorem plain_indicator (code : SciCode) : code.indicator.all isPlain = true := by
  cases code <;> decide

theorem normalizeFa_plain {s : Text} (h : s.all isPlain = true) :
    normalizeFa nfkc s = normalizeFa Nfkc.none s := by
  rw [normalizeFa, normalizeFa, nfkc.plain s h, Nfkc.none.plain s h]

theorem SciCode.mem_all (code : SciCode) : code ∈ SciCode.all := by
  cases code <;> decide

theorem targets_nodup : ((targets nfkc).map Prod.fst).Nodup := by
  have hplain : (targets nfkc).map Prod.fst =
      SciCode.all.map (fun code ↦ normalizeFa Nfkc.none code.indicator) := by
    rw [targets, map_map]
    exact map_congr_left (fun code _ ↦ normalizeFa_plain (plain_indicator code))
  rw [hplain]
  decide +kernel

theorem rowCode_iff {row : List Cell} {code : SciCode} :
    rowCode nfkc row = some code ↔ isLabelled nfkc code row = true := by
  have hlookup (s : Text) : (targets nfkc).lookup (normalizeFa nfkc s) = some code ↔
      normalizeFa nfkc s = normalizeFa nfkc code.indicator := by
    constructor
    · intro h
      obtain ⟨code', _, heq⟩ := mem_map.mp (mem_of_lookup h)
      obtain ⟨hlabel, rfl⟩ := Prod.mk.inj heq
      exact hlabel.symm
    · intro h
      have hmem : (normalizeFa nfkc code.indicator, code) ∈ targets nfkc :=
        mem_map_of_mem code.mem_all
      exact h ▸ lookup_of_mem targets_nodup hmem
  rw [rowCode, isLabelled]
  split
  next s _ => rw [hlookup, decide_eq_true_eq]
  next => exact iff_of_false (fun h ↦ nomatch h) (fun h ↦ nomatch h)

theorem lookup_collect (rows : List (List Cell)) (found : FoundSeries) (code : SciCode) :
    (rows.foldl (collect nfkc columns) found).lookup code =
      (found.lookup code).or ((rows.find? (isLabelled nfkc code)).map (pointsOf columns)) := by
  induction rows generalizing found with
  | nil => exact Option.or_none.symm
  | cons row rows ih =>
    rw [foldl_cons, ih, find?_cons, collect]
    cases hrow : rowCode nfkc row with
    | none =>
      have hother : isLabelled nfkc code row = false :=
        Bool.eq_false_iff.mpr (fun h ↦ nomatch hrow.symm.trans (rowCode_iff.mpr h))
      rw [hother]
    | some code' =>
      by_cases hcode : code' = code
      · subst hcode
        rw [rowCode_iff.mp hrow]
        dsimp only
        cases hfound : found.lookup code' with
        | some points =>
          rw [if_pos Option.isSome_some, hfound]
          rfl
        | none =>
          rw [if_neg (by decide), lookup_append, hfound, lookup_cons_self]
          rfl
      · have hother : isLabelled nfkc code row = false := by
          refine Bool.eq_false_iff.mpr (fun h ↦ hcode ?_)
          exact Option.some.inj (hrow.symm.trans (rowCode_iff.mpr h))
        rw [hother]
        dsimp only
        split_ifs
        · rfl
        · have hnew : [(code', pointsOf columns row)].lookup code = none := by
            rw [lookup_cons, beq_false_of_ne (Ne.symm hcode)]
            rfl
          rw [lookup_append, hnew, Option.or_none]

theorem parseWorkbook_eq : parseWorkbook nfkc grid =
    if grid.length < 4 then .error (.tooFewRows grid.length)
    else axis nfkc grid >>= fun columns ↦
      if columns = [] then .error .noColumns
      else
        let found := (grid.drop 3).foldl (collect nfkc columns) []
        if missingSeries found ≠ [] then .error (.missingSeries (missingSeries found))
        else found.forM checkSeries >>= fun _ ↦ .ok (fun code ↦ (found.lookup code).getD []) := rfl

theorem parseWorkbook_spec {book : SciCode → List SciPoint} (h : parseWorkbook nfkc grid = .ok book) :
    ∃ columns, axis nfkc grid = .ok columns ∧ ∀ code, ∃ row,
      (grid.drop 3).find? (isLabelled nfkc code) = some row ∧ book code = pointsOf columns row ∧
        checkSeries (code, book code) = .ok () := by
  rw [parseWorkbook_eq] at h
  split_ifs at h
  obtain ⟨columns, hcolumns, h⟩ := bind_eq_ok.mp h
  split_ifs at h
  dsimp only at h
  split_ifs at h with hmissing
  obtain ⟨_, hchecks, h⟩ := bind_eq_ok.mp h
  obtain rfl := Except.ok.inj h
  refine ⟨columns, hcolumns, fun code ↦ ?_⟩
  have hlookup : ((grid.drop 3).foldl (collect nfkc columns) []).lookup code =
      ((grid.drop 3).find? (isLabelled nfkc code)).map (pointsOf columns) :=
    (lookup_collect (grid.drop 3) [] code).trans (Option.none_or ..)
  have hpresent := filter_eq_nil_iff.mp (not_not.mp hmissing) code (by cases code <;> decide)
  cases hrow : (grid.drop 3).find? (isLabelled nfkc code) with
  | none =>
    rw [hlookup, hrow] at hpresent
    exact absurd rfl hpresent
  | some row =>
    rw [hrow] at hlookup
    dsimp only
    rw [hlookup]
    exact ⟨row, rfl, rfl, eq_ok_of_forM hchecks _ (mem_of_lookup hlookup)⟩

end Series

section Order

variable {nfkc : Nfkc} {grid : List (List Cell)}

theorem yearBetween_or {col col' : ℕ} (h : col ≤ col') :
    yearBetween grid 0 col' = (yearBetween grid col col').or (yearBetween grid 0 col) :=
  lastHeading_or (Nat.zero_le col) h

theorem Claims.next {col col' : ℕ} {year month month' : ℤ} (h : Claims nfkc grid col year month)
    (hlt : col < col') (hmonth : monthOf nfkc grid col' = some month') :
    ∃ year', Claims nfkc grid col' year' month' ∧
      (yearBetween grid col col').or (some year) = some year' := by
  have hyear : yearBetween grid 0 col' =
      (yearBetween grid col col').or (yearBetween grid 0 col) := yearBetween_or hlt.le
  rw [h.year] at hyear
  cases hstated : yearBetween grid col col' with
  | none =>
    rw [hstated] at hyear
    exact ⟨year, ⟨h.pos.trans hlt.le, hyear, hmonth⟩, rfl⟩
  | some year' =>
    rw [hstated] at hyear
    exact ⟨year', ⟨h.pos.trans hlt.le, hyear, hmonth⟩, rfl⟩

theorem follows_iff {year month year' month' : ℤ} {stated : Option ℤ}
    (h : stated.or (some year) = some year') :
    Follows year month stated month' ↔ toLex (year, month) < toLex (year', month') := by
  rw [Prod.Lex.lt_iff]
  cases stated with
  | none =>
    obtain rfl : year = year' := Option.some.inj h
    exact ⟨fun hlt ↦ .inr ⟨rfl, hlt⟩, fun hlt ↦ hlt.elim (absurd · (lt_irrefl _)) And.right⟩
  | some stated =>
    obtain rfl : stated = year' := Option.some.inj h
    exact Iff.rfl

theorem Claims.unique {col : ℕ} {year month year' month' : ℤ} (h : Claims nfkc grid col year month)
    (h' : Claims nfkc grid col year' month') : year = year' ∧ month = month' :=
  ⟨Option.some.inj (h.year.symm.trans h'.year), Option.some.inj (h.month.symm.trans h'.month)⟩

theorem columns_ascend_iff : HeaderInOrder nfkc grid ↔ ∀ col col' year month year' month',
    Claims nfkc grid col year month → Claims nfkc grid col' year' month' → col < col' →
      toLex (year, month) < toLex (year', month') := by
  constructor
  · intro h col col' year month year' month' hcol hcol' hlt
    have hpair := rel_of_neighbours
      (p := fun col ↦ ∃ year month, Claims nfkc grid col year month)
      (r := fun col col' ↦ ∀ year month year' month', Claims nfkc grid col year month →
        Claims nfkc grid col' year' month' → toLex (year, month) < toLex (year', month'))
      ?_ ?_ ⟨year, month, hcol⟩ ⟨year', month', hcol'⟩ hlt
    · exact hpair year month year' month' hcol hcol'
    · rintro i j k ⟨year, month, hj⟩ hij hjk year' month' year'' month'' hi hk
      exact (hij _ _ _ _ hi hj).trans (hjk _ _ _ _ hj hk)
    · rintro col col' _ _ hlt hbetween year month year' month' hcol hcol'
      have hnone : ∀ between, col < between → between < col' → monthOf nfkc grid between = none := by
        intro between hleft hright
        cases hmonth : monthOf nfkc grid between with
        | none => rfl
        | some month' =>
          obtain ⟨year', hclaims, _⟩ := hcol.next hleft hmonth
          exact absurd ⟨year', month', hclaims⟩ (hbetween between hleft hright)
      have hfollows := h col col' year month month' hcol hcol'.month hlt hnone
      obtain ⟨year'', hclaims, hstated⟩ := hcol.next hlt hcol'.month
      obtain ⟨rfl, _⟩ := hclaims.unique hcol'
      exact (follows_iff hstated).mp hfollows
  · intro h col col' year month month' hcol hmonth hlt _
    obtain ⟨year', hcol', hstated⟩ := hcol.next hlt hmonth
    exact (follows_iff hstated).mpr (h _ _ _ _ _ _ hcol hcol' hlt)

theorem mem_pointsOf {columns : List AxisColumn} {row : List Cell}
    (hcolumns : axis nfkc grid = .ok columns) {point : SciPoint} :
    point ∈ pointsOf columns row ↔ ∃ col, Claims nfkc grid col point.year point.month ∧
      (at? row col).value? = some point.value := by
  have hmem := (axis_spec hcolumns).2
  rw [pointsOf, mem_filterMap]
  constructor
  · rintro ⟨column, hcolumn, hpoint⟩
    obtain ⟨value, hvalue, rfl⟩ := Option.map_eq_some_iff.mp hpoint
    exact ⟨column.col, (hmem column).mp hcolumn, hvalue⟩
  · rintro ⟨col, hclaims, hvalue⟩
    refine ⟨⟨col, point.year, point.month⟩, (hmem _).mpr hclaims, ?_⟩
    rw [pointAt, hvalue]
    rfl

theorem pointsOf_ascending {columns : List AxisColumn} (hcolumns : axis nfkc grid = .ok columns)
    (hascend : ∀ col col' year month year' month', Claims nfkc grid col year month →
      Claims nfkc grid col' year' month' → col < col' → toLex (year, month) < toLex (year', month'))
    (row : List Cell) : ((pointsOf columns row).map SciPoint.period).Pairwise (· < ·) := by
  obtain ⟨hcols, hmem⟩ := axis_spec hcolumns
  rw [pairwise_map, pointsOf, pairwise_filterMap]
  refine (pairwise_map.mp hcols).imp_of_mem (fun {a b} ha hb hlt p hp q hq ↦ ?_)
  obtain ⟨_, _, rfl⟩ := Option.map_eq_some_iff.mp hp
  obtain ⟨_, _, rfl⟩ := Option.map_eq_some_iff.mp hq
  exact hascend _ _ _ _ _ _ ((hmem a).mp ha) ((hmem b).mp hb) hlt

/-- An accepted workbook is bound as it should be exactly when its header is in order. -/
theorem parseWorkbook_wellBound_iff (nfkc : Nfkc) (grid : List (List Cell))
    (book : SciCode → List SciPoint) (h : parseWorkbook nfkc grid = .ok book) :
    WellBound nfkc grid book ↔ HeaderInOrder nfkc grid := by
  obtain ⟨columns, hcolumns, hbook⟩ := parseWorkbook_spec h
  refine ⟨fun hbound ↦ columns_ascend_iff.mpr hbound.columns, fun horder ↦ ⟨fun code ↦ ?_,
    fun code ↦ ?_, columns_ascend_iff.mp horder⟩⟩
  · obtain ⟨row, _, hpoints, _⟩ := hbook code
    rw [hpoints]
    exact pointsOf_ascending hcolumns (columns_ascend_iff.mp horder) row
  · obtain ⟨row, hrow, hpoints, _⟩ := hbook code
    refine ⟨row, hrow, fun point ↦ ?_⟩
    rw [hpoints]
    exact mem_pointsOf hcolumns

def threeYears (first second third : Cell) : List (List Cell) :=
  let block (year : Cell) : List Cell := year :: List.replicate 11 .empty
  let months : List Cell := jalaliMonths.map Cell.text
  let series (code : SciCode) : List Cell :=
    .text code.indicator :: List.replicate 36 (.number 100)
  [[.empty], .empty :: (block first ++ block second ++ block third),
    .empty :: (months ++ months ++ months)] ++ SciCode.all.map series

def monthsOf (year : ℤ) : List (ℤ × ℤ) := (List.range 12).map (fun m : ℕ ↦ (year, (m : ℤ) + 1))

theorem threeYears_wellBound : ∃ book, parseWorkbook Nfkc.none
      (threeYears (.number 1400) (.number 1401) (.number 1402)) = .ok book ∧
    (WellBound Nfkc.none (threeYears (.number 1400) (.number 1401) (.number 1402)) book ↔
      HeaderInOrder Nfkc.none (threeYears (.number 1400) (.number 1401) (.number 1402))) := by
  have haccepted : (parseWorkbook Nfkc.none
      (threeYears (.number 1400) (.number 1401) (.number 1402))).toOption.isSome = true := by
    decide +kernel
  cases hbook : parseWorkbook Nfkc.none
      (threeYears (.number 1400) (.number 1401) (.number 1402)) with
  | error e =>
    rw [hbook] at haccepted
    cases haccepted
  | ok book => exact ⟨book, rfl, parseWorkbook_wellBound_iff _ _ book hbook⟩

/-- A block whose year is missing is taken for a second one of the year before. -/
theorem threeYears_missing_year : ∃ book, parseWorkbook Nfkc.none
      (threeYears (.number 1400) (.number 1401) .empty) = .ok book ∧
    ¬WellBound Nfkc.none (threeYears (.number 1400) (.number 1401) .empty) book := by
  have hperiods : (parseWorkbook Nfkc.none
      (threeYears (.number 1400) (.number 1401) .empty)).toOption.map
        (fun book ↦ (book .urban).map (fun point ↦ (point.year, point.month))) =
      some (monthsOf 1400 ++ monthsOf 1401 ++ monthsOf 1401) := by decide +kernel
  cases hbook : parseWorkbook Nfkc.none (threeYears (.number 1400) (.number 1401) .empty) with
  | error e =>
    rw [hbook] at hperiods
    cases hperiods
  | ok book =>
    refine ⟨book, rfl, fun hbound ↦ ?_⟩
    have hdistinct : ((book .urban).map (fun point ↦ (point.year, point.month))).Nodup :=
      pairwise_map.mpr ((pairwise_map.mp (hbound.ascending .urban)).imp
        (fun hlt heq ↦ hlt.ne (congrArg toLex heq)))
    have hlist : (book .urban).map (fun point ↦ (point.year, point.month)) =
        monthsOf 1400 ++ monthsOf 1401 ++ monthsOf 1401 := by
      rw [hbook] at hperiods
      exact Option.some.inj hperiods
    exact absurd (hlist ▸ hdistinct) (by decide)

end Order

section Workbook

variable {nfkc : Nfkc} {grid : List (List Cell)}

theorem checkedYear_mem {year year' : ℤ} (h : checkedYear year = .ok year') :
    minSciYear ≤ year' ∧ year' ≤ maxSciYear := by
  rw [checkedYear] at h
  split_ifs at h with hyear
  exact Except.ok.inj h ▸ hyear

theorem statedYear_mem {years : List Cell} {col : ℕ} {year : ℤ}
    (h : statedYear years col = some year) : minSciYear ≤ year ∧ year ≤ maxSciYear := by
  have hchecked {x : Except SciParseError ℤ} (hx : x.map some = .ok (some year)) :
      x = .ok year := by
    cases x with
    | error e => cases hx
    | ok year' => exact congrArg _ (Option.some.inj (Except.ok.inj hx))
  have hstated : checkedJalaliYear (at? years col) = .ok (some year) := by
    rw [statedYear] at h
    split at h
    next stated hstated => rw [hstated, h]
    next => cases h
  generalize at? years col = cell at hstated
  cases cell with
  | number q =>
    rw [checkedJalaliYear] at hstated
    split_ifs at hstated
    · cases hstated
    · exact checkedYear_mem (hchecked hstated)
  | text s =>
    rw [checkedJalaliYear] at hstated
    split_ifs at hstated
    · split at hstated
      next digits _ => exact checkedYear_mem (hchecked hstated)
      next => cases hstated
    · cases hstated
  | _ => cases hstated

theorem monthNumber_mem {cell : Cell} {month : ℤ} (h : monthNumber nfkc cell = some month) :
    1 ≤ month ∧ month ≤ 12 := by
  cases cell with
  | text s =>
    rw [monthNumber] at h
    split_ifs at h with hmem
    obtain rfl := Option.some.inj h
    have hlt : (jalaliMonths.map (normalizeFa nfkc)).idxOf (normalizeFa nfkc s) < 12 :=
      idxOf_lt_length_of_mem hmem
    omega
  | _ => cases h

theorem jalaliMonthSpan_isSome {year month : ℤ} (hyear : minSciYear ≤ year ∧ year ≤ maxSciYear)
    (hmonth : 1 ≤ month ∧ month ≤ 12) : (jalaliMonthSpan year month).isSome = true := by
  obtain ⟨hstart, hnext⟩ := monthAt_index year hmonth.1 hmonth.2
  have hyears : 1300 ≤ year ∧ year ≤ 1500 := hyear
  have hfirst : 1 ≤ monthAt (1300 * 12) := by decide
  have hlast : monthAt (1501 * 12) ≤ maxOrdinal := by decide
  refine Option.isSome_iff_exists.mpr ⟨_, jalaliMonthSpan_eq_some.mpr ⟨rfl, ?_, ?_⟩⟩
  · rw [← hstart]
    exact ⟨hfirst.trans (monthAt_mono (by omega)), (monthAt_mono (by omega)).trans hlast⟩
  · rw [← hnext]
    exact ⟨hfirst.trans (monthAt_mono (by omega)), (monthAt_mono (by omega)).trans hlast⟩

theorem Claims.isSome {col : ℕ} {year month : ℤ} (h : Claims nfkc grid col year month) :
    (jalaliMonthSpan year month).isSome = true := by
  obtain ⟨_, hstated⟩ := exists_of_lastHeading h.year
  exact jalaliMonthSpan_isSome (statedYear_mem hstated) (monthNumber_mem h.month)

theorem foldl_addValues (base : List Value) (figures : List ℚ) (sum : ℚ)
    (h : base = figures.map Value.finite) :
    base.foldl addValues (.finite sum) = .finite (sum + figures.sum) := by
  subst h
  induction figures generalizing sum with
  | nil => rw [sum_nil, add_zero]; rfl
  | cons q figures ih =>
    rw [map_cons, foldl_cons, addValues, ih, sum_cons, add_assoc]

theorem checkSeries_spec {code : SciCode} {points : List SciPoint}
    (h : checkSeries (code, points) = .ok ()) : points ≠ [] ∧
      (points.filter (fun point ↦ point.year = sciBaseYear)).length = 12 ∧
        ∀ figures : List ℚ, (points.filter (fun point ↦ point.year = sciBaseYear)).map
          SciPoint.value = figures.map Value.finite → |figures.sum / 12 - 100| ≤ sciBaseTolerance := by
  rw [checkSeries] at h
  dsimp only at h
  split_ifs at h with hempty hlength hmean
  refine ⟨hempty, by simpa using hlength, fun figures hfigures ↦ ?_⟩
  rw [foldl_addValues _ figures 0 hfigures, zero_add, offBase, decide_eq_true_eq] at hmean
  exact not_lt.mp hmean

def SciPoint.observe (point : SciPoint)
    (hspan : (jalaliMonthSpan point.year point.month).isSome = true) (hnumber : point.value ≠ .nan) :
    SciObservation where
  jalaliYear := point.year
  jalaliMonth := point.month
  refPeriodStart := ((jalaliMonthSpan point.year point.month).get hspan).1
  refPeriodEnd := ((jalaliMonthSpan point.year point.month).get hspan).2
  value := point.value
  span := by rw [Prod.mk.eta, Option.some_get]
  number := hnumber

def SciObservation.point (point : SciObservation) : SciPoint :=
  ⟨point.jalaliYear, point.jalaliMonth, point.value⟩

theorem finite_values {points : List SciPoint} (h : ∀ point ∈ points, ∃ q, point.value = .finite q) :
    ∃ figures : List ℚ, points.map SciPoint.value = figures.map Value.finite := by
  induction points with
  | nil => exact ⟨[], rfl⟩
  | cons point points ih =>
    obtain ⟨⟨q, hq⟩, hrest⟩ := forall_mem_cons.mp h
    obtain ⟨figures, hfigures⟩ := ih hrest
    exact ⟨q :: figures, by rw [map_cons, map_cons, hq, hfigures]⟩

theorem mapM_finite? (figures : List ℚ) :
    (figures.map Value.finite).mapM Value.finite? = some figures := by
  induction figures with
  | nil => rfl
  | cons q figures ih =>
    rw [map_cons, mapM_cons, ih]
    rfl

/-- A workbook the parser accepts is one as the ingest takes it. -/
theorem parseWorkbook_workbook {book : SciCode → List SciPoint}
    (h : parseWorkbook nfkc grid = .ok book)
    (hfinite : ∀ code, ∀ point ∈ book code, ∃ q, point.value = .finite q) :
    ∃ workbook : SciWorkbook, ∀ code,
      (workbook.points code).map SciObservation.point = book code := by
  obtain ⟨columns, hcolumns, hbook⟩ := parseWorkbook_spec h
  have hobserve : ∀ code, ∃ points : List SciObservation,
      points.map SciObservation.point = book code := by
    intro code
    obtain ⟨row, _, hpoints, _⟩ := hbook code
    have hspan : ∀ point ∈ book code, (jalaliMonthSpan point.year point.month).isSome = true := by
      intro point hpoint
      rw [hpoints, mem_pointsOf hcolumns] at hpoint
      obtain ⟨col, hclaims, _⟩ := hpoint
      exact hclaims.isSome
    have hnumber : ∀ point ∈ book code, point.value ≠ .nan := by
      intro point hpoint hnan
      obtain ⟨q, hq⟩ := hfinite code point hpoint
      exact nomatch hq.symm.trans hnan
    refine ⟨(book code).attach.map (fun p ↦ p.1.observe (hspan p.1 p.2) (hnumber p.1 p.2)), ?_⟩
    rw [map_map]
    exact attach_map_subtype_val (book code)
  choose points hpoints using hobserve
  have hbase (code : SciCode) : (basePoints (points code)).map SciObservation.point =
      (book code).filter (fun point ↦ point.year = sciBaseYear) := by
    rw [← hpoints code, filter_map]
    rfl
  have hchecks (code : SciCode) := checkSeries_spec (hbook code).choose_spec.2.2
  refine ⟨⟨points, fun code hempty ↦ ?_, fun code ↦ ?_, fun code ↦ ?_⟩, hpoints⟩
  · exact (hchecks code).1 (by rw [← hpoints code, hempty]; rfl)
  · rw [← (hchecks code).2.1, ← hbase, length_map]
  · obtain ⟨figures, hfigures⟩ := finite_values (fun point hpoint ↦
      hfinite code point (mem_of_mem_filter hpoint) : ∀ point ∈
        (book code).filter (fun point ↦ point.year = sciBaseYear), _)
    have hvalues : (basePoints (points code)).map SciObservation.value =
        figures.map Value.finite := by
      rw [← hfigures, ← hbase, map_map]
      rfl
    refine ⟨figures.sum / 12, ?_, (hchecks code).2.2 figures hfigures⟩
    rw [baseMean, hvalues, mapM_finite?]
    rfl

theorem threeYears_workbook : ∃ (book : SciCode → List SciPoint) (workbook : SciWorkbook),
    (book .urban).length = 36 ∧
      ∀ code, (workbook.points code).map SciObservation.point = book code := by
  have haccepted : (parseWorkbook Nfkc.none
      (threeYears (.number 1400) (.number 1401) (.number 1402))).toOption.any (fun book ↦
        (book .urban).length = 36 && SciCode.all.all (fun code ↦ (book code).all (fun point ↦
          decide (point.value = .finite 100)))) = true := by decide +kernel
  cases hbook : parseWorkbook Nfkc.none
      (threeYears (.number 1400) (.number 1401) (.number 1402)) with
  | error e =>
    rw [hbook] at haccepted
    cases haccepted
  | ok book =>
    rw [hbook] at haccepted
    obtain ⟨hlength, hvalues⟩ := Bool.and_eq_true_iff.mp haccepted
    obtain ⟨workbook, hpoints⟩ := parseWorkbook_workbook hbook (fun code point hpoint ↦
      ⟨100, of_decide_eq_true (all_eq_true.mp (all_eq_true.mp hvalues code
        (by cases code <;> decide)) point hpoint)⟩)
    exact ⟨book, workbook, of_decide_eq_true hlength, hpoints⟩

end Workbook

end TalaPala.Economic
