import TalaPala.Economic.CbiEditions
import TalaPala.Economic.SheetText
import TalaPala.Library.Rounding

namespace TalaPala.Economic

open Library (findAll halfEven occurs)
open News (Text isSpace strip)

section Records

inductive RowKey
  | series (code : CbiCode)
  | baseMoneyUses
  | m2Components
  deriving DecidableEq

def RowKey.all : List RowKey :=
  [.series .liquidity, .series .baseMoney, .series .moneyM1, .series .quasiMoney, .baseMoneyUses,
    .m2Components]

def RowKey.label : RowKey → Text
  | .series .liquidity => "نقدينگي برحسب عوامل موثر بر عرضه".toList
  | .series .baseMoney => "پايه پولي از سمت منابع".toList
  | .series .moneyM1 => "پول".toList
  | .series .quasiMoney => "شبه پول".toList
  | .baseMoneyUses => "پايه پولي از سمت مصارف".toList
  | .m2Components => "نقدينگي برحسب اجزاي تشکيل‌دهنده".toList

inductive Identity
  | baseMoney
  | liquidity
  | money
  deriving DecidableEq

inductive CbiParseError
  | noTitle
  | titlePeriods (stated : List Edition)
  | notAMonth (edition : Edition)
  | noYearRow
  | noUnit
  | severalUnits (stated : List Text)
  | unknownUnit (phrase : Text)
  | noBalanceHeader
  | noGrowthHeader
  | growthNotRight (growth first : ℕ)
  | noMonthName (col : ℕ) (year : ℤ) (edition : Edition)
  | otherMonths (edition : Edition) (found : List Month)
  | repeatedLabel (key : RowKey) (row row' : ℕ)
  | notANumber (key : RowKey) (month : Month) (row col : ℕ)
  | notPositive (key : RowKey) (month : Month) (value : ℚ)
  | notFinite (key : RowKey) (row col : ℕ)
  | missingRows (keys : List RowKey)
  | accounting (what : Identity) (month : Month) (a b : ℚ) (col : ℕ)
  | overflowMark (key : RowKey) (col : ℕ) (computed : ℚ)
  | growthNotANumber (key : RowKey) (col : ℕ)
  | growth (key : RowKey) (col : ℕ) (printed computed : ℚ)
  | revisionStarts (stated : List Month)
  deriving DecidableEq

structure ParsedSheet where
  edition : Edition
  unit : String
  sheetName : String
  observations : CbiCode → List CbiObservation
  baseMoneyMethod : Method
  revisionStart : Option Month
  accountingMaxGap : ℚ
  growthMaxGapPct : ℚ
  rows : List (RowKey × ℕ)
  columns : List Month

def growthTolerance : ℚ := 1 / 10

def growthOverflowPct : ℚ := 500

def headerScanRows : ℕ := 12

def minJalaliYear : ℤ := 1300

def maxJalaliYear : ℤ := 1500

end Records

section Header

variable (nfkc : Nfkc)

def rowTexts (row : List Cell) : List (ℕ × Text) :=
  row.zipIdx.filterMap (fun p ↦
    match p.1 with
    | .text s => if strip s = [] then none else some (p.2, sheetText nfkc s)
    | _ => none)

def titleKey : Text := labelKey nfkc "متغیرهای عمده پولی و اعتباری".toList

def yearOf : Cell → Option ℤ
  | .number q =>
    if q.den = 1 ∧ minJalaliYear ≤ q.num ∧ q.num ≤ maxJalaliYear then some q.num else none
  | _ => none

def rowAt (grid : List (List Cell)) (index : ℕ) : List Cell := grid.getD index []

def findTitleRow (grid : List (List Cell)) : Except CbiParseError ℕ :=
  match (List.range headerScanRows).find? (fun index ↦
      (rowTexts nfkc (rowAt grid index)).any (fun t ↦ occurs (titleKey nfkc) (labelKey nfkc t.2)))
    with
  | some index => .ok index
  | none => .error .noTitle

def fourDigits (s : Text) : Option ℤ :=
  if 4 ≤ s.length then ((s.take 4).mapM decimalDigit).map decimalNumber else none

def monthYearAt (s : Text) : Option (Month × ℕ) :=
  ((jalaliMonths.map (normalizeFa nfkc)).zipIdx 1).findSome? (fun name ↦
    if name.1.isPrefixOf s then
      let rest := (s.drop name.1.length).dropWhile isSpace
      (fourDigits rest).map (fun year ↦ ((year, name.2), s.length - rest.length + 4))
    else none)

def editionFromTitle (row : List Cell) : Except CbiParseError Edition :=
  let found := ((rowTexts nfkc row).flatMap (fun t ↦ findAll (monthYearAt nfkc) 0 t.2)).dedup
  match found with
  | [(year, month)] =>
    if minJalaliYear ≤ year ∧ year ≤ maxJalaliYear ∧ month ≠ 0 then .ok ⟨year, month⟩
    else .error (.notAMonth ⟨year, month⟩)
  | _ => .error (.titlePeriods (found.map (fun m ↦ ⟨m.1, m.2⟩)))

def afterWord (word : Text) (s : Text) : Option Text :=
  if word.isPrefixOf s then some (s.drop word.length) else none

def afterSpaced (word : Text) (s : Text) : Option Text :=
  (afterWord word s).map (·.dropWhile isSpace)

def afterCurrency (s : Text) : Option Text :=
  (afterWord "ریال".toList s).or (afterWord "تومان".toList s)

def afterScale : List (Text → Option Text) :=
  [fun s ↦ (afterSpaced "هزار".toList s).bind (afterSpaced "میلیارد".toList),
    afterSpaced "میلیارد".toList, afterSpaced "میلیون".toList, afterSpaced "هزار".toList]

def unitAt (s : Text) : Option (Text × ℕ) :=
  ((afterScale.findSome? (fun scale ↦ (scale s).bind afterCurrency)).or (afterCurrency s)).map
    (fun rest ↦
      let taken := s.length - rest.length
      (strip (collapse (s.take taken)), taken))

def unitThousandBillionRial : String := "thousand_billion_rial"

def unit (grid : List (List Cell)) (untilRow : ℕ) : Except CbiParseError String :=
  let stated := ((grid.take (untilRow + 1)).flatMap (fun row ↦
    (rowTexts nfkc row).flatMap (fun t ↦ findAll unitAt 0 t.2))).dedup
  match stated with
  | [] => .error .noUnit
  | [phrase] =>
    if phrase.filter (· ≠ ' ') = "هزارمیلیاردریال".toList then .ok unitThousandBillionRial
    else .error (.unknownUnit phrase)
  | _ => .error (.severalUnits stated)

def countYears (row : List Cell) : ℕ := row.tail.countP (fun cell ↦ (yearOf cell).isSome)

def findYearRow (grid : List (List Cell)) (start : ℕ) : Except CbiParseError ℕ :=
  match (List.range' start headerScanRows).find? (fun index ↦
      decide (3 ≤ countYears (rowAt grid index))) with
  | some index => .ok index
  | none => .error .noYearRow

def headerColumn (rows : List (List Cell)) (isHeader : Text → Bool) (missing : CbiParseError) :
    Except CbiParseError ℕ :=
  match ((rows.flatMap (rowTexts nfkc)).filter (fun t ↦ isHeader t.2)).map Prod.fst |>.min? with
  | some col => .ok col
  | none => .error missing

structure LevelColumn where
  col : ℕ
  month : Month

def levelColumn (edition : Edition) (years months : List Cell) (col : ℕ) :
    Except CbiParseError (Option LevelColumn) :=
  match yearOf (cellAt years col) with
  | none => .ok none
  | some year =>
    match monthNumber nfkc (cellAt months col) with
    | some month => .ok (some ⟨col, year, month⟩)
    | none =>
      -- An Esfand edition prints years only.
      if edition.isEsfand then .ok (some ⟨col, year, 12⟩)
      else .error (.noMonthName col year edition)

def balanceHeaders : List Text := ["مانده", "مانده در پایان"].map String.toList

def isGrowthHeader (t : Text) : Bool := "رشد".toList.isPrefixOf t

def levelColumns (grid : List (List Cell)) (titleRow yearRow : ℕ) (edition : Edition) :
    Except CbiParseError (List LevelColumn × ℕ) := do
  let headerRows := (grid.take yearRow).drop titleRow
  let first ← headerColumn nfkc headerRows (balanceHeaders.contains ·) .noBalanceHeader
  let growth ← headerColumn nfkc headerRows isGrowthHeader .noGrowthHeader
  if growth ≤ first then throw (.growthNotRight growth first)
  let columns ← (List.range' first (growth - first)).mapM
    (levelColumn nfkc edition (rowAt grid yearRow) (rowAt grid (yearRow - 1)))
  let found := columns.filterMap id
  if found.map LevelColumn.month ≠ edition.columns then
    throw (.otherMonths edition (found.map LevelColumn.month))
  return (found, growth)

end Header

section Rows

variable (nfkc : Nfkc)

def rowTargets : List (Text × RowKey) := RowKey.all.map (fun key ↦ (labelKey nfkc key.label, key))

def rowLabel (row : List Cell) (before : ℕ) : Text :=
  ((((rowTexts nfkc row).filter (fun t ↦ decide (t.1 < before))).getLast?).map Prod.snd).getD []

structure LabelledRow where
  index : ℕ
  key : RowKey
  row : List Cell

def labelledRows (grid : List (List Cell)) (yearRow firstCol : ℕ) : List LabelledRow :=
  ((grid.zipIdx).drop (yearRow + 1)).filterMap (fun p ↦
    ((rowTargets nfkc).lookup (labelKey nfkc (rowLabel nfkc p.1 firstCol))).map
      (fun key ↦ ⟨p.2, key, p.1⟩))

def level (labelled : LabelledRow) (column : LevelColumn) : Except CbiParseError ℚ :=
  match cellAt labelled.row column.col with
  | .number q =>
    if q ≤ 0 then .error (.notPositive labelled.key column.month q) else .ok q
  | .infinite _ => .error (.notFinite labelled.key labelled.index column.col)
  | .nan => .error (.notFinite labelled.key labelled.index column.col)
  | _ => .error (.notANumber labelled.key column.month labelled.index column.col)

structure FoundRow where
  index : ℕ
  row : List Cell
  levels : List ℚ

abbrev FoundRows := List (RowKey × FoundRow)

def collectRows (columns : List LevelColumn) :
    FoundRows → List LabelledRow → Except CbiParseError FoundRows
  | found, [] => .ok found
  | found, labelled :: rest =>
    match found.lookup labelled.key with
    | some prior => .error (.repeatedLabel labelled.key prior.index labelled.index)
    | none => do
      let levels ← columns.mapM (level labelled)
      collectRows columns (found ++ [(labelled.key, ⟨labelled.index, labelled.row, levels⟩)]) rest

def missingRows (found : FoundRows) : List RowKey :=
  RowKey.all.filter (fun key ↦ (found.lookup key).isNone)

def levelsOf (found : FoundRows) (key : RowKey) : List ℚ :=
  ((found.lookup key).map FoundRow.levels).getD []

end Rows

section Checks

def agree (what : Identity) (columns : List LevelColumn) (left right : List ℚ) :
    Except CbiParseError ℚ :=
  (columns.zip (left.zip right)).foldlM (fun worst p ↦
    let gap := |p.2.1 - p.2.2|
    if accountingTolerance < gap then
      .error (.accounting what p.1.month p.2.1 p.2.2 p.1.col)
    else .ok (max worst gap)) 0

def growthPairs (edition : Edition) : List ℚ → List (ℚ × ℚ)
  | [oldest, lastEsfand, current] =>
    if edition.isEsfand then [(lastEsfand, oldest), (current, lastEsfand)]
    else [(current, oldest), (current, lastEsfand)]
  | _ => []

def growthOf (pair : ℚ × ℚ) : ℚ := (pair.1 / pair.2 - 1) * 100

def growthOverflowMark : Text := ['#']

def checkGrowthCell (key : RowKey) (col : ℕ) (cell : Cell) (pair : ℚ × ℚ) (worst : ℚ) :
    Except CbiParseError ℚ :=
  let computed := growthOf pair
  match cell with
  | .number printed =>
    let gap := |printed - computed|
    if growthTolerance < gap then .error (.growth key col printed computed)
    else .ok (max worst gap)
  | .text s =>
    if strip s = growthOverflowMark then
      if growthOverflowPct < |computed| then .ok worst
      else .error (.overflowMark key col computed)
    else .error (.growthNotANumber key col)
  | _ => .error (.growthNotANumber key col)

def checkGrowth (edition : Edition) (growthCol : ℕ) (key : RowKey) (found : FoundRow) (worst : ℚ) :
    Except CbiParseError ℚ :=
  ([growthCol, growthCol + 1].zip (growthPairs edition found.levels)).foldlM
    (fun worst p ↦ checkGrowthCell key p.1 (cellAt found.row p.1) p.2 worst) worst

def growthKeys : List RowKey :=
  [.series .baseMoney, .series .liquidity, .series .moneyM1, .series .quasiMoney]

def checkAllGrowth (edition : Edition) (growthCol : ℕ) (found : FoundRows) :
    Except CbiParseError ℚ :=
  growthKeys.foldlM (fun worst key ↦
    match found.lookup key with
    | some row => checkGrowth edition growthCol key row worst
    | none => .ok worst) 0

def checkAccounting (columns : List LevelColumn) (found : FoundRows) : Except CbiParseError ℚ := do
  let levels := levelsOf found
  let base ← agree .baseMoney columns (levels (.series .baseMoney)) (levels .baseMoneyUses)
  let m2 ← agree .liquidity columns (levels (.series .liquidity)) (levels .m2Components)
  let money ← agree .money columns (levels (.series .liquidity))
    (List.zipWith (· + ·) (levels (.series .moneyM1)) (levels (.series .quasiMoney)))
  return max (max base m2) money

end Checks

section Revision

variable (nfkc : Nfkc)

def methodFootnoteMark : Text := "MFSMCG".toList

def revisionNotes (grid : List (List Cell)) : List Text :=
  grid.flatMap (fun row ↦ row.filterMap (fun cell ↦
    match cell with
    | .text s => if occurs methodFootnoteMark s then some (sheetText nfkc s) else none
    | _ => none))

def afterOnwards (s : Text) : Option Text :=
  (afterWord "به".toList (s.dropWhile isSpace)).bind
    (fun rest ↦ afterWord "بعد".toList (rest.dropWhile isSpace))

def revisionStartAt (s : Text) : Option (Month × ℕ) := do
  let rest ← afterSpaced "از".toList s
  let ofYear : Option (Month × ℕ) := do
    let rest ← afterSpaced "سال".toList rest
    let year ← fourDigits rest
    let rest ← afterOnwards (rest.drop 4)
    return ((year, 1), s.length - rest.length)
  let ofMonth : Option (Month × ℕ) := do
    let ((year, month), taken) ← monthYearAt nfkc rest
    let rest ← afterOnwards (rest.drop taken)
    return ((year, month), s.length - rest.length)
  ofYear.or ofMonth

def revisionStart (grid : List (List Cell)) : Except CbiParseError (Option Month) :=
  match revisionNotes nfkc grid with
  | [] => .ok none
  | notes =>
    match (notes.flatMap (findAll (revisionStartAt nfkc) 0)).dedup with
    | [start] => .ok (some start)
    | starts => .error (.revisionStarts starts)

def methodOf (start : Option Month) (month : Month) : Method :=
  match start with
  | some start => if toLex start ≤ toLex month then .revised else .old
  | none => .old

end Revision

section Parsing

variable (nfkc : Nfkc)

def fourPlaces (gap : ℚ) : ℚ := halfEven (gap * 10000) / 10000

structure Layout where
  titleRow : ℕ
  edition : Edition
  yearRow : ℕ
  unit : String
  columns : List LevelColumn
  growthCol : ℕ

def Layout.firstCol (layout : Layout) : ℕ := (layout.columns.map LevelColumn.col).headD 0

def layoutOf (grid : List (List Cell)) : Except CbiParseError Layout := do
  let titleRow ← findTitleRow nfkc grid
  let edition ← editionFromTitle nfkc (rowAt grid titleRow)
  let yearRow ← findYearRow grid (titleRow + 1)
  let unit ← unit nfkc grid yearRow
  let (columns, growthCol) ← levelColumns nfkc grid titleRow yearRow edition
  return { titleRow, edition, yearRow, unit, columns, growthCol }

structure Readings where
  found : FoundRows
  accountingMaxGap : ℚ
  growthMaxGapPct : ℚ

def readRows (layout : Layout) (rows : List LabelledRow) : Except CbiParseError Readings := do
  let found ← collectRows layout.columns [] rows
  if missingRows found ≠ [] then throw (.missingRows (missingRows found))
  let accountingMaxGap ← checkAccounting layout.columns found
  let growthMaxGapPct ← checkAllGrowth layout.edition layout.growthCol found
  return { found, accountingMaxGap, growthMaxGapPct }

def observationsOf (columns : List LevelColumn) (start : Option Month) (found : FoundRows)
    (code : CbiCode) : List CbiObservation :=
  (columns.zip (levelsOf found (.series code))).map (fun p ↦
    { year := p.1.month.1
      month := p.1.month.2
      value := p.2
      method := if code = .baseMoney then some (methodOf start p.1.month) else none })

def parseSheet (grid : List (List Cell)) (sheetName : String) :
    Except CbiParseError ParsedSheet := do
  let layout ← layoutOf nfkc grid
  let readings ← readRows layout (labelledRows nfkc grid layout.yearRow layout.firstCol)
  let start ← revisionStart nfkc grid
  return {
    edition := layout.edition
    unit := layout.unit
    sheetName
    observations := observationsOf layout.columns start readings.found
    baseMoneyMethod := methodOf start (layout.edition.year, layout.edition.month)
    revisionStart := start
    accountingMaxGap := fourPlaces readings.accountingMaxGap
    growthMaxGapPct := fourPlaces readings.growthMaxGapPct
    rows := readings.found.map (fun p ↦ (p.1, p.2.index))
    columns := layout.columns.map LevelColumn.month }

end Parsing

end TalaPala.Economic
