import TalaPala.Library.Json
import TalaPala.Prices.TehranPages

namespace TalaPala.Drawings

open Library

section Requests

def maxDrawingStyleBytes : ℕ := 4096

def drawingIntervalOrder : List Text :=
  ["5m", "10m", "15m", "20m", "30m", "45m", "1h", "2h", "3h", "4h", "6h", "8h", "12h", "1d", "2d",
    "3d", "1w"].map String.toList

def pointCounts : List (Text × ℕ) :=
  [("trend_line", 2), ("horizontal_line", 1), ("vertical_line", 1), ("rectangle", 2),
    ("price_range", 2), ("date_range", 2), ("measure", 2), ("fib_retracement", 2),
    ("text", 1)].map (fun x ↦ (x.1.toList, x.2))

def isUpperLetter (c : Char) : Bool := 'A' ≤ c && c ≤ 'Z'

/-- `^[A-Z][A-Z0-9_]{1,63}$`. -/
def tickSymbolRE (s : Text) : Bool :=
  match s with
  | [] => false
  | c :: rest => isUpperLetter c && 1 ≤ rest.length && rest.length ≤ 63 &&
    rest.all (fun c ↦ isUpperLetter c || c.isDigit || c = '_')

def isInsCode (s : Text) : Bool := 6 ≤ s.length && s.length ≤ 20 && s.all Char.isDigit

/-- `^(IDX|EQ):([0-9]{6,20})$`. -/
def isTehranChartSymbol (s : Text) : Bool :=
  ("IDX:".toList <+: s && isInsCode (s.drop 4)) || ("EQ:".toList <+: s && isInsCode (s.drop 3))

/-- A body after it was decoded; a field that was not sent is absent. -/
structure DrawingRequest where
  symbol : Text
  interval : Text
  drawingType : Text
  points : Option Raw
  style : Option Raw
  locked : Option Bool
  visible : Option Bool

structure DrawingRow where
  symbol : Text
  interval : Text
  drawingType : Text
  points : Raw
  style : Raw
  locked : Bool
  visible : Bool

/-- What the code uses of floats: the double that is nearest to a number, absent past
their range, and the shortest literal that is read as a double. -/
structure Doubles where
  IsDouble : ℚ → Prop
  nearest : ℚ → Option ℚ
  shortest : ℚ → NumLit
  isDouble_of_nearest : ∀ {x y}, nearest x = some y → IsDouble y
  nearest_shortest : ∀ {x}, IsDouble x → nearest (shortest x).value = some x
  nearest_intCast : ∀ {n : ℤ}, |n| ≤ 10 ^ 12 → nearest n = some (n : ℚ)

structure DrawingPointInput where
  t : Option Raw
  price : Option Raw

structure CanonicalPoint where
  t : ℤ
  price : ℚ

def Piece.char : Piece → Char
  | .plain c | .short c | .unicode c => c
  | .lone => Char.ofNat 0xfffd

def fieldOf (name : Text) (members : List (List Piece × Raw)) : Option Raw :=
  (members.reverse.find? (fun x ↦ x.1.map (fun p ↦ (Piece.char p).toLower) = name)).map Prod.snd

def pointInput : Raw → Option DrawingPointInput
  | .object _ members => some ⟨fieldOf "t".toList members, fieldOf "price".toList members⟩
  | .null => some ⟨none, none⟩
  | _ => none

variable (letters : Letters) (doubles : Doubles) (served : Text → Bool)

def finiteDrawingCoord : Raw → Option ℚ
  | .number l => doubles.nearest l.value
  | _ => none

/-- The conversion of a float to `int64`, toward zero. -/
def truncated (t : ℚ) : ℤ := t.num.tdiv t.den

def canonicalPoint (i : ℕ) (p : DrawingPointInput) : Except String CanonicalPoint :=
  match p.t, p.price with
  | some t, some price =>
    match finiteDrawingCoord doubles t, finiteDrawingCoord doubles price with
    | some t, some price =>
      if 10 ^ 12 < |t| then .error ("point " ++ toString i ++ " t must be unix seconds")
      else .ok ⟨truncated t, price⟩
    | _, _ => .error ("point " ++ toString i ++ " must have finite numeric t and price")
  | _, _ => .error ("point " ++ toString i ++ " must have both t and price")

def canonicalPoints : ℕ → List DrawingPointInput → Except String (List CanonicalPoint)
  | _, [] => .ok []
  | i, p :: ps => do
    let q ← canonicalPoint doubles i p
    let qs ← canonicalPoints (i + 1) ps
    return q :: qs

/-- `json.Marshal` of the anchors. -/
def encodePoints (ps : List CanonicalPoint) : Raw :=
  .array 0 (ps.map (fun p ↦ .object 0
    [("t".toList.map .plain, .number (numericOut p.t 0)),
      ("price".toList.map .plain, .number (doubles.shortest p.price))]))

def parseDrawingPoints (raw : Option Raw) (want : Option ℕ) : Except String Raw :=
  match raw with
  | none => .error "required"
  | some (.array _ items) =>
    match items.mapM pointInput with
    | none => .error "must be an array of {t, price} objects"
    | some ps =>
      if want.any (· ≠ ps.length) then
        .error ("must contain exactly " ++ toString (want.getD 0) ++ " point(s), got " ++
          toString ps.length)
      else (canonicalPoints doubles 0 ps).map (encodePoints doubles)
  | some _ => .error "must be an array of {t, price} objects"

def parseDrawingStyle (raw : Option Raw) : Except String Raw :=
  match raw with
  | none => .ok (.object 0 [])
  | some raw =>
    if maxDrawingStyleBytes < raw.bytes then
      .error ("must be at most " ++ toString maxDrawingStyleBytes ++ " bytes")
    else
      match raw with
      | .object _ _ =>
        -- A number that no float can hold fails the decoding of the whole.
        if raw.allNumbers (fun x ↦ (doubles.nearest x).isSome) then .ok raw
        else .error "must be a JSON object"
      | _ => .error "must be a JSON object"

def normalizeChartSymbol (raw : Text) : Text := (trimSpace raw).map letters.toUpper

def drawingChartProblems (symbol interval : Text) : List (String × String) :=
  let tehran := isTehranChartSymbol symbol
  (if !tehran && (!tickSymbolRE symbol || !served symbol)
    then [("symbol", "unknown or missing symbol")] else []) ++
  if !drawingIntervalOrder.contains interval then
    [("interval", "must be one of " ++ ", ".intercalate (drawingIntervalOrder.map String.ofList))]
  else if tehran ∧ interval ≠ Prices.tehranInterval.toList then
    [("interval", "a Tehran market chart is daily only: interval must be " ++
      Prices.tehranInterval)]
  else []

def problemOf (field : String) : Except String Raw → List (String × String)
  | .error problem => [(field, problem)]
  | .ok _ => []

def validateDrawingRequest (req : DrawingRequest) : Except (List (String × String)) DrawingRow :=
  let symbol := normalizeChartSymbol letters req.symbol
  let interval := (trimSpace req.interval).map letters.toLower
  let drawingType := (trimSpace req.drawingType).map letters.toLower
  let want := pointCounts.lookup drawingType
  let points := parseDrawingPoints doubles req.points want
  let style := parseDrawingStyle doubles req.style
  let problems := drawingChartProblems served symbol interval ++
    (if want = none then [("drawing_type", "unknown drawing type")] else []) ++
    problemOf "points" points ++ problemOf "style" style
  match problems, points, style with
  | [], .ok points, .ok style => .ok ⟨symbol, interval, drawingType, points, style,
      req.locked = some true, req.visible ≠ some false⟩
  | problems, _, _ => .error problems

end Requests

section Table

/-- A row of `chart_drawings`, but for its owner and the times. -/
structure StoredDrawing where
  id : ℤ
  symbol : Text
  interval : Text
  drawingType : Text
  points : Jsonb
  style : Jsonb
  locked : Bool
  visible : Bool

def insertDrawing (id : ℤ) (row : DrawingRow) : Option StoredDrawing := do
  let points ← row.points.jsonb
  let style ← row.style.jsonb
  return ⟨id, row.symbol, row.interval, row.drawingType, points, style, row.locked, row.visible⟩

def updateDrawing (d : StoredDrawing) (row : DrawingRow) : Option StoredDrawing := do
  let points ← row.points.jsonb
  let style ← row.style.jsonb
  if d.symbol = row.symbol ∧ d.interval = row.interval then
    return { d with
      drawingType := row.drawingType
      points := points
      style := style
      locked := row.locked
      visible := row.visible }
  else none

def returned (j : Jsonb) : Raw := j.out.compact

def StoredDrawing.request (d : StoredDrawing) : DrawingRequest :=
  ⟨d.symbol, d.interval, d.drawingType, some (returned d.points), some (returned d.style),
    some d.locked, some d.visible⟩

end Table

end TalaPala.Drawings
