import TalaPala.Library.Floats
import TalaPala.Relvalue.Performance

namespace TalaPala.Equities.Screen

open Library
open Relvalue (Numeraire ConvOp ConvStep conversionSteps)

structure Point where
  day : Date
  value : Float

structure QuoteSeries where
  points : List Point
  ascending : points.Pairwise (fun p q ↦ p.day ≤ q.day)

/-- How the standard library prints a date, an instant, a number and a quoted string. -/
structure Layout where
  date : Date → String
  stamp : Instant → String
  number : Float → String
  quoted : String → String

section Series

structure Conversion where
  points : List Point
  noPriorQuote : ℕ
  nonPositiveQuote : ℕ
  carriedForward : ℕ
  missingSeries : String

def notFinite (v : Float) : Bool := v.isNaN || v.isInf

def convert (op : ConvOp) (close rate : Float) : Float :=
  match op with
  | .divide => close / rate
  | .multiply => close * rate

/-- The merge walk of `applyStep`. -/
def walk (op : ConvOp) : Cursor Point → List Point → Conversion
  | _, [] => ⟨[], 0, 0, 0, ""⟩
  | cursor, a :: asset =>
    let reached := advance Point.day a.day cursor.passed cursor.ahead
    let rest := walk op reached asset
    match reached.passed with
    | none => { rest with noPriorQuote := rest.noPriorQuote + 1 }
    | some rate =>
      if rate.value ≤ 0 then { rest with nonPositiveQuote := rest.nonPositiveQuote + 1 }
      else
        let carried := rest.carriedForward + if rate.day = a.day then 0 else 1
        let v := convert op a.value rate.value
        if notFinite v then
          { rest with nonPositiveQuote := rest.nonPositiveQuote + 1, carriedForward := carried }
        else { rest with points := ⟨a.day, v⟩ :: rest.points, carriedForward := carried }

def applyStep (asset num : List Point) (op : ConvOp) : Conversion :=
  walk op (Cursor.start num) asset

abbrev Sources := String → QuoteSeries

def convertFrom (sources : Sources) : Conversion → List ConvStep → Conversion
  | out, [] => out
  | out, step :: steps =>
    let num := (sources step.series).points
    if num = [] then
      { points := []
        noPriorQuote := out.noPriorQuote + out.points.length
        nonPositiveQuote := out.nonPositiveQuote
        carriedForward := out.carriedForward
        missingSeries := step.series }
    else
      let stepped := applyStep out.points num step.op
      convertFrom sources
        { points := stepped.points
          noPriorQuote := out.noPriorQuote + stepped.noPriorQuote
          nonPositiveQuote := out.nonPositiveQuote + stepped.nonPositiveQuote
          carriedForward := out.carriedForward + stepped.carriedForward
          missingSeries := "" } steps

def convertSeries (asset : List Point) (steps : List ConvStep) (sources : Sources) : Conversion :=
  convertFrom sources ⟨asset, 0, 0, 0, ""⟩ steps

def toDailySeries (points : List Point) : List Point :=
  points.insertionSort (fun p q ↦ p.day ≤ q.day)

def QuoteSeries.quoteAtOrBefore (s : QuoteSeries) (day : Date) : Option Point :=
  asOf Point.day s.points day

end Series

section Export

variable (layout : Layout)

def numeraireKey : Numeraire → String
  | .irt => "IRT"
  | .usd => "USD"
  | .gold => "GOLD"

/-- Twelve significant digits; none for a value that is no finite number. -/
def fpUnit (v : Float) : Option Float :=
  if notFinite v then none
  else if v == 0 then some 0
  else
    let e := (v.abs.log10).floor
    if e < -290 || 290 < e then some v
    else
      let mag := Float.pow 10 (11 - e)
      let scaled := v * mag
      if scaled.isInf then some v else some (roundHalfAway scaled / mag)

structure TomanValue where
  value : Option Float
  rateDay : Option Date
  carriedForward : Bool
  reason : String
  chain : List String
  unit : String

structure SeriesConversion where
  points : List Point
  carriedForward : ℕ
  droppedNoPriorQuote : ℕ
  droppedNonPositiveQuote : ℕ
  missingSeries : String
  reason : String
  chain : List String
  unit : String

def chainCodes (steps : List ConvStep) : List String := steps.map ConvStep.series

def chainLabel (steps : List ConvStep) : String :=
  match chainCodes steps with
  | [] => "the identity conversion"
  | [code] => code
  | codes => "[" ++ " ".intercalate codes ++ "]"

def noConversion (key : Numeraire) : String :=
  "no conversion carries a toman value into " ++ numeraireKey key

def missingReason (code : String) (key : Numeraire) : String :=
  code ++ " carries no stored observation in this deployment, so no value can be " ++
    "expressed in " ++ numeraireKey key ++ "."

def notFiniteReason (d : Date) (toman : Float) (key : Numeraire) : String :=
  "the " ++ numeraireKey key ++ " conversion of " ++ layout.number toman ++ " toman on " ++
    layout.date d ++ " is not a finite number"

def nonPositiveReason (steps : List ConvStep) (d : Date) : String :=
  "the " ++ chainLabel steps ++ " quote in force on " ++ layout.date d ++
    " is zero or negative, which is a stored fault " ++
    "rather than a rate; the value is withheld rather than divided by it."

def noQuoteReason (steps : List ConvStep) (d : Date) : String :=
  chainLabel steps ++ " has no quote at or before " ++ layout.date d ++
    ", and a rate is carried FORWARD only — " ++
    "using a later quote would price this day with information from its own " ++
    "future, so the value is withheld rather than guessed."

def withheldReason (conv : Conversion) (steps : List ConvStep) (d : Date) (key : Numeraire) :
    String :=
  if conv.missingSeries ≠ "" then missingReason conv.missingSeries key
  else if 0 < conv.nonPositiveQuote then nonPositiveReason layout steps d
  else noQuoteReason layout steps d

def ratesUsed (sources : Sources) (d : Date) (steps : List ConvStep) : Option Date × Bool :=
  (steps.filterMap (fun step ↦ (sources step.series).quoteAtOrBefore d)).foldl (fun used q ↦
    (if used.1.all (fun rate ↦ q.day < rate) then some q.day else used.1,
      used.2 || decide (q.day ≠ d))) (none, false)

/-- The one point of a conversion, or why there is none. -/
def tomanValue (sources : Sources) (d : Date) (toman : Float) (key : Numeraire)
    (steps : List ConvStep) (conv : Conversion) : TomanValue :=
  match conv.points with
  | [p] =>
    match fpUnit p.value with
    | none =>
      ⟨none, none, false, notFiniteReason layout d toman key, chainCodes steps, key.unit⟩
    | some v =>
      let used := ratesUsed sources d steps
      ⟨some v, used.1, used.2, "", chainCodes steps, key.unit⟩
  | _ =>
    ⟨none, none, false, withheldReason layout conv steps d key, chainCodes steps, key.unit⟩

/-- The keys are those of the enumeration, so one that no numeraire has cannot be asked for. -/
def convertToman (sources : Sources) (d : Date) (toman : Float) (key : Numeraire) : TomanValue :=
  match conversionSteps .irt key with
  | none => ⟨none, none, false, noConversion key, [], key.unit⟩
  | some steps =>
    tomanValue layout sources d toman key steps (convertSeries [⟨d, toman⟩] steps sources)

def convertTomanSeries (sources : Sources) (points : List Point) (key : Numeraire) :
    SeriesConversion :=
  match conversionSteps .irt key with
  | none => ⟨[], 0, 0, 0, "", noConversion key, [], key.unit⟩
  | some steps =>
    let conv := convertSeries (toDailySeries points) steps sources
    { points := conv.points
      carriedForward := conv.carriedForward
      droppedNoPriorQuote := conv.noPriorQuote
      droppedNonPositiveQuote := conv.nonPositiveQuote
      missingSeries := conv.missingSeries
      reason := if conv.missingSeries ≠ "" then missingReason conv.missingSeries key else ""
      chain := chainCodes steps
      unit := key.unit }

theorem append_ne_left {s : String} (h : s ≠ "") (t : String) : s ++ t ≠ "" :=
  fun heq ↦ h (String.append_eq_empty_iff.mp heq).1

theorem append_ne_right {t : String} (h : t ≠ "") (s : String) : s ++ t ≠ "" :=
  fun heq ↦ h (String.append_eq_empty_iff.mp heq).2

theorem withheldReason_ne (conv : Conversion) (steps : List ConvStep) (d : Date)
    (key : Numeraire) : withheldReason layout conv steps d key ≠ "" := by
  rw [withheldReason]
  split_ifs
  · exact append_ne_right (by decide) _
  · exact append_ne_right (by decide) _
  · exact append_ne_right (by decide) _

theorem convertToman_reason (sources : Sources) (d : Date) (toman : Float) (key : Numeraire) :
    (convertToman layout sources d toman key).value = none ↔
      (convertToman layout sources d toman key).reason ≠ "" := by
  rw [convertToman]
  cases conversionSteps .irt key with
  | none =>
    have hreason : noConversion key ≠ "" := append_ne_left (by decide) _
    exact iff_of_true rfl hreason
  | some steps =>
    have hreason : notFiniteReason layout d toman key ≠ "" := append_ne_right (by decide) _
    dsimp only
    rw [tomanValue]
    split
    · rename_i p _
      cases fpUnit p.value with
      | none => exact iff_of_true rfl hreason
      | some v => exact iff_of_false (Option.some_ne_none v) (not_not.mpr rfl)
    · exact iff_of_true rfl (withheldReason_ne layout _ steps d key)

end Export

end TalaPala.Equities.Screen
