import TalaPala.News.Payloads

namespace TalaPala.News

/-! `json.loads` as far as it opens arrays and objects: a recursive descent that stops at its first
error. -/

inductive JsonValue
  | scalar
  | string
  | array (items : List JsonValue)
  | object (members : List JsonValue)

mutual

def JsonValue.nesting : JsonValue → ℕ
  | .scalar => 0
  | .string => 0
  | .array items => JsonValue.nestingItems items + 1
  | .object members => JsonValue.nestingItems members + 1

def JsonValue.nestingItems : List JsonValue → ℕ
  | [] => 0
  | item :: items => max item.nesting (JsonValue.nestingItems items)

end

section Scanner

def isJsonSpace (n : ℕ) : Bool := n = 32 || n = 9 || n = 10 || n = 13

def skipJsonSpace (l : CodePoints) : CodePoints := l.dropWhile isJsonSpace

def isDigitPoint (n : ℕ) : Bool := 48 ≤ n && n ≤ 57

def isHexPoint (n : ℕ) : Bool := isDigitPoint n || (65 ≤ n && n ≤ 70) || (97 ≤ n && n ≤ 102)

/-- What may follow a backslash, `u` apart. -/
def isJsonEscape (n : ℕ) : Bool :=
  n = 34 || n = 92 || n = 47 || n = 98 || n = 102 || n = 110 || n = 114 || n = 116

def scanString : CodePoints → Option CodePoints
  | [] => none
  | 34 :: rest => some rest
  | 92 :: 117 :: a :: b :: c :: d :: rest =>
    if [a, b, c, d].all isHexPoint then scanString rest else none
  | 92 :: e :: rest => if isJsonEscape e then scanString rest else none
  | n :: rest => if n < 32 ∨ n = 92 then none else scanString rest

def scanFraction (l : CodePoints) : CodePoints :=
  match l with
  | 46 :: n :: rest => if isDigitPoint n then rest.dropWhile isDigitPoint else l
  | _ => l

def scanSign : CodePoints → CodePoints
  | n :: rest => if n = 43 ∨ n = 45 then rest else n :: rest
  | [] => []

def scanExponent (l : CodePoints) : CodePoints :=
  match l with
  | e :: rest =>
    if e = 69 ∨ e = 101 then
      match scanSign rest with
      | n :: rest => if isDigitPoint n then rest.dropWhile isDigitPoint else l
      | [] => l
    else l
  | [] => l

def scanWhole : CodePoints → Option CodePoints
  | n :: rest =>
    if n = 48 then some rest
    else if 49 ≤ n ∧ n ≤ 57 then some (rest.dropWhile isDigitPoint)
    else none
  | [] => none

def scanNumber (l : CodePoints) : Option CodePoints :=
  (scanWhole (if l.head? = some 45 then l.tail else l)).map (fun rest ↦
    scanExponent (scanFraction rest))

def codePoints (s : String) : CodePoints := s.toList.map Char.toNat

def scanWord (word : String) (l : CodePoints) : Option CodePoints :=
  if (codePoints word).isPrefixOf l then some (l.drop word.length) else none

/-- A number or a constant. `NaN` and the infinities are refused where they are met. -/
def scanScalar (l : CodePoints) : Option CodePoints :=
  (scanWord "null" l).or ((scanWord "true" l).or ((scanWord "false" l).or (scanNumber l)))

end Scanner

inductive Halt
  | error
  | outOfFuel

structure Scan (α : Type*) where
  peak : ℕ
  result : Except Halt (α × CodePoints)

namespace Scan

variable {α β γ : Type*}

def fails (held : ℕ) : Scan α := ⟨held, .error .error⟩

def done (held : ℕ) (a : α) (rest : CodePoints) : Scan α := ⟨held, .ok (a, rest)⟩

def map (f : α → β) (x : Scan α) : Scan β :=
  match x.result with
  | .error stop => ⟨x.peak, .error stop⟩
  | .ok (a, rest) => ⟨x.peak, .ok (f a, rest)⟩

def andThen (x : Scan α) (y : CodePoints → Scan β) (g : α → β → γ) : Scan γ :=
  match x.result with
  | .error stop => ⟨x.peak, .error stop⟩
  | .ok (a, rest) =>
    let next := (y rest).map (g a)
    { next with peak := max x.peak next.peak }

theorem peak_map (f : α → β) (x : Scan α) : (x.map f).peak = x.peak := by
  unfold map
  split <;> rfl

theorem result_map {f : α → β} {x : Scan α} {b : β} {rest : CodePoints} :
    (x.map f).result = .ok (b, rest) ↔ ∃ a, x.result = .ok (a, rest) ∧ f a = b := by
  unfold map
  split
  · rename_i stop hx
    rw [hx]
    exact iff_of_false (fun h ↦ by cases h) (fun ⟨_, h, _⟩ ↦ by cases h)
  · rename_i a rest' hx
    rw [hx]
    constructor
    · intro h
      obtain ⟨rfl, rfl⟩ := Prod.mk.inj (Except.ok.inj h)
      exact ⟨a, rfl, rfl⟩
    · rintro ⟨a', h, rfl⟩
      obtain ⟨rfl, rfl⟩ := Prod.mk.inj (Except.ok.inj h)
      rfl

theorem andThen_of_error {x : Scan α} {stop : Halt} (h : x.result = .error stop)
    (y : CodePoints → Scan β) (g : α → β → γ) : x.andThen y g = ⟨x.peak, .error stop⟩ := by
  rw [andThen, h]

theorem andThen_of_ok {x : Scan α} {a : α} {rest : CodePoints} (h : x.result = .ok (a, rest))
    (y : CodePoints → Scan β) (g : α → β → γ) :
    x.andThen y g = ⟨max x.peak (y rest).peak, ((y rest).map (g a)).result⟩ := by
  rw [andThen, h]
  dsimp only
  rw [peak_map]

end Scan

section Lists

variable (close held : ℕ) (next : CodePoints → Scan (List JsonValue)) (rest : CodePoints)

def afterOpening : Scan (List JsonValue) :=
  match skipJsonSpace rest with
  | n :: rest => if n = close then .done held [] rest else next (n :: rest)
  | [] => next []

def afterItem : Scan (List JsonValue) :=
  match skipJsonSpace rest with
  | n :: rest =>
    if n = close then .done held [] rest
    else if n = 44 then next (skipJsonSpace rest)
    else .fails held
  | [] => .fails held

end Lists

def scanName : CodePoints → Option CodePoints
  | n :: rest =>
    if n = 34 then
      match (scanString rest).map skipJsonSpace with
      | some (n :: rest) => if n = 58 then some (skipJsonSpace rest) else none
      | _ => none
    else none
  | [] => none

mutual

def decodeValue : ℕ → ℕ → CodePoints → Scan JsonValue
  | 0, held, _ => ⟨held, .error .outOfFuel⟩
  | _ + 1, held, [] => .fails held
  | fuel + 1, held, n :: rest =>
    if n = 34 then
      match scanString rest with
      | some rest => .done held .string rest
      | none => .fails held
    else if n = 123 then
      (afterOpening 125 (held + 1) (decodeMembers fuel (held + 1)) rest).map .object
    else if n = 91 then
      (afterOpening 93 (held + 1) (decodeItems fuel (held + 1)) rest).map .array
    else
      match scanScalar (n :: rest) with
      | some rest => .done held .scalar rest
      | none => .fails held

def decodeItems : ℕ → ℕ → CodePoints → Scan (List JsonValue)
  | 0, held, _ => ⟨held, .error .outOfFuel⟩
  | fuel + 1, held, l =>
    (decodeValue fuel held l).andThen (afterItem 93 held (decodeItems fuel held)) List.cons

def decodeMembers : ℕ → ℕ → CodePoints → Scan (List JsonValue)
  | 0, held, _ => ⟨held, .error .outOfFuel⟩
  | fuel + 1, held, l =>
    match scanName l with
    | some rest =>
      (decodeValue fuel held rest).andThen (afterItem 125 held (decodeMembers fuel held)) List.cons
    | none => .fails held

end

def jsonLoads (text : CodePoints) : Scan JsonValue :=
  if text.head? = some 0xfeff then .fails 0
  else
    (decodeValue (2 * text.length + 1) 0 (skipJsonSpace text)).andThen (fun rest ↦
      if skipJsonSpace rest = [] then .done 0 () [] else .fails 0) (fun item _ ↦ item)

example : (jsonLoads (codePoints "[[1, 2], \x7b\"a\": \"[[[\"\x7d]")).peak = 2 := by decide +kernel

end TalaPala.News
