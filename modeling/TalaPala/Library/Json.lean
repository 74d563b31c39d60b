import TalaPala.Library.Strings
import Mathlib.Data.Nat.Log
import Mathlib.Data.List.Lex
import Mathlib.Data.Prod.Lex

namespace TalaPala.Library

open List

section Digits

def decimal (ds : List (Fin 10)) : ℕ := ds.foldl (fun n (d : Fin 10) ↦ 10 * n + d.val) 0

/-- The last `k` digits of a number. -/
def lowDigits : ℕ → ℕ → List (Fin 10)
  | 0, _ => []
  | k + 1, n => lowDigits k (n / 10) ++ [Fin.ofNat 10 n]

theorem decimal_append_singleton (ds : List (Fin 10)) (d : Fin 10) :
    decimal (ds ++ [d]) = 10 * decimal ds + d := by
  rw [decimal, foldl_append]
  rfl

theorem decimal_append (ds es : List (Fin 10)) :
    decimal (ds ++ es) = decimal ds * 10 ^ es.length + decimal es := by
  induction es using List.reverseRecOn with
  | nil => simp [decimal]
  | append_singleton es e ih =>
    rw [← append_assoc, decimal_append_singleton, ih, decimal_append_singleton,
      length_append, length_singleton, pow_succ]
    ring

@[simp] theorem length_lowDigits (k n : ℕ) : (lowDigits k n).length = k := by
  induction k generalizing n with
  | zero => rfl
  | succ k ih => rw [lowDigits, length_append, ih, length_singleton]

theorem decimal_lowDigits {k n : ℕ} (h : n < 10 ^ k) : decimal (lowDigits k n) = n := by
  induction k generalizing n with
  | zero =>
    rw [pow_zero, Nat.lt_one_iff] at h
    rw [h]
    rfl
  | succ k ih =>
    rw [pow_succ] at h
    rw [lowDigits, decimal_append_singleton, ih (by omega), Fin.val_ofNat]
    omega

end Digits

/-! JSON texts as the trees that they spell, with the bytes that they take, and the
values that PostgreSQL keeps of them as JSONB. -/

/-- The exponent of a number as it is written, after an `e` of either case. -/
structure Exponent where
  /-- Whether a sign is written, and whether it is a minus. -/
  sign : Option Bool
  digits : List (Fin 10)

structure NumLit where
  negative : Bool
  whole : List (Fin 10)
  frac : List (Fin 10)
  exponent : Option Exponent

def Exponent.value (e : Exponent) : ℤ :=
  if e.sign = some true then -decimal e.digits else decimal e.digits

def Exponent.bytes (e : Exponent) : ℕ := 1 + (if e.sign = none then 0 else 1) + e.digits.length

def NumLit.bytes (l : NumLit) : ℕ :=
  (if l.negative then 1 else 0) + l.whole.length +
    (if l.frac = [] then 0 else 1 + l.frac.length) + (l.exponent.map Exponent.bytes).getD 0

def NumLit.integer (l : NumLit) : ℤ :=
  if l.negative then -decimal (l.whole ++ l.frac) else decimal (l.whole ++ l.frac)

def NumLit.power (l : NumLit) : ℤ := (l.exponent.map Exponent.value).getD 0 - l.frac.length

def NumLit.value (l : NumLit) : ℚ := l.integer * 10 ^ l.power

/-- A character of a string, as itself, behind a backslash or as `\u`; one half of a
surrogate pair stands for no character. -/
inductive Piece
  | plain (c : Char)
  | short (c : Char)
  | unicode (c : Char)
  | lone

def Piece.bytes : Piece → ℕ
  | .plain c => c.utf8Size
  | .short _ => 2
  | .unicode c => if c.toNat < 0x10000 then 6 else 12
  | .lone => 6

def stringBytes (pieces : List Piece) : ℕ := 2 + (pieces.map Piece.bytes).sum

/-- A JSON text; `blanks` counts the white space between the tokens of an array or of
an object. -/
inductive Raw
  | null
  | bool (b : Bool)
  | number (l : NumLit)
  | string (pieces : List Piece)
  | array (blanks : ℕ) (items : List Raw)
  | object (blanks : ℕ) (members : List (List Piece × Raw))

mutual

def Raw.bytes : Raw → ℕ
  | .null => 4
  | .bool b => if b then 4 else 5
  | .number l => l.bytes
  | .string pieces => stringBytes pieces
  | .array blanks items => 2 + blanks + (items.length - 1) + Raw.itemsBytes items
  | .object blanks members => 2 + blanks + (members.length - 1) + Raw.membersBytes members

def Raw.itemsBytes : List Raw → ℕ
  | [] => 0
  | item :: items => item.bytes + Raw.itemsBytes items

def Raw.membersBytes : List (List Piece × Raw) → ℕ
  | [] => 0
  | (key, item) :: members => stringBytes key + 1 + item.bytes + Raw.membersBytes members

end

section AllNumbers

variable (P : ℚ → Bool)

mutual

/-- Every number of a text passes the check `P`. -/
def Raw.allNumbers : Raw → Bool
  | .number l => P l.value
  | .array _ items => Raw.itemsNumbers items
  | .object _ members => Raw.membersNumbers members
  | _ => true

def Raw.itemsNumbers : List Raw → Bool
  | [] => true
  | item :: items => item.allNumbers && Raw.itemsNumbers items

def Raw.membersNumbers : List (List Piece × Raw) → Bool
  | [] => true
  | (_, item) :: members => item.allNumbers && Raw.membersNumbers members

end

end AllNumbers

/-- A value of type `jsonb`; a number is `n` with `scale` digits behind the point. -/
inductive Jsonb
  | null
  | bool (b : Bool)
  | number (n : ℤ) (scale : ℕ)
  | string (s : Text)
  | array (items : List Jsonb)
  | object (members : List (Text × Jsonb))

section Input

/-- `numeric_in`. -/
def NumLit.numeric (l : NumLit) : ℤ × ℕ :=
  if 0 ≤ l.power then (l.integer * 10 ^ l.power.toNat, 0) else (l.integer, (-l.power).toNat)

/-- The digits that a `numeric` may have before its point, -/
def maxWholeDigits : ℕ := 131072

def maxFracDigits : ℕ := 16383

def numericFits (n : ℤ) (scale : ℕ) : Bool :=
  n.natAbs < 10 ^ (maxWholeDigits + scale) && scale ≤ maxFracDigits

/-- Half a surrogate pair and the character `\u0000` are refused. -/
def Piece.stored : Piece → Option Char
  | .plain c | .short c | .unicode c => if c.toNat = 0 then none else some c
  | .lone => none

def keyOrder (key : Text) : ℕ ×ₗ List ℕ := toLex (byteLength key, key.map Char.toNat)

def insertKey (key : Text) (item : Jsonb) : List (Text × Jsonb) → List (Text × Jsonb)
  | [] => [(key, item)]
  | (key', item') :: members =>
    if key = key' then (key, item) :: members
    else if keyOrder key < keyOrder key' then (key, item) :: (key', item') :: members
    else (key', item') :: insertKey key item members

def uniqueKeys (members : List (Text × Jsonb)) : List (Text × Jsonb) :=
  members.foldl (fun kept x ↦ insertKey x.1 x.2 kept) []

mutual

/-- `jsonb_in`. -/
def Raw.jsonb : Raw → Option Jsonb
  | .null => some .null
  | .bool b => some (.bool b)
  | .number l =>
    if numericFits l.numeric.1 l.numeric.2 then some (.number l.numeric.1 l.numeric.2) else none
  | .string pieces => (pieces.mapM Piece.stored).map .string
  | .array _ items => (Raw.itemsJsonb items).map .array
  | .object _ members => (Raw.membersJsonb members).map (fun ms ↦ .object (uniqueKeys ms))

def Raw.itemsJsonb : List Raw → Option (List Jsonb)
  | [] => some []
  | item :: items => do
    let j ← item.jsonb
    let js ← Raw.itemsJsonb items
    return j :: js

def Raw.membersJsonb : List (List Piece × Raw) → Option (List (Text × Jsonb))
  | [] => some []
  | (key, item) :: members => do
    let k ← key.mapM Piece.stored
    let j ← item.jsonb
    let ms ← Raw.membersJsonb members
    return (k, j) :: ms

end

end Input

section Output

/-- `numeric_out`, every digit written out. -/
def numericOut (n : ℤ) (scale : ℕ) : NumLit where
  negative := n < 0
  whole := lowDigits (Nat.log 10 (n.natAbs / 10 ^ scale) + 1) (n.natAbs / 10 ^ scale)
  frac := lowDigits scale (n.natAbs % 10 ^ scale)
  exponent := none

/-- `escape_json`. -/
def escapeJson (c : Char) : Piece :=
  if c = '"' ∨ c = '\\' ∨ c.toNat = 8 ∨ c.toNat = 12 ∨ c = '\n' ∨ c = '\r' ∨ c = '\t' then .short c
  else if c.toNat < 32 then .unicode c
  else .plain c

mutual

/-- `jsonb_out`, with a space after each colon and comma. -/
def Jsonb.out : Jsonb → Raw
  | .null => .null
  | .bool b => .bool b
  | .number n scale => .number (numericOut n scale)
  | .string s => .string (s.map escapeJson)
  | .array items => .array (items.length - 1) (Jsonb.itemsOut items)
  | .object members => .object (members.length + (members.length - 1)) (Jsonb.membersOut members)

def Jsonb.itemsOut : List Jsonb → List Raw
  | [] => []
  | item :: items => item.out :: Jsonb.itemsOut items

def Jsonb.membersOut : List (Text × Jsonb) → List (List Piece × Raw)
  | [] => []
  | (key, item) :: members => (key.map escapeJson, item.out) :: Jsonb.membersOut members

end

def Piece.compact : Piece → Piece
  | .plain c =>
    if c = '<' ∨ c = '>' ∨ c = '&' ∨ c.toNat = 0x2028 ∨ c.toNat = 0x2029 then .unicode c
    else .plain c
  | piece => piece

mutual

def Raw.compact : Raw → Raw
  | .null => .null
  | .bool b => .bool b
  | .number l => .number l
  | .string pieces => .string (pieces.map Piece.compact)
  | .array _ items => .array 0 (Raw.itemsCompact items)
  | .object _ members => .object 0 (Raw.membersCompact members)

def Raw.itemsCompact : List Raw → List Raw
  | [] => []
  | item :: items => item.compact :: Raw.itemsCompact items

def Raw.membersCompact : List (List Piece × Raw) → List (List Piece × Raw)
  | [] => []
  | (key, item) :: members => (key.map Piece.compact, item.compact) :: Raw.membersCompact members

end

end Output

section Numbers

theorem integer_numericOut (n : ℤ) (scale : ℕ) : (numericOut n scale).integer = n := by
  have hpos : 0 < 10 ^ scale := Nat.pow_pos (by decide)
  have hdecimal : decimal ((numericOut n scale).whole ++ (numericOut n scale).frac) = n.natAbs := by
    rw [numericOut, decimal_append, length_lowDigits, decimal_lowDigits (Nat.mod_lt _ hpos),
      decimal_lowDigits (Nat.lt_pow_succ_log_self (by decide) _), mul_comm]
    exact Nat.div_add_mod _ _
  rw [NumLit.integer, hdecimal]
  have hnegative : (numericOut n scale).negative = decide (n < 0) := rfl
  rw [hnegative]
  split_ifs with h
  · rw [decide_eq_true_eq] at h
    omega
  · rw [decide_eq_true_eq] at h
    omega

theorem power_numericOut (n : ℤ) (scale : ℕ) : (numericOut n scale).power = -scale := by
  have hfrac : (numericOut n scale).frac.length = scale := length_lowDigits _ _
  have hexponent : (numericOut n scale).exponent = none := rfl
  rw [NumLit.power, hfrac, hexponent]
  exact zero_sub _

theorem numeric_numericOut (n : ℤ) (scale : ℕ) : (numericOut n scale).numeric = (n, scale) := by
  rw [NumLit.numeric, integer_numericOut, power_numericOut]
  split_ifs with h
  · have hzero : scale = 0 := by omega
    rw [hzero]
    simp
  · simp

/-- The number that a `numeric` is. -/
def numericValue (n : ℤ) (scale : ℕ) : ℚ := n * 10 ^ (-scale : ℤ)

theorem value_numericOut (n : ℤ) (scale : ℕ) :
    (numericOut n scale).value = numericValue n scale := by
  rw [NumLit.value, integer_numericOut, power_numericOut, numericValue]

theorem numericValue_numeric (l : NumLit) : numericValue l.numeric.1 l.numeric.2 = l.value := by
  rw [NumLit.numeric, numericValue, NumLit.value]
  split_ifs with h
  · obtain ⟨k, hk⟩ := Int.eq_ofNat_of_zero_le h
    rw [hk]
    push_cast
    simp
  · have hneg : (-((-l.power).toNat : ℤ)) = l.power := by omega
    rw [hneg]

end Numbers

section Strings

theorem mapM_stored_escapeJson {s : Text} (h : ∀ c ∈ s, c.toNat ≠ 0) :
    (s.map escapeJson).mapM Piece.stored = some s := by
  induction s with
  | nil => rfl
  | cons c s ih =>
    obtain ⟨hc, hs⟩ := forall_mem_cons.mp h
    have hpiece : (escapeJson c).stored = some c := by
      rw [escapeJson]
      split_ifs <;> exact if_neg hc
    rw [map_cons, mapM_cons, hpiece, ih hs]
    rfl

theorem stored_compact (piece : Piece) : piece.compact.stored = piece.stored := by
  cases piece with
  | plain c =>
    rw [Piece.compact]
    split_ifs <;> rfl
  | _ => rfl

theorem mapM_stored_compact (pieces : List Piece) :
    (pieces.map Piece.compact).mapM Piece.stored = pieces.mapM Piece.stored := by
  induction pieces with
  | nil => rfl
  | cons piece pieces ih => rw [map_cons, mapM_cons, mapM_cons, stored_compact, ih]

theorem toNat_ne_zero_of_mapM_stored {pieces : List Piece} {s : Text}
    (h : pieces.mapM Piece.stored = some s) : ∀ c ∈ s, c.toNat ≠ 0 := by
  have hpiece (piece : Piece) (c : Char) (hc : piece.stored = some c) : c.toNat ≠ 0 := by
    cases piece with
    | lone => cases hc
    | plain d | short d | unicode d =>
      obtain ⟨hne, heq⟩ := Option.ite_none_left_eq_some.mp hc
      exact Option.some_inj.mp heq ▸ hne
  induction pieces generalizing s with
  | nil =>
    obtain rfl : [] = s := Option.some_inj.mp h
    exact fun c hc ↦ by cases hc
  | cons piece pieces ih =>
    rw [mapM_cons] at h
    simp only [Option.bind_eq_bind, Option.bind_eq_some_iff] at h
    obtain ⟨c, hc, s', hs', h⟩ := h
    obtain rfl := Option.some_inj.mp h
    exact forall_mem_cons.mpr ⟨hpiece piece c hc, ih hs'⟩

end Strings

section Keys

theorem keyOrder_injective : Function.Injective keyOrder := by
  intro key key' h
  have hlex := congrArg (fun x ↦ (ofLex x).2) h
  exact map_injective_iff.mpr (fun c d hcd ↦ Char.toNat_inj.mp hcd) hlex

def KeySorted (members : List (Text × Jsonb)) : Prop :=
  members.Pairwise (fun x y ↦ keyOrder x.1 < keyOrder y.1)

theorem mem_insertKey {key : Text} {item : Jsonb} {members : List (Text × Jsonb)}
    {x : Text × Jsonb} (h : x ∈ insertKey key item members) : x = (key, item) ∨ x ∈ members := by
  induction members with
  | nil => exact .inl (mem_singleton.mp h)
  | cons y members ih =>
    rw [insertKey] at h
    split_ifs at h with heq hlt
    · exact (mem_cons.mp h).imp_right (mem_cons_of_mem _)
    · exact mem_cons.mp h
    · rcases mem_cons.mp h with rfl | h
      · exact .inr mem_cons_self
      · exact (ih h).imp_right (mem_cons_of_mem _)

theorem KeySorted.insertKey {members : List (Text × Jsonb)} (h : KeySorted members) (key : Text)
    (item : Jsonb) : KeySorted (insertKey key item members) := by
  induction members with
  | nil => exact pairwise_singleton _ _
  | cons y members ih =>
    obtain ⟨hfirst, hrest⟩ := pairwise_cons.mp h
    rw [Library.insertKey]
    split_ifs with heq hlt
    · exact pairwise_cons.mpr ⟨fun z hz ↦ heq ▸ hfirst z hz, hrest⟩
    · refine pairwise_cons.mpr ⟨fun z hz ↦ ?_, h⟩
      rcases mem_cons.mp hz with rfl | hz
      · exact hlt
      · exact hlt.trans (hfirst z hz)
    · refine pairwise_cons.mpr ⟨fun z hz ↦ ?_, ih hrest⟩
      rcases mem_insertKey hz with rfl | hz
      · exact lt_of_le_of_ne (not_lt.mp hlt) (fun h ↦ heq (keyOrder_injective h).symm)
      · exact hfirst z hz

theorem keySorted_uniqueKeys (members : List (Text × Jsonb)) : KeySorted (uniqueKeys members) := by
  have hrun (kept : List (Text × Jsonb)) (h : KeySorted kept) :
      KeySorted (members.foldl (fun kept x ↦ insertKey x.1 x.2 kept) kept) := by
    induction members generalizing kept with
    | nil => exact h
    | cons x members ih => exact ih _ (h.insertKey x.1 x.2)
  exact hrun [] List.Pairwise.nil

theorem mem_uniqueKeys {members : List (Text × Jsonb)} {x : Text × Jsonb}
    (h : x ∈ uniqueKeys members) : x ∈ members := by
  have hrun (kept : List (Text × Jsonb)) :
      x ∈ members.foldl (fun kept x ↦ insertKey x.1 x.2 kept) kept → x ∈ kept ∨ x ∈ members := by
    clear h
    induction members generalizing kept with
    | nil => exact .inl
    | cons y members ih =>
      intro h
      rcases ih (insertKey y.1 y.2 kept) h with h | h
      · rcases mem_insertKey h with rfl | h
        · exact .inr mem_cons_self
        · exact .inl h
      · exact .inr (mem_cons_of_mem _ h)
  exact (hrun [] h).resolve_left not_mem_nil

theorem insertKey_of_forall_lt {key : Text} {item : Jsonb} {members : List (Text × Jsonb)}
    (h : ∀ x ∈ members, keyOrder x.1 < keyOrder key) :
    insertKey key item members = members ++ [(key, item)] := by
  induction members with
  | nil => rfl
  | cons y members ih =>
    obtain ⟨hy, hrest⟩ := forall_mem_cons.mp h
    rw [insertKey, if_neg (fun heq ↦ hy.ne (by rw [heq])), if_neg hy.asymm, ih hrest,
      cons_append]

theorem uniqueKeys_of_keySorted {members : List (Text × Jsonb)} (h : KeySorted members) :
    uniqueKeys members = members := by
  induction members using List.reverseRecOn with
  | nil => rfl
  | append_singleton members x ih =>
    obtain ⟨hmembers, -, hlt⟩ := pairwise_append.mp h
    have ih := ih hmembers
    rw [uniqueKeys] at ih ⊢
    rw [foldl_append, ih]
    exact insertKey_of_forall_lt (fun y hy ↦ hlt y hy x (mem_singleton_self x))

end Keys

section RoundTrip

variable (P : ℚ → Bool)

mutual

/-- What `jsonb_in` makes of a text whose numbers pass `P`. -/
def Jsonb.Canonical : Jsonb → Prop
  | .number n scale => numericFits n scale = true ∧ P (numericValue n scale) = true
  | .string s => ∀ c ∈ s, c.toNat ≠ 0
  | .array items => Jsonb.ItemsCanonical items
  | .object members => KeySorted members ∧ Jsonb.MembersCanonical members
  | _ => True

def Jsonb.ItemsCanonical : List Jsonb → Prop
  | [] => True
  | item :: items => item.Canonical ∧ Jsonb.ItemsCanonical items

def Jsonb.MembersCanonical : List (Text × Jsonb) → Prop
  | [] => True
  | (key, item) :: members =>
    (∀ c ∈ key, c.toNat ≠ 0) ∧ item.Canonical ∧ Jsonb.MembersCanonical members

end

variable {P}

theorem Jsonb.membersCanonical_iff {members : List (Text × Jsonb)} :
    MembersCanonical P members ↔
      ∀ x ∈ members, (∀ c ∈ x.1, c.toNat ≠ 0) ∧ x.2.Canonical P := by
  induction members with
  | nil => simp [MembersCanonical]
  | cons x members ih =>
    rw [MembersCanonical, ih, forall_mem_cons, and_assoc]

mutual

theorem Raw.canonical_jsonb : ∀ {r : Raw} {j : Jsonb}, r.allNumbers P = true →
    r.jsonb = some j → j.Canonical P
  | .null, j, _, h => by
    obtain rfl := Option.some_inj.mp h
    trivial
  | .bool b, j, _, h => by
    obtain rfl := Option.some_inj.mp h
    trivial
  | .number l, j, hnumbers, h => by
    obtain ⟨hfits, h⟩ := Option.ite_none_right_eq_some.mp h
    obtain rfl := Option.some_inj.mp h
    refine ⟨hfits, ?_⟩
    rw [numericValue_numeric]
    exact hnumbers
  | .string pieces, j, _, h => by
    obtain ⟨s, hs, rfl⟩ := Option.map_eq_some_iff.mp h
    exact toNat_ne_zero_of_mapM_stored hs
  | .array blanks items, j, hnumbers, h => by
    obtain ⟨js, hjs, rfl⟩ := Option.map_eq_some_iff.mp h
    exact Raw.canonical_itemsJsonb (by simpa only [allNumbers] using hnumbers) hjs
  | .object blanks members, j, hnumbers, h => by
    obtain ⟨ms, hms, rfl⟩ := Option.map_eq_some_iff.mp h
    have hcanonical := Raw.canonical_membersJsonb (by simpa only [allNumbers] using hnumbers) hms
    rw [Jsonb.membersCanonical_iff] at hcanonical
    exact ⟨keySorted_uniqueKeys ms,
      Jsonb.membersCanonical_iff.mpr (fun x hx ↦ hcanonical x (mem_uniqueKeys hx))⟩

theorem Raw.canonical_itemsJsonb : ∀ {items : List Raw} {js : List Jsonb},
    Raw.itemsNumbers P items = true → Raw.itemsJsonb items = some js → Jsonb.ItemsCanonical P js
  | [], js, _, h => by
    obtain rfl := Option.some_inj.mp h
    trivial
  | item :: items, js, hnumbers, h => by
    rw [itemsNumbers, Bool.and_eq_true] at hnumbers
    simp only [itemsJsonb, Option.bind_eq_bind, Option.bind_eq_some_iff] at h
    obtain ⟨j, hj, js', hjs, h⟩ := h
    obtain rfl := Option.some_inj.mp h
    exact ⟨Raw.canonical_jsonb hnumbers.1 hj, Raw.canonical_itemsJsonb hnumbers.2 hjs⟩

theorem Raw.canonical_membersJsonb : ∀ {members : List (List Piece × Raw)}
    {ms : List (Text × Jsonb)}, Raw.membersNumbers P members = true →
    Raw.membersJsonb members = some ms → Jsonb.MembersCanonical P ms
  | [], ms, _, h => by
    obtain rfl := Option.some_inj.mp h
    trivial
  | (key, item) :: members, ms, hnumbers, h => by
    rw [membersNumbers, Bool.and_eq_true] at hnumbers
    simp only [membersJsonb, Option.bind_eq_bind, Option.bind_eq_some_iff] at h
    obtain ⟨k, hk, j, hj, ms', hms, h⟩ := h
    obtain rfl := Option.some_inj.mp h
    exact ⟨toNat_ne_zero_of_mapM_stored hk, Raw.canonical_jsonb hnumbers.1 hj,
      Raw.canonical_membersJsonb hnumbers.2 hms⟩

end

mutual

theorem Jsonb.jsonb_out : ∀ {j : Jsonb}, j.Canonical P →
    j.out.jsonb = some j ∧ j.out.allNumbers P = true
  | .null, _ => ⟨rfl, rfl⟩
  | .bool b, _ => ⟨rfl, rfl⟩
  | .number n scale, h => by
    rw [out, Raw.jsonb, Raw.allNumbers, numeric_numericOut, value_numericOut]
    exact ⟨if_pos h.1, h.2⟩
  | .string s, h => by
    rw [out, Raw.jsonb, mapM_stored_escapeJson h]
    exact ⟨rfl, rfl⟩
  | .array items, h => by
    have hitems : Jsonb.ItemsCanonical P items := h
    obtain ⟨hjsonb, hnumbers⟩ := Jsonb.jsonb_itemsOut hitems
    rw [out, Raw.jsonb, Raw.allNumbers, hjsonb]
    exact ⟨rfl, hnumbers⟩
  | .object members, h => by
    have hmembers : Jsonb.MembersCanonical P members := h.2
    obtain ⟨hjsonb, hnumbers⟩ := Jsonb.jsonb_membersOut hmembers
    rw [out, Raw.jsonb, Raw.allNumbers, hjsonb, Option.map_some, uniqueKeys_of_keySorted h.1]
    exact ⟨rfl, hnumbers⟩

theorem Jsonb.jsonb_itemsOut : ∀ {items : List Jsonb}, Jsonb.ItemsCanonical P items →
    Raw.itemsJsonb (Jsonb.itemsOut items) = some items ∧
      Raw.itemsNumbers P (Jsonb.itemsOut items) = true
  | [], _ => ⟨rfl, rfl⟩
  | item :: items, h => by
    obtain ⟨hjsonb, hnumbers⟩ := Jsonb.jsonb_out (j := item) h.1
    have hitems : Jsonb.ItemsCanonical P items := h.2
    obtain ⟨hrest, hrestnumbers⟩ := Jsonb.jsonb_itemsOut hitems
    rw [itemsOut, Raw.itemsJsonb, Raw.itemsNumbers, hjsonb, hrest, hnumbers, hrestnumbers]
    exact ⟨rfl, rfl⟩

theorem Jsonb.jsonb_membersOut : ∀ {members : List (Text × Jsonb)},
    Jsonb.MembersCanonical P members →
    Raw.membersJsonb (Jsonb.membersOut members) = some members ∧
      Raw.membersNumbers P (Jsonb.membersOut members) = true
  | [], _ => ⟨rfl, rfl⟩
  | (key, item) :: members, h => by
    obtain ⟨hjsonb, hnumbers⟩ := Jsonb.jsonb_out (j := item) h.2.1
    have hmembers : Jsonb.MembersCanonical P members := h.2.2
    obtain ⟨hrest, hrestnumbers⟩ := Jsonb.jsonb_membersOut hmembers
    rw [membersOut, Raw.membersJsonb, Raw.membersNumbers, mapM_stored_escapeJson h.1, hjsonb,
      hrest, hnumbers, hrestnumbers]
    exact ⟨rfl, rfl⟩

end

mutual

theorem Raw.jsonb_compact : ∀ r : Raw,
    r.compact.jsonb = r.jsonb ∧ r.compact.allNumbers P = r.allNumbers P
  | .null => ⟨rfl, rfl⟩
  | .bool b => ⟨rfl, rfl⟩
  | .number l => ⟨rfl, rfl⟩
  | .string pieces => by
    rw [compact, jsonb, jsonb, mapM_stored_compact]
    exact ⟨rfl, rfl⟩
  | .array blanks items => by
    obtain ⟨hjsonb, hnumbers⟩ := Raw.jsonb_itemsCompact items
    rw [compact, jsonb, jsonb, allNumbers, allNumbers, hjsonb, hnumbers]
    exact ⟨rfl, rfl⟩
  | .object blanks members => by
    obtain ⟨hjsonb, hnumbers⟩ := Raw.jsonb_membersCompact members
    rw [compact, jsonb, jsonb, allNumbers, allNumbers, hjsonb, hnumbers]
    exact ⟨rfl, rfl⟩

theorem Raw.jsonb_itemsCompact : ∀ items : List Raw,
    Raw.itemsJsonb (Raw.itemsCompact items) = Raw.itemsJsonb items ∧
      Raw.itemsNumbers P (Raw.itemsCompact items) = Raw.itemsNumbers P items
  | [] => ⟨rfl, rfl⟩
  | item :: items => by
    obtain ⟨hjsonb, hnumbers⟩ := Raw.jsonb_compact item
    obtain ⟨hrest, hrestnumbers⟩ := Raw.jsonb_itemsCompact items
    rw [itemsCompact, itemsJsonb, itemsJsonb, itemsNumbers, itemsNumbers, hjsonb, hrest, hnumbers,
      hrestnumbers]
    exact ⟨rfl, rfl⟩

theorem Raw.jsonb_membersCompact : ∀ members : List (List Piece × Raw),
    Raw.membersJsonb (Raw.membersCompact members) = Raw.membersJsonb members ∧
      Raw.membersNumbers P (Raw.membersCompact members) = Raw.membersNumbers P members
  | [] => ⟨rfl, rfl⟩
  | (key, item) :: members => by
    obtain ⟨hjsonb, hnumbers⟩ := Raw.jsonb_compact item
    obtain ⟨hrest, hrestnumbers⟩ := Raw.jsonb_membersCompact members
    rw [membersCompact, membersJsonb, membersJsonb, membersNumbers, membersNumbers,
      mapM_stored_compact, hjsonb, hrest, hnumbers, hrestnumbers]
    exact ⟨rfl, rfl⟩

end

end RoundTrip

end TalaPala.Library
