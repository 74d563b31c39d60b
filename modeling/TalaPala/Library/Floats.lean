import Mathlib

namespace TalaPala.Library

open Float.Model (UnpackedFloat Format)
open Float.Model.UnpackedFloat (unpackMantissa_packComponents unpackExponent_packComponents)

section Rank

abbrev Rank := ℤ ×ₗ ℤ ×ₗ ℤ

def rankAt (side e m : ℤ) : Rank := toLex (side, toLex (e, m))

def rankOf : UnpackedFloat → Option Rank
  | .notANumber => none
  | .infinity .negative => some (rankAt (-2) 0 0)
  | .finite .negative m e _ => some (rankAt (-1) (-e) (-m))
  | .zero _ => some (rankAt 0 0 0)
  | .finite .positive m e _ => some (rankAt 1 e m)
  | .infinity .positive => some (rankAt 2 0 0)

theorem rankOf_eq_none {a : UnpackedFloat} : rankOf a = none ↔ a.isNaN = true := by
  cases a with
  | infinity s => cases s <;> simp [rankOf, UnpackedFloat.isNaN]
  | finite s => cases s <;> simp [rankOf, UnpackedFloat.isNaN]
  | _ => simp [rankOf, UnpackedFloat.isNaN]

theorem cmp_toLex {α β : Type*} [LinearOrder α] [LinearOrder β] (a a' : α) (b b' : β) :
    cmp (toLex (a, b)) (toLex (a', b')) = (cmp a a').then (cmp b b') := by
  rcases lt_trichotomy a a' with h | rfl | h
  · rw [(cmp_eq_lt_iff _ _).mpr h]
    exact (cmp_eq_lt_iff _ _).mpr (Prod.Lex.toLex_lt_toLex.mpr (.inl h))
  · rw [cmp_self_eq_eq]
    rcases lt_trichotomy b b' with h | rfl | h
    · rw [(cmp_eq_lt_iff _ _).mpr h]
      exact (cmp_eq_lt_iff _ _).mpr (Prod.Lex.toLex_lt_toLex.mpr (.inr ⟨rfl, h⟩))
    · rw [cmp_self_eq_eq, cmp_self_eq_eq]
      rfl
    · rw [(cmp_eq_gt_iff _ _).mpr h]
      exact (cmp_eq_gt_iff _ _).mpr (Prod.Lex.toLex_lt_toLex.mpr (.inr ⟨rfl, h⟩))
  · rw [(cmp_eq_gt_iff _ _).mpr h]
    exact (cmp_eq_gt_iff _ _).mpr (Prod.Lex.toLex_lt_toLex.mpr (.inl h))

theorem cmp_neg (a b : ℤ) : cmp (-a) (-b) = (cmp a b).swap := by
  rw [cmp_swap]
  simp [cmp, cmpUsing]

theorem cmp_cast (a b : ℕ) : cmp (a : ℤ) b = cmp a b := by
  simp [cmp, cmpUsing]

theorem compare_eq_cmp {a b : UnpackedFloat} {x y : Rank} (ha : rankOf a = some x)
    (hb : rankOf b = some y) : a.compare b = some (cmp x y) := by
  cases a with
  | notANumber => cases ha
  | infinity s =>
    cases b with
    | notANumber => cases hb
    | infinity t => cases s <;> cases t <;> cases ha <;> cases hb <;> rfl
    | zero t => cases s <;> cases ha <;> cases hb <;> rfl
    | finite t => cases s <;> cases t <;> cases ha <;> cases hb <;> rfl
  | zero s =>
    cases b with
    | notANumber => cases hb
    | infinity t => cases t <;> cases ha <;> cases hb <;> rfl
    | zero t => cases ha; cases hb; rfl
    | finite t => cases t <;> cases ha <;> cases hb <;> rfl
  | finite s m e =>
    cases b with
    | notANumber => cases hb
    | infinity t => cases s <;> cases t <;> cases ha <;> cases hb <;> rfl
    | zero t => cases s <;> cases ha <;> cases hb <;> rfl
    | finite t m' e' =>
      cases s <;> cases t <;> cases ha <;> cases hb
      · rw [rankAt, rankAt, cmp_toLex, cmp_toLex, cmp_self_eq_eq, cmp_neg, cmp_neg, cmp_cast,
          cmp_eq_compare, cmp_eq_compare, UnpackedFloat.compare]
        cases compare e e' <;> rfl
      · rfl
      · rfl
      · rw [rankAt, rankAt, cmp_toLex, cmp_toLex, cmp_self_eq_eq, cmp_cast, cmp_eq_compare,
          cmp_eq_compare]
        rfl

end Rank

section Comparisons

variable {a b : Float} {x y : Rank}

def floatRank (a : Float) : Option Rank := rankOf a.toModel.unpack

theorem exists_floatRank (h : a.isNaN = false) : ∃ x, floatRank a = some x := by
  rw [← Option.ne_none_iff_exists', Ne, floatRank, rankOf_eq_none]
  exact Bool.eq_false_iff.mp h

theorem float_lt_iff (ha : floatRank a = some x) (hb : floatRank b = some y) : a < b ↔ x < y := by
  have hcompare : a.toModel.unpack.compare b.toModel.unpack = some (cmp x y) :=
    compare_eq_cmp ha hb
  change decide (a.toModel < b.toModel) = true ↔ x < y
  rw [decide_eq_true_iff]
  change (a.toModel.unpack.compare b.toModel.unpack == some .lt) = true ↔ x < y
  rw [hcompare, beq_iff_eq, Option.some.injEq, cmp_eq_lt_iff]

theorem float_beq_iff (ha : floatRank a = some x) (hb : floatRank b = some y) : (a == b) = true ↔ x = y := by
  have hcompare : a.toModel.unpack.compare b.toModel.unpack = some (cmp x y) :=
    compare_eq_cmp ha hb
  change (a.toModel.unpack.compare b.toModel.unpack == some .eq) = true ↔ x = y
  rw [hcompare, beq_iff_eq, Option.some.injEq, cmp_eq_eq_iff]

theorem float_beq_self (h : a.isNaN = false) : (a == a) = true := by
  obtain ⟨x, hx⟩ := exists_floatRank h
  exact (float_beq_iff hx hx).mpr rfl

theorem isNaN_of_float_beq (h : (a == b) = true) : a.isNaN = false ∧ b.isNaN = false := by
  have hcompare : (a.toModel.unpack.compare b.toModel.unpack == some .eq) = true := h
  constructor
  · change a.toModel.unpack.isNaN = false
    cases ha : a.toModel.unpack with
    | notANumber =>
      rw [ha] at hcompare
      cases hcompare
    | _ => rfl
  · change b.toModel.unpack.isNaN = false
    cases hb : b.toModel.unpack with
    | notANumber =>
      rw [hb] at hcompare
      cases ha : a.toModel.unpack <;> rw [ha] at hcompare <;> cases hcompare
    | _ => rfl

theorem float_beq_symm (h : (a == b) = true) : (b == a) = true := by
  obtain ⟨ha, hb⟩ := isNaN_of_float_beq h
  obtain ⟨x, hx⟩ := exists_floatRank ha
  obtain ⟨y, hy⟩ := exists_floatRank hb
  exact (float_beq_iff hy hx).mpr ((float_beq_iff hx hy).mp h).symm

theorem float_beq_trans {c : Float} (h : (a == b) = true) (h' : (b == c) = true) :
    (a == c) = true := by
  obtain ⟨ha, hb⟩ := isNaN_of_float_beq h
  obtain ⟨x, hx⟩ := exists_floatRank ha
  obtain ⟨y, hy⟩ := exists_floatRank hb
  obtain ⟨z, hz⟩ := exists_floatRank (isNaN_of_float_beq h').2
  exact (float_beq_iff hx hz).mpr
    (((float_beq_iff hx hy).mp h).trans ((float_beq_iff hy hz).mp h'))

end Comparisons

section Numbers

theorem isNaN_unpack_pack {spec : Format} {f : UnpackedFloat} (h : f.isNaN = false) :
    (UnpackedFloat.unpack spec (UnpackedFloat.pack spec f)).isNaN = false := by
  have hones : ∀ {e : ℕ}, e + 1 < 2 ^ spec.exponentBits →
      BitVec.ofNat spec.exponentBits e ≠ -1#_ := by
    intro e he heq
    have hnat := congrArg BitVec.toNat heq
    rw [BitVec.neg_one_eq_allOnes, BitVec.toNat_allOnes, BitVec.toNat_ofNat,
      Nat.mod_eq_of_lt (by omega)] at hnat
    omega
  have hzero : BitVec.ofNat spec.exponentBits 0 ≠ -1#_ := by
    have := Nat.one_lt_two_pow (Nat.pos_iff_ne_zero.mp spec.he)
    exact hones (by omega)
  have hnumber : ∀ s (e : BitVec spec.exponentBits) (m : BitVec spec.mantissaBitsWithoutImplicit),
      (e = -1#_ → m = 0#_) →
        (UnpackedFloat.unpack spec (UnpackedFloat.packComponents spec s e m)).isNaN = false := by
    intro s e m hmantissa
    rw [UnpackedFloat.unpack]
    split_ifs with hexponent hm
    · rfl
    · rw [unpackExponent_packComponents] at hexponent
      rw [unpackMantissa_packComponents] at hm
      exact absurd (hmantissa hexponent) hm
    all_goals rfl
  cases f with
  | notANumber => cases h
  | infinity s => exact hnumber s _ _ (fun _ ↦ rfl)
  | zero s => exact hnumber s _ _ (fun hexponent ↦ absurd hexponent hzero)
  | finite s m e hm =>
    rw [UnpackedFloat.pack]
    split_ifs with hlarge hnormal
    · exact hnumber s _ _ (fun _ ↦ rfl)
    · exact hnumber s _ _ (fun hexponent ↦ absurd hexponent (hones (by omega)))
    · exact hnumber s _ _ (fun hexponent ↦ absurd hexponent hzero)

theorem isNaN_ofModel_pack {f : UnpackedFloat} (h : f.isNaN = false) :
    (Float.ofModel (.pack f)).isNaN = false :=
  isNaN_unpack_pack h

theorem isNaN_roundWithAccuracy (spec : Format) (s : UnpackedFloat.Sign) (m : ℕ) (e : ℤ)
    (accuracy : UnpackedFloat.Accuracy) :
    (UnpackedFloat.roundWithAccuracy spec s m e accuracy).isNaN = false := by
  rw [UnpackedFloat.roundWithAccuracy]
  dsimp only
  split_ifs <;> rfl

def floatOfInt (n : ℤ) : Float := .ofModel (.ofInt n)

theorem isNaN_floatOfInt (n : ℤ) : (floatOfInt n).isNaN = false := by
  refine isNaN_ofModel_pack ?_
  rw [UnpackedFloat.ofInt, UnpackedFloat.normalize]
  split
  · exact isNaN_roundWithAccuracy _ _ _ _ _
  · rfl
  · exact isNaN_roundWithAccuracy _ _ _ _ _

theorem isNaN_mul {a b : Float} (ha : a.isFinite = true) (hb : b.isFinite = true) :
    (a * b).isNaN = false := by
  refine isNaN_ofModel_pack ?_
  change a.toModel.unpack.isFinite = true at ha
  change b.toModel.unpack.isFinite = true at hb
  cases h : a.toModel.unpack <;> cases h' : b.toModel.unpack <;> rw [h] at ha <;> rw [h'] at hb <;>
    cases ha <;> cases hb <;> first | rfl | exact isNaN_roundWithAccuracy _ _ _ _ _

theorem isNaN_div {a b : Float} (ha : a.isNaN = false) (hb : b.isFinite = true) (hpos : 0 < b) :
    (a / b).isNaN = false := by
  refine isNaN_ofModel_pack ?_
  change a.toModel.unpack.isNaN = false at ha
  change b.toModel.unpack.isFinite = true at hb
  have hzero : floatRank 0 = some (rankAt 0 0 0) := by decide +kernel
  cases h' : b.toModel.unpack with
  | zero s =>
    have hb0 : floatRank b = some (rankAt 0 0 0) := by rw [floatRank, h', rankOf]
    exact absurd ((float_lt_iff hzero hb0).mp hpos) (lt_irrefl _)
  | finite s m e hm =>
    cases h : a.toModel.unpack with
    | notANumber =>
      rw [h] at ha
      cases ha
    | finite s m e hm => exact isNaN_roundWithAccuracy _ _ _ _ _
    | _ => rfl
  | _ =>
    rw [h'] at hb
    cases hb

def roundHalfAway (v : Float) : Float :=
  match v.toModel.unpack with
  | .finite s m e _ =>
    if 0 ≤ e then v
    else
      let n := (2 * m + 2 ^ (-e).toNat) / 2 ^ ((-e).toNat + 1)
      .ofModel (.pack (UnpackedFloat.normalize .binary64 (s.apply n) 0 s))
  | _ => v

theorem isNaN_roundHalfAway {v : Float} (h : v.isNaN = false) : (roundHalfAway v).isNaN = false := by
  rw [roundHalfAway]
  split
  · split
    · exact h
    · refine isNaN_ofModel_pack ?_
      rw [UnpackedFloat.normalize]
      split
      · exact isNaN_roundWithAccuracy _ _ _ _ _
      · rfl
      · exact isNaN_roundWithAccuracy _ _ _ _ _
  · exact h

end Numbers

end TalaPala.Library
