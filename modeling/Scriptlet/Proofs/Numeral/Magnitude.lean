import Scriptlet.Proofs.Numeral.Literal
import Scriptlet.Proofs.Numeral.Printed

/-!
# `Proofs.Numeral.Magnitude` — floats that are spelled without a sign

A float that is read from digits and a point has no sign, and it is a number or infinity. So only one of
these floats is not finite.

Reading computes with the exact model of the floats: it makes a float of a whole number and multiplies
or divides it by a power of ten. Products and quotients are rounded to floats without a sign again. They
are numbers or infinity because the power of ten is neither zero nor infinity.

## Contents
- `UnsignedFloat`, `OrdinaryFloat`: unpacked floats without a sign. Rounding, products with an ordinary
  one and quotients by it keep the first.
- `toNat_pack_le`, `unsigned_unpack`: the bits of an unsigned float.
- `IsMagnitude`: a float with such bits. `isMagnitude_value`, `isMagnitude_of_readFloat`: digits spell one.
- `IsMagnitude.eq_infinityBits`, `IsMagnitude.eq_of_finiteText?_eq_none`: only one of them is not finite.
-/

namespace Scriptlet.Numeral

open Float.Model Float.Model.UnpackedFloat

/-! ## Before packing -/

/-- A number or infinity, without a sign. -/
def UnsignedFloat : UnpackedFloat → Prop
  | .infinity .positive | .zero .positive | .finite .positive _ _ _ => True
  | _ => False

/-- A number other than zero, without a sign. -/
def OrdinaryFloat : UnpackedFloat → Prop
  | .finite .positive _ _ _ => True
  | _ => False

instance : DecidablePred OrdinaryFloat
  | .finite .positive _ _ _ => .isTrue trivial
  | .finite .negative _ _ _ | .notANumber | .infinity _ | .zero _ => .isFalse id

section Unpacked

variable {spec : Format} {u v : UnpackedFloat}

theorem unsigned_ite {c : Prop} [Decidable c] (hu : UnsignedFloat u) (hv : UnsignedFloat v) :
    UnsignedFloat (if c then u else v) := by
  by_cases hc : c
  · rwa [if_pos hc]
  · rwa [if_neg hc]

theorem unsigned_dite {c : Prop} [Decidable c] {f : c → UnpackedFloat} {g : ¬c → UnpackedFloat}
    (hf : ∀ hc, UnsignedFloat (f hc)) (hg : ∀ hc, UnsignedFloat (g hc)) :
    UnsignedFloat (dite c f g) := by
  by_cases hc : c
  · rw [dif_pos hc]
    exact hf hc
  · rw [dif_neg hc]
    exact hg hc

theorem unsigned_round (m : Nat) (e : Int) (accuracy : Accuracy) :
    UnsignedFloat (roundWithAccuracy spec .positive m e accuracy) := by
  unfold roundWithAccuracy
  exact unsigned_dite (fun _ => trivial) (fun _ => trivial)

theorem OrdinaryFloat.exists_finite (hv : OrdinaryFloat v) :
    ∃ m e hm, v = .finite .positive m e hm := by
  cases v with
  | notANumber | infinity s | zero s => cases hv
  | finite s m e hm =>
    cases s with
    | negative => cases hv
    | positive => exact ⟨m, e, hm, rfl⟩

theorem UnsignedFloat.cases (hu : UnsignedFloat u) :
    u = .infinity .positive ∨ u = .zero .positive ∨ OrdinaryFloat u := by
  cases u with
  | notANumber => cases hu
  | infinity s =>
    cases s with
    | negative => cases hu
    | positive => exact Or.inl rfl
  | zero s =>
    cases s with
    | negative => cases hu
    | positive => exact Or.inr (Or.inl rfl)
  | finite s m e hm =>
    cases s with
    | negative => cases hu
    | positive => exact Or.inr (Or.inr trivial)

theorem unsigned_mul (hu : UnsignedFloat u) (hv : OrdinaryFloat v) :
    UnsignedFloat (mul spec u v) := by
  obtain ⟨m, e, hm, rfl⟩ := hv.exists_finite
  rcases hu.cases with rfl | rfl | hu
  · trivial
  · trivial
  · obtain ⟨n, k, hn, rfl⟩ := hu.exists_finite
    exact unsigned_round _ _ _

theorem unsigned_div (hu : UnsignedFloat u) (hv : OrdinaryFloat v) :
    UnsignedFloat (div spec u v) := by
  obtain ⟨m, e, hm, rfl⟩ := hv.exists_finite
  rcases hu.cases with rfl | rfl | hu
  · trivial
  · trivial
  · obtain ⟨n, k, hn, rfl⟩ := hu.exists_finite
    exact unsigned_round _ _ _

theorem unsigned_ofScientific (m : Nat) (e : Int) :
    UnsignedFloat (UnpackedFloat.ofScientific spec m e) := by
  unfold UnpackedFloat.ofScientific
  refine unsigned_dite (fun _ => trivial) fun hm => ?_
  refine unsigned_ite trivial (unsigned_ite trivial (unsigned_ite ?_ ?_))
  · exact unsigned_mul (u := .finite .positive _ _ _) trivial trivial
  · exact unsigned_div (u := .finite .positive _ _ _) trivial trivial

theorem unsigned_ofUInt64 (n : UInt64) : UnsignedFloat (UnpackedFloat.ofUInt64 spec n) := by
  unfold UnpackedFloat.ofUInt64 UnpackedFloat.ofNat UnpackedFloat.ofInt UnpackedFloat.normalize
  split
  · next hlt =>
    have hneg : (n.toNat : ℤ) < 0 := compare_lt_iff_lt.mp hlt
    omega
  · trivial
  · exact unsigned_round _ _ _

end Unpacked

/-! ## Packed -/

/-- The bits of infinity without a sign, as a number. -/
def infinityBits : Nat := 2047 * 2 ^ 52

section Packed

variable {u : UnpackedFloat} {b : BitVec 64}

theorem toNat_packComponents (e : BitVec 11) (m : BitVec 52) :
    (packComponents Format.binary64 .positive e m).toNat = e.toNat * 2 ^ 52 + m.toNat := by
  have hm : m.toNat < 2 ^ 52 := m.isLt
  have hsign : (Sign.positive.toBitVec ++ e).toNat = e.toNat := by
    rw [BitVec.toNat_append]
    exact Nat.zero_or _
  show (Sign.positive.toBitVec ++ e ++ m).toNat = _
  rw [BitVec.toNat_append, hsign, ← Nat.shiftLeft_add_eq_or_of_lt hm, Nat.shiftLeft_eq]

theorem toNat_pack_le (hu : UnsignedFloat u) :
    (UnpackedFloat.pack Format.binary64 u).toNat ≤ infinityBits := by
  rcases hu.cases with rfl | rfl | hu
  · exact (toNat_packComponents _ _).le
  · exact (toNat_packComponents _ _).trans_le (Nat.zero_le _)
  · obtain ⟨m, e, hm, rfl⟩ := hu.exists_finite
    have hfraction : (BitVec.ofNat 52 m).toNat < 2 ^ 52 := (BitVec.ofNat 52 m).isLt
    unfold UnpackedFloat.pack
    dsimp only
    split
    · exact (toNat_packComponents _ _).le
    split
    · next hexponent hbits =>
      refine (toNat_packComponents _ _).trans_le ?_
      have hbiased (n : Nat) : (BitVec.ofNat 11 n).toNat ≤ n := Nat.mod_le _ _
      have hlast := hbiased (e + Format.binary64.exponentBias + (52 : Nat)).toNat
      unfold infinityBits
      omega
    · refine (toNat_packComponents _ _).trans_le ?_
      show 0 * 2 ^ 52 + (BitVec.ofNat 52 m).toNat ≤ infinityBits
      unfold infinityBits
      omega

theorem toNat_unpackMantissa (b : BitVec 64) :
    (@unpackMantissa Format.binary64 b).toNat = b.toNat % 2 ^ 52 := by
  unfold unpackMantissa
  rw [BitVec.toNat_cast, BitVec.extractLsb_toNat]
  rfl

theorem toNat_unpackExponent (b : BitVec 64) :
    (@unpackExponent Format.binary64 b).toNat = b.toNat / 2 ^ 52 % 2 ^ 11 := by
  unfold unpackExponent
  rw [BitVec.toNat_cast, BitVec.extractLsb_toNat, Nat.shiftRight_eq_div_pow]
  rfl

theorem toNat_unpackSign (b : BitVec 64) :
    (@unpackSign Format.binary64 b).toNat = b.toNat / 2 ^ 63 % 2 := by
  unfold unpackSign
  rw [BitVec.toNat_cast, BitVec.extractLsb_toNat, Nat.shiftRight_eq_div_pow]
  rfl

theorem unsigned_unpack (hb : b.toNat ≤ infinityBits) :
    UnsignedFloat (UnpackedFloat.unpack Format.binary64 b) := by
  have hmantissa := toNat_unpackMantissa b
  have hexponent := toNat_unpackExponent b
  have hsign : Sign.ofBitVec (@unpackSign Format.binary64 b) = .positive := by
    refine if_pos (BitVec.eq_of_toNat_eq ((toNat_unpackSign b).trans ?_))
    unfold infinityBits at hb
    show b.toNat / 2 ^ 63 % 2 = 0
    omega
  unfold UnpackedFloat.unpack
  dsimp only
  rw [hsign]
  by_cases hlast : @unpackExponent Format.binary64 b = -1#11
  · -- the bits are those of infinity
    have htop : b.toNat / 2 ^ 52 % 2 ^ 11 = 2047 := by
      rw [← hexponent, hlast]
      rfl
    have hzero : @unpackMantissa Format.binary64 b = 0#52 := by
      refine BitVec.eq_of_toNat_eq (hmantissa.trans ?_)
      unfold infinityBits at hb
      show b.toNat % 2 ^ 52 = 0
      omega
    rw [if_pos hlast, if_pos hzero]
    trivial
  · rw [if_neg hlast]
    exact unsigned_ite (unsigned_dite (fun _ => trivial) (fun _ => trivial)) trivial

end Packed

/-! ## Floats -/

/-- A float that is a number or infinity, without a sign. -/
def IsMagnitude (x : Float) : Prop := x.toBits.toNat ≤ infinityBits

section Floats

variable {x y : Float} {u : UnpackedFloat} {m : Nat}

theorem isMagnitude_ofModel (hu : UnsignedFloat u) : IsMagnitude (.ofModel (Float.Model.pack u)) :=
  toNat_pack_le hu

theorem IsMagnitude.unsigned (hx : IsMagnitude x) : UnsignedFloat x.toModel.unpack :=
  unsigned_unpack hx

theorem isMagnitude_toFloat (n : UInt64) : IsMagnitude n.toFloat :=
  isMagnitude_ofModel (unsigned_ofUInt64 n)

/-- The powers of ten that multiply and divide are ordinary. -/
theorem ordinary_powerOfTen : ∀ (e : Nat) (_ : e < Float.exactlyRepresentablePowersOfTen.size),
    OrdinaryFloat Float.exactlyRepresentablePowersOfTen[e].toModel.unpack := by
  decide

theorem isMagnitude_ofScientific (m : Nat) (negative : Bool) (e : Nat) :
    IsMagnitude (Float.ofScientific m negative e) := by
  unfold Float.ofScientific
  split
  · next hexact =>
    have hpower := ordinary_powerOfTen e (Nat.lt_succ_of_le hexact.2)
    have hwhole := (isMagnitude_toFloat m.toUInt64).unsigned
    dsimp only
    split
    · exact isMagnitude_ofModel (unsigned_div hwhole hpower)
    · exact isMagnitude_ofModel (unsigned_mul hwhole hpower)
  · exact isMagnitude_ofModel (unsigned_ofScientific _ _)

theorem isMagnitude_infinity : IsMagnitude (1 / 0) := by
  unfold IsMagnitude
  decide +kernel

/-- What digits spell. -/
theorem isMagnitude_value (s : Spelling) : IsMagnitude s.value := by
  unfold Spelling.value
  dsimp only
  split
  · exact isMagnitude_ofScientific 0 false 0
  split
  · exact isMagnitude_infinity
  split
  · exact isMagnitude_ofScientific 0 false 0
  · exact isMagnitude_ofScientific _ _ _

/-- A magnitude without a text is infinity. -/
theorem IsMagnitude.eq_infinityBits {style : Style} (hx : IsMagnitude x)
    (hnone : finiteText? style x = none) : x.toBits.toNat = infinityBits := by
  unfold IsMagnitude infinityBits at hx
  have hlast : x.toBits.toNat / 2 ^ 52 % 2048 = 2047 := by
    by_contra hother
    unfold finiteText? Binary64.ofFloat at hnone
    simp only [Nat.pow_eq, if_neg hother] at hnone
    split at hnone
    · next hfloat => split at hfloat <;> cases hfloat
    · next hfloat => split at hfloat <;> cases hfloat
    · cases hnone
  unfold infinityBits
  omega

/-- So there is one of them alone. -/
theorem IsMagnitude.eq_of_finiteText?_eq_none {style : Style} (hx : IsMagnitude x)
    (hy : IsMagnitude y) (hnone : finiteText? style x = none) (hnone' : finiteText? style y = none) :
    x = y :=
  eq_of_toBits ((hx.eq_infinityBits hnone).trans (hy.eq_infinityBits hnone').symm)

/-- A word for a float has no point in it. -/
theorem specialFloat?_eq_none {cs : List Char} (h : '.' ∈ cs) : specialFloat? cs = none := by
  have hpoint : '.' ∈ cs.map Char.toLower := List.mem_map_of_mem (f := Char.toLower) h
  have hword (word : String) (hplain : '.' ∉ word.toList) :
      String.ofList (cs.map Char.toLower) ≠ word := by
    rintro rfl
    rw [String.toList_ofList] at hplain
    exact hplain hpoint
  unfold specialFloat?
  simp [hword "inf" (by decide), hword "infinity" (by decide), hword "nan" (by decide)]

/-- What the lexer takes for a float. -/
theorem isMagnitude_of_readFloat {text : String} {whole places : List Char}
    (h : IsFloat text whole places) (hread : readFloat text = some x) : IsMagnitude x := by
  have hspecial : specialFloat? text.toList = none := specialFloat?_eq_none (by simp [h.eq])
  unfold readFloat at hread
  rw [splitSign_of_isFloat h] at hread
  simp only [hspecial, ofChars?_of_isFloat h] at hread
  cases hread
  exact isMagnitude_value _

end Floats

end Scriptlet.Numeral
