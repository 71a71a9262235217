import Scriptlet.Text.Utf8

/-!
# `Proofs.Text.Utf8` — a text is drawn from its bytes as it was written

The first byte of a character tells how many follow, and each of these adds six bits to what is known
of the code point. The draws from a text's bytes are its characters.

## Contents
- `follow_tail`: one byte more of a character.
- `lead?_one` to `lead?_four`: a first byte with its share of the code point.
- `draws_encoded`: the character in front of a file, `draws_text`: a whole text.
-/

namespace Scriptlet.Utf8

theorem toNat_byte {n : Nat} (h : n < 256) : (UInt8.ofNat n).toNat = n := by
  simp [Nat.mod_eq_of_lt h]

/-- A byte that continues a character adds its six bits. -/
theorem follow_tail {n code missing share : Nat} (h : share < 64) (bytes : List UInt8) :
    follow n code (missing + 1) (UInt8.ofNat (share + 128) :: bytes) =
      follow n (code * 64 + share) missing bytes := by
  have hnat := toNat_byte (n := share + 128) (by omega)
  have htail : isTail (UInt8.ofNat (share + 128)) = true := by
    simp only [isTail, Bool.and_eq_true, decide_eq_true_eq, UInt8.le_iff_toNat_le,
      UInt8.lt_iff_toNat_lt, hnat]
    constructor
    · show 128 ≤ share + 128
      omega
    · show share + 128 < 192
      omega
  rw [follow, if_pos htail, hnat, Nat.add_sub_cancel]

/-- The shortest form of a code point spells its character. -/
theorem spelled_toNat {n : Nat} {c : Char} (h : least n ≤ c.toNat) :
    spelled n c.toNat = .char c := by
  have hvalid : c.toNat.isValidChar := c.valid
  simp [spelled, h, hvalid, Char.ofNat_toNat]

/-! ## The first byte -/

theorem lead?_one {share : Nat} (h : share < 128) : lead? share = some (share, 0) := by
  unfold lead?
  rw [if_pos h]

theorem lead?_two {share : Nat} (h : share < 32) : lead? (share + 192) = some (share, 1) := by
  unfold lead?
  rw [if_neg (by omega), if_neg (by omega), if_pos (by omega), Nat.add_sub_cancel]

theorem lead?_three {share : Nat} (h : share < 16) : lead? (share + 224) = some (share, 2) := by
  unfold lead?
  rw [if_neg (by omega), if_neg (by omega), if_neg (by omega), if_pos (by omega),
    Nat.add_sub_cancel]

theorem lead?_four {share : Nat} (h : share < 8) : lead? (share + 240) = some (share, 3) := by
  unfold lead?
  rw [if_neg (by omega), if_neg (by omega), if_neg (by omega), if_neg (by omega),
    if_pos (by omega), Nat.add_sub_cancel]

/-- The draw at a first byte is told by what follows it. -/
theorem draws_lead {b n code : Nat} {c : Char} {tail bytes : List UInt8} (hb : b < 256)
    (hlead : lead? b = some (code, n)) (h : follow n code n (tail ++ bytes) = (.char c, bytes)) :
    draws (UInt8.ofNat b :: tail ++ bytes) = .char c :: draws bytes := by
  have hdraw : draw (UInt8.ofNat b) (tail ++ bytes) = (.char c, bytes) := by
    unfold draw
    rw [toNat_byte hb, hlead]
    exact h
  rw [List.cons_append, draws, hdraw]

/-! ## Whole texts -/

/-- The character that was written in front of a file is drawn first. -/
theorem draws_encoded (c : Char) (bytes : List UInt8) :
    draws (String.utf8EncodeChar c ++ bytes) = .char c :: draws bytes := by
  have hvalid : c.toNat < 0x110000 := by
    rcases c.valid with h | h
    · exact Nat.lt_trans h (by decide)
    · exact h.2
  have hcode : c.val.toNat = c.toNat := rfl
  unfold String.utf8EncodeChar
  simp only [hcode]
  -- one case for each number of bytes
  split
  · refine draws_lead (by omega) (lead?_one (by omega)) ?_
    rw [List.nil_append, follow, spelled_toNat (Nat.zero_le _)]
  split
  · refine draws_lead (by omega) (lead?_two (by omega)) ?_
    have hsum : c.toNat / 64 % 32 * 64 + c.toNat % 64 = c.toNat := by omega
    rw [List.cons_append, follow_tail (by omega), List.nil_append, follow, hsum,
      spelled_toNat (by simp only [least]; omega)]
  split
  · refine draws_lead (by omega) (lead?_three (by omega)) ?_
    have hsum : (c.toNat / 4096 % 16 * 64 + c.toNat / 64 % 64) * 64 + c.toNat % 64 = c.toNat := by
      omega
    rw [List.cons_append, follow_tail (by omega), List.cons_append, follow_tail (by omega),
      List.nil_append, follow, hsum, spelled_toNat (by simp only [least]; omega)]
  · refine draws_lead (by omega) (lead?_four (by omega)) ?_
    have hsum : ((c.toNat / 262144 % 8 * 64 + c.toNat / 4096 % 64) * 64 + c.toNat / 64 % 64) * 64 +
        c.toNat % 64 = c.toNat := by omega
    rw [List.cons_append, follow_tail (by omega), List.cons_append, follow_tail (by omega),
      List.cons_append, follow_tail (by omega), List.nil_append, follow, hsum,
      spelled_toNat (by simp only [least]; omega)]

/-- A text's bytes give its characters. -/
theorem draws_text (source : String) :
    draws source.toUTF8.data.toList = source.toList.map .char := by
  have hbytes : source.toUTF8.data.toList = source.toList.flatMap String.utf8EncodeChar := by
    conv => lhs; rw [← String.ofList_toList (s := source)]
    rw [String.toUTF8_eq_toByteArray, String.toByteArray_ofList, List.utf8Encode,
      List.data_toByteArray]
  rw [hbytes]
  induction source.toList with
  | nil => rw [List.flatMap_nil, draws, List.map_nil]
  | cons c cs ih => rw [List.flatMap_cons, draws_encoded, ih, List.map_cons]

end Scriptlet.Utf8
