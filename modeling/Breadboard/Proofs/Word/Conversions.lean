import Breadboard.Proofs.Text.Hex
import Breadboard.Proofs.Word.Shifts
import Mathlib.Data.Int.ModEq
import Mathlib.Order.Interval.Set.Defs

/-!
# Fields as representatives

A field of `w` bytes holds a number modulo `2 ^ (8 * w)`, and both readings of a field choose a
representative: the unsigned one from the numbers that start at zero, the signed one from those that
start at minus half the size of the field (`eq_unsigned_iff`, `eq_signed_iff`). Bytes and numbers
determine each other: what is stored is read back (`ofBytes_toBytes_of_inRange`), and the lowest
bytes of the number that bytes write are the last of those bytes (`toBytes_ofBytes`). The main
statement puts this together for every number and every width, and says it of the shifts and masks
of a machine word too (`conversions_exact`).
-/

namespace Breadboard.Word

/-! ## Representatives -/

/-- The size of a field is twice the weight of its highest bit. -/
theorem two_pow_eq {w : Nat} (hpos : 1 ≤ w) :
    (2 : Int) ^ (8 * w) = 2 * 2 ^ (8 * w - 1) := by
  rw [← pow_succ']
  congr 1
  omega

/-- Among as many neighbouring numbers as the modulus says, only one agrees with `v`. -/
theorem eq_iff_of_modEq {low high n v x : Int} (hsize : high - low ≤ n)
    (hmem : x ∈ Set.Ico low high) (hmod : x ≡ v [ZMOD n]) (u : Int) :
    u = x ↔ u ∈ Set.Ico low high ∧ u ≡ v [ZMOD n] := by
  constructor
  · rintro rfl
    exact ⟨hmem, hmod⟩
  · rintro ⟨⟨hlow, hhigh⟩, hu⟩
    obtain ⟨hlow', hhigh'⟩ := hmem
    -- the distances from the low end are remainders
    have hdistance : (u - low) % n = (x - low) % n := (hu.trans hmod.symm).sub_right low
    rw [Int.emod_eq_of_lt (by omega) (by omega), Int.emod_eq_of_lt (by omega) (by omega)]
      at hdistance
    omega

theorem unsigned_modEq (v : Int) {w : Nat} (hw : w < 8) :
    unsigned v w ≡ v [ZMOD 2 ^ (8 * w)] := by
  rw [unsigned, if_pos hw, ← natCast_modulus]
  exact Int.mod_modEq v (modulus w)

/-- The signed reading agrees with the number modulo the size of the field, and beyond eight bytes
it is the number. -/
theorem signed_modEq (v : Int) (w : Nat) : signed v w ≡ v [ZMOD 2 ^ (8 * min w 8)] := by
  rcases Nat.lt_or_ge w 8 with hlt | hge
  · rw [signed, if_pos hlt, Nat.min_eq_left (by omega), ← natCast_modulus]
    exact Int.bmod_emod
  · rw [signed, if_neg (by omega)]

theorem wrap_modEq (v : Int) {w : Nat} (hw : w ≤ 8) : wrap v ≡ v [ZMOD 2 ^ (8 * w)] := by
  have hwrap : wrap v ≡ v [ZMOD 2 ^ (8 * 8)] := by
    rw [wrap, ← natCast_modulus]
    exact Int.bmod_emod
  exact hwrap.of_dvd (pow_dvd_pow 2 (by omega))

/-- The unsigned reading is the representative from zero on. -/
theorem eq_unsigned_iff (u v : Int) {w : Nat} (hw : w < 8) :
    u = unsigned v w ↔ u ∈ Set.Ico 0 (2 ^ (8 * w)) ∧ u ≡ v [ZMOD 2 ^ (8 * w)] := by
  have hlt := unsigned_lt v hw
  rw [natCast_modulus] at hlt
  exact eq_iff_of_modEq (by omega) ⟨unsigned_nonneg v hw, hlt⟩ (unsigned_modEq v hw) u

/-- A signed field of at least one byte keeps the numbers around zero. -/
theorem fitsSigned_iff_mem {v : Int} {w : Nat} (hpos : 1 ≤ w) (hw : w < 8) :
    fitsSigned v w = true ↔ v ∈ Set.Ico (-2 ^ (8 * w - 1)) (2 ^ (8 * w - 1)) := by
  rw [fitsSigned_eq_true_iff_weight hpos hw, weight, Nat.pow_eq, Nat.cast_pow, Set.mem_Ico]
  rfl

/-- The signed reading is the representative around zero. -/
theorem eq_signed_iff (s v : Int) {w : Nat} (hpos : 1 ≤ w) (hw : w < 8) :
    s = signed v w ↔
      s ∈ Set.Ico (-2 ^ (8 * w - 1)) (2 ^ (8 * w - 1)) ∧ s ≡ v [ZMOD 2 ^ (8 * w)] := by
  have hsize := two_pow_eq hpos
  have hfits : fitsSigned (signed v w) w = true := beq_iff_eq.2 (fit_fit .signed v w)
  have hmod := signed_modEq v w
  rw [Nat.min_eq_left (by omega)] at hmod
  exact eq_iff_of_modEq (by omega) ((fitsSigned_iff_mem hpos hw).1 hfits) hmod s

/-! ## Complements -/

/-- A number and its complement fill the field with ones. -/
theorem onesComplement_add_unsigned (v : Int) {w : Nat} (hw : w < 8) :
    onesComplement v w + unsigned v w = 2 ^ (8 * w) - 1 := by
  have hnonneg := unsigned_nonneg v hw
  have hlt := unsigned_lt v hw
  rw [natCast_modulus] at hlt
  have hcomplement : 2 ^ (8 * w) - 1 - unsigned v w = onesComplement v w := by
    apply (eq_unsigned_iff _ _ hw).2
    refine ⟨⟨by omega, by omega⟩, ?_⟩
    -- what is left of the size of the field is a multiple of it
    have hmod := (unsigned_modEq v hw).neg.sub_right 1
    calc 2 ^ (8 * w) - 1 - unsigned v w = -unsigned v w - 1 + 2 ^ (8 * w) := by ring
      _ ≡ -unsigned v w - 1 [ZMOD 2 ^ (8 * w)] := Int.add_modEq_right
      _ ≡ -v - 1 [ZMOD 2 ^ (8 * w)] := hmod
  omega

/-- The complement of two negates, up to multiples of the size of the field. -/
theorem twosComplement_modEq (v : Int) (w : Nat) :
    twosComplement v w ≡ -v [ZMOD 2 ^ (8 * min w 8)] :=
  (signed_modEq _ w).trans (wrap_modEq _ (Nat.min_le_right w 8))

/-! ## Bytes -/

/-- What was stored is read back as the unsigned reading of the field. -/
theorem ofBytes_toBytes_of_inRange {v : Int} (hv : inRange v = true) (w : Nat) :
    ofBytes (toBytes v w) = unsigned v w := by
  rcases Nat.lt_or_ge w 8 with hlt | hge
  · exact ofBytes_toBytes v hlt
  · rw [ofBytes, natOfBytes_toBytes, wrap_emod hge, wrap_eq_self_iff.2 hv, unsigned,
      if_neg (by omega)]

/-- The low bytes of a number do not depend on what lies above them. -/
theorem toBytes_add_mul (v k : Int) (w : Nat) : toBytes (v + k * modulus w) w = toBytes v w := by
  induction w generalizing v with
  | zero => rfl
  | succ w ih =>
    have hsum : v + k * modulus (w + 1) = v + k * modulus w * 256 := by
      rw [modulus_succ, Nat.cast_mul, mul_assoc]
      rfl
    rw [toBytes_succ, toBytes_succ, hsum, Int.add_mul_ediv_right _ _ (by decide),
      Int.add_mul_emod_self_right, ih]

theorem toBytes_wrap (v : Int) {w : Nat} (hw : w ≤ 8) : toBytes (wrap v) w = toBytes v w := by
  obtain ⟨k, hk⟩ := (Int.modEq_iff_dvd.1 (wrap_modEq v hw).symm)
  rw [← toBytes_add_mul v k, natCast_modulus]
  congr 1
  rw [← mul_comm (2 ^ (8 * w)), ← hk]
  ring

/-- The low bytes of the number that bytes write are the last of them. -/
theorem toBytes_natOfBytes {bytes : List UInt8} {k : Nat} (hk : k ≤ bytes.length) :
    toBytes (natOfBytes bytes) k = bytes.drop (bytes.length - k) := by
  induction k generalizing bytes with
  | zero => simp [toBytes, toBytesOnto]
  | succ k ih =>
    -- the lowest byte is the last one, and the others write the quotient
    cases bytes using List.reverseRecOn with
    | nil => simp at hk
    | append_singleton front b =>
      rw [List.length_append, List.length_singleton] at hk
      have hb := b.toNat_lt
      have hquot : ((natOfBytes front * 256 + b.toNat : Nat) : Int) / 256 = natOfBytes front := by
        omega
      have hrest : (((natOfBytes front * 256 + b.toNat : Nat) : Int) % 256).toNat = b.toNat := by
        omega
      rw [natOfBytes_append_singleton, toBytes_succ, hquot, hrest, UInt8.ofNat_toNat,
        ih (by omega), List.length_append, List.length_singleton, Nat.add_sub_add_right,
        List.drop_append_of_le_length (by omega)]

/-- At most eight low bytes of the number that was read are the last bytes read. -/
theorem toBytes_ofBytes {bytes : List UInt8} {k : Nat} (hk : k ≤ bytes.length) (hk8 : k ≤ 8) :
    toBytes (ofBytes bytes) k = bytes.drop (bytes.length - k) := by
  rw [ofBytes, toBytes_wrap _ hk8, toBytes_natOfBytes hk]

/-- A reading of at most eight bytes in two's complement is in the range of numbers. -/
theorem inRange_bmod (v : Int) {w : Nat} (hw : w ≤ 8) : inRange (v.bmod (modulus w)) = true := by
  have hpos := modulus_pos w
  have hsize : modulus w ≤ modulus 8 := modulus_mono hw
  have h8 : modulus 8 = 18446744073709551616 := rfl
  have hle := Int.le_bmod (x := v) hpos
  have hlt := Int.bmod_lt (x := v) hpos
  rw [inRange, least, greatest, Bool.and_eq_true, decide_eq_true_eq, decide_eq_true_eq]
  omega

/-- The signed reading of any bytes is the number that they write in two's complement, cut off to
the range of numbers. -/
theorem signed_ofBytes_eq_wrap (bytes : List UInt8) :
    signed (ofBytes bytes) bytes.length =
      wrap ((natOfBytes bytes : Int).bmod (modulus bytes.length)) := by
  rcases Nat.lt_or_ge 8 bytes.length with hlong | hshort
  · have hdvd : modulus 8 ∣ modulus bytes.length := Nat.pow_dvd_pow 256 (by omega)
    rw [signed, if_neg (by omega), ofBytes, wrap, wrap, Int.bmod_bmod_of_dvd hdvd]
  · rw [signed_ofBytes hshort, wrap_eq_self_iff.2 (inRange_bmod _ hshort)]

/-! ## The conversions together -/

/-- Each conversion of a number in range is given by the number modulo the size of the field, and
bytes and numbers are converted without loss. Shifts and masks on the word that holds the number
compute the same conversions, and any bytes shifted into a word are read as their number. -/
theorem conversions_exact {v : Int} (hv : inRange v = true) (w : Nat) :
    (w = 0 → unsigned v w = 0 ∧ signed v w = 0 ∧ (fitsSigned v w = true ↔ v = 0)) ∧
      (1 ≤ w → w ≤ 7 →
        (∀ u, u = unsigned v w ↔ u ∈ Set.Ico 0 (2 ^ (8 * w)) ∧ u ≡ v [ZMOD 2 ^ (8 * w)]) ∧
        (∀ s, s = signed v w ↔
          s ∈ Set.Ico (-2 ^ (8 * w - 1)) (2 ^ (8 * w - 1)) ∧ s ≡ v [ZMOD 2 ^ (8 * w)]) ∧
        (fitsSigned v w = true ↔ v ∈ Set.Ico (-2 ^ (8 * w - 1)) (2 ^ (8 * w - 1))) ∧
        onesComplement v w + unsigned v w = 2 ^ (8 * w) - 1) ∧
      (8 ≤ w → unsigned v w = v ∧ signed v w = v ∧ fitsSigned v w = true) ∧
      twosComplement v w ≡ -v [ZMOD 2 ^ (8 * min w 8)] ∧
      ofBytes (toBytes v w) = unsigned v w ∧
      (∀ bytes : List UInt8, bytes.length ≤ 8 → toBytes (ofBytes bytes) bytes.length = bytes) ∧
      (w ≤ 8 → (hex v w).toList = (toBytes v w).flatMap Text.hexByte) ∧
      ((BitVec.ofInt 64 v).toInt = v ∧ Word64.Computes (BitVec.ofInt 64 v) v w) ∧
      ∀ bytes : List UInt8, (Word64.ofBytes bytes).toInt = ofBytes bytes := by
  refine ⟨?_, ?_, ?_, twosComplement_modEq v w, ofBytes_toBytes_of_inRange hv w, ?_, ?_, ?_,
    Word64.toInt_ofBytes⟩
  · rintro rfl
    have hsigned : signed v 0 = 0 := Int.bmod_one v
    refine ⟨Int.emod_one v, hsigned, ?_⟩
    rw [fitsSigned, hsigned, beq_iff_eq, eq_comm]
  · intro hpos hle
    have hw : w < 8 := by omega
    exact ⟨fun u => eq_unsigned_iff u v hw, fun s => eq_signed_iff s v hpos hw,
      fitsSigned_iff_mem hpos hw, onesComplement_add_unsigned v hw⟩
  · intro hge
    have hsigned : signed v w = v := if_neg (by omega)
    refine ⟨if_neg (by omega), hsigned, ?_⟩
    rw [fitsSigned, hsigned, beq_self_eq_true]
  · intro bytes hbytes
    rw [toBytes_ofBytes (Nat.le_refl _) hbytes, Nat.sub_self, List.drop_zero]
  · intro hle
    rw [toList_hex_eq_flatMap, Nat.min_eq_left hle]
  · have hword := Word64.toInt_ofInt hv
    have hcomputes := Word64.computes (BitVec.ofInt 64 v) w
    rw [hword] at hcomputes
    exact ⟨hword, hcomputes⟩

/-- The least number has no negation in range, its highest bits are lost in seven bytes, and its
word is shifted out to nine bytes and in again. -/
theorem conversions_exact_least :
    inRange least = true ∧ twosComplement least 8 = least ∧
      least ≡ -least [ZMOD 2 ^ (8 * min 8 8)] ∧ ofBytes (toBytes least 9) = least ∧
      onesComplement least 7 + unsigned least 7 = 2 ^ (8 * 7) - 1 ∧
      (Word64.ofBytes (Word64.toBytes (BitVec.ofInt 64 least) 9)).toInt = least := by
  have hrange : inRange least = true := by decide
  obtain ⟨-, hnarrow, -⟩ := conversions_exact hrange 7
  obtain ⟨-, -, -, hnegation, -⟩ := conversions_exact hrange 8
  obtain ⟨-, -, hwide, -, hread, -, -, ⟨-, hcomputes⟩, hshifted⟩ := conversions_exact hrange 9
  have htwos : twosComplement least 8 = least := by decide
  rw [htwos] at hnegation
  have hback : ofBytes (toBytes least 9) = least := hread.trans (hwide (by decide)).1
  refine ⟨hrange, htwos, hnegation, hback, (hnarrow (by decide) (by decide)).2.2.2, ?_⟩
  rw [hcomputes.bytes, hshifted, hback]

end Breadboard.Word
