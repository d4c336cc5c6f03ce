import Breadboard.Proofs.Word

/-!
# Conversions by shifts and masks

A number is a machine word of 64 bits in two's complement, and a machine converts it by shifts and
masks. A signed field is shifted to the top of the word, so that its highest bit becomes the sign,
and back with copies of the sign; an unsigned field is cut out by a mask. The bytes of a field are
shifted down to the low end one by one, and they are read by shifting the number up and putting the
next byte below it. `computes` says that on every word these operations give what the conversions of
`Word` give for its number, and `toInt_ofBytes` that all bytes are read alike.
-/

namespace Breadboard.Word64

/-! ## The operations -/

/-- The low `width` bytes of the word as a signed number. -/
def signed (x : BitVec 64) (width : Nat) : BitVec 64 :=
  if width = 0 then 0
  else if 8 ≤ width then x
  else (x <<< (64 - 8 * width)).sshiftRight (64 - 8 * width)

/-- The low `width` bytes of the word as an unsigned number. -/
def unsigned (x : BitVec 64) (width : Nat) : BitVec 64 :=
  if width = 0 then 0
  else if 8 ≤ width then x
  else x &&& ((1#64 <<< (8 * width)) - 1#64)

/-- Every bit complemented, as an unsigned number of `width` bytes. -/
def onesComplement (x : BitVec 64) (width : Nat) : BitVec 64 := unsigned (~~~x) width

/-- The negation, which wraps around, as a signed number of `width` bytes. -/
def twosComplement (x : BitVec 64) (width : Nat) : BitVec 64 := signed (-x) width

/-- Whether a signed field of `width` bytes leaves the word as it is. -/
def fitsSigned (x : BitVec 64) (width : Nat) : Bool := signed x width == x

/-- The word shifted down by `count` bits with copies of its sign. No shift by 64 bits or more is
made; nothing but the sign is left then. -/
def shiftDown (x : BitVec 64) (count : Nat) : BitVec 64 :=
  if count < 64 then x.sshiftRight count
  else if x.slt 0 then -1
  else 0

/-- The byte with `index` bytes below it. -/
def byteAt (x : BitVec 64) (index : Nat) : UInt8 :=
  .ofBitVec ((shiftDown x (8 * index) &&& 0xFF).setWidth 8)

/-- The low `width` bytes of the word, most significant first. -/
def toBytes (x : BitVec 64) (width : Nat) : List UInt8 :=
  (List.range width).reverse.map (byteAt x)

/-- The word that `bytes` leave when they are shifted in one after the other. -/
def ofBytes (bytes : List UInt8) : BitVec 64 :=
  bytes.foldl (fun acc b => (acc <<< 8) ||| b.toBitVec.setWidth 64) 0

/-- The bits of an unsigned field of `width` bytes in base sixteen. -/
def hex (x : BitVec 64) (width : Nat) : String :=
  if width = 0 then ""
  else String.ofList (Text.padded (2 * min width 8) (Text.hexDigits (unsigned x width).toNat))

/-! ## Words and numbers -/

/-- What a word holds modulo a power of two up to its size does not depend on the sign. -/
theorem toInt_emod (x : BitVec 64) {n : Nat} (hn : n ≤ 64) :
    x.toInt % 2 ^ n = (x.toNat : Int) % 2 ^ n := by
  have hdvd : (2 : Int) ^ n ∣ ((2 ^ 64 : Nat) : Int) := by
    push_cast
    exact pow_dvd_pow 2 hn
  rw [BitVec.toInt_eq_toNat_bmod, ← Int.emod_emod_of_dvd _ hdvd, Int.bmod_emod,
    Int.emod_emod_of_dvd _ hdvd]

theorem toInt_ofInt {v : Int} (hv : Word.inRange v = true) : (BitVec.ofInt 64 v).toInt = v := by
  rw [BitVec.toInt_ofInt]
  exact Word.wrap_eq_self_iff.2 hv

/-- The number of the complement. -/
theorem toInt_not (x : BitVec 64) : (~~~x).toInt = -x.toInt - 1 := by
  rw [BitVec.toInt_eq_toNat_cond, BitVec.toInt_eq_toNat_cond, BitVec.toNat_not]
  have hlt := x.isLt
  split <;> split <;> omega

/-! ## Fields -/

/-- The mask of the `n` lowest bits. -/
theorem toNat_mask {n : Nat} (hn : n < 64) : ((1#64 <<< n) - 1#64).toNat = 2 ^ n - 1 := by
  have hlt : 2 ^ n < 2 ^ 64 := Nat.pow_lt_pow_right (by decide) hn
  have hpos := Nat.two_pow_pos n
  have hone : (1#64).toNat = 1 := rfl
  rw [BitVec.toNat_sub, BitVec.toNat_shiftLeft, hone, Nat.one_shiftLeft]
  omega

/-- Shifting a field up and back extends its sign. -/
theorem sshiftRight_shiftLeft (x : BitVec 64) {n : Nat} (hpos : 0 < n) (hn : n ≤ 64) :
    (x <<< (64 - n)).sshiftRight (64 - n) = (x.setWidth n).signExtend 64 := by
  apply BitVec.eq_of_getLsbD_eq
  intro i hi
  rw [BitVec.getLsbD_sshiftRight, BitVec.getLsbD_signExtend, BitVec.msb_eq_getLsbD_last,
    BitVec.msb_eq_getLsbD_last, BitVec.getLsbD_shiftLeft, BitVec.getLsbD_shiftLeft,
    BitVec.getLsbD_setWidth, BitVec.getLsbD_setWidth]
  rcases Nat.lt_or_ge i n with hlow | hhigh
  · have hback : 64 - n + i - (64 - n) = i := by omega
    have hinside : 64 - n + i < 64 := by omega
    simp [hi, hlow, hback, hinside]
  · -- above the field both have its highest bit
    have hoff : ¬ 64 - n + i < 64 := by omega
    have hback : 64 - 1 - (64 - n) = n - 1 := by omega
    have hinside : ¬ 64 - 1 < 64 - n := by omega
    simp [hi, Nat.not_lt.2 hhigh, hoff, hback, hinside, hpos]

theorem toInt_signed (x : BitVec 64) (w : Nat) :
    (signed x w).toInt = Word.signed x.toInt w := by
  rw [signed, Word.signed]
  split
  next hzero =>
    subst hzero
    exact (Int.bmod_one _).symm
  next hpos =>
    split
    next hwide => rw [if_neg (by omega)]
    next hnarrow =>
      have hn : 8 * w ≤ 64 := by omega
      have hlow : (x.toNat : Int) % Word.modulus w = x.toInt % Word.modulus w := by
        rw [Word.natCast_modulus, toInt_emod x hn]
      have hmodulus : 2 ^ (8 * w) = Word.modulus w := (Word.modulus_eq_weight w).symm
      rw [if_pos (by omega), sshiftRight_shiftLeft x (by omega) hn,
        BitVec.toInt_signExtend_of_le hn, BitVec.toInt_setWidth, hmodulus, ← Int.emod_bmod, hlow,
        Int.emod_bmod]

theorem toInt_unsigned (x : BitVec 64) (w : Nat) :
    (unsigned x w).toInt = Word.unsigned x.toInt w := by
  rw [unsigned, Word.unsigned]
  split
  next hzero =>
    subst hzero
    exact (Int.emod_one _).symm
  next hpos =>
    split
    next hwide => rw [if_neg (by omega)]
    next hnarrow =>
      have hn : 8 * w < 64 := by omega
      have hbits : (x &&& ((1#64 <<< (8 * w)) - 1#64)).toNat = x.toNat % 2 ^ (8 * w) := by
        rw [BitVec.toNat_and, toNat_mask hn, Nat.and_two_pow_sub_one_eq_mod]
      have hlt : x.toNat % 2 ^ (8 * w) < 2 ^ (8 * w) := Nat.mod_lt _ (Nat.two_pow_pos _)
      have hsize : 2 ^ (8 * w) ≤ 2 ^ 63 := Nat.pow_le_pow_right (by decide) (by omega)
      rw [if_pos (by omega), BitVec.toInt_eq_toNat_of_lt (by omega), hbits, Int.natCast_emod,
        Word.natCast_modulus]
      push_cast
      exact (toInt_emod x (by omega)).symm

theorem toInt_onesComplement (x : BitVec 64) (w : Nat) :
    (onesComplement x w).toInt = Word.onesComplement x.toInt w := by
  rw [onesComplement, toInt_unsigned, toInt_not, Word.onesComplement]

theorem toInt_twosComplement (x : BitVec 64) (w : Nat) :
    (twosComplement x w).toInt = Word.twosComplement x.toInt w := by
  rw [twosComplement, toInt_signed, BitVec.toInt_neg, Word.twosComplement]
  rfl

theorem fitsSigned_eq (x : BitVec 64) (w : Nat) : fitsSigned x w = Word.fitsSigned x.toInt w := by
  rw [fitsSigned, Word.fitsSigned, ← toInt_signed, Bool.eq_iff_iff, beq_iff_eq, beq_iff_eq,
    BitVec.toInt_inj]

/-! ## Bytes -/

theorem toInt_shiftDown (x : BitVec 64) (n : Nat) : (shiftDown x n).toInt = x.toInt / 2 ^ n := by
  have hlow := BitVec.le_toInt x
  have hhigh := x.toInt_lt
  rw [shiftDown]
  split
  next hn =>
    rw [BitVec.toInt_sshiftRight, Int.shiftRight_eq_div_pow]
    norm_cast
  next hn =>
    have hsize : (2 : Int) ^ 64 ≤ 2 ^ n := pow_le_pow_right₀ (by decide) (by omega)
    split
    next hneg =>
      have hneg : x.toInt < 0 := BitVec.slt_iff_toInt_lt.1 hneg
      exact (Int.ediv_eq_neg_one_of_neg_of_le hneg (by omega)).symm
    next hpos =>
      have hpos : ¬ x.toInt < 0 := fun h => hpos (BitVec.slt_iff_toInt_lt.2 h)
      exact (Int.ediv_eq_zero_of_lt (by omega) (by omega)).symm

theorem byteAt_eq (x : BitVec 64) (i : Nat) :
    byteAt x i = .ofNat (x.toInt / Word.modulus i % 256).toNat := by
  have hlow : (shiftDown x (8 * i)).toInt % 2 ^ 8 = ((shiftDown x (8 * i)).toNat : Int) % 2 ^ 8 :=
    toInt_emod _ (by decide)
  have hmask : (shiftDown x (8 * i) &&& 0xFF).toNat = (shiftDown x (8 * i)).toNat % 2 ^ 8 := by
    rw [BitVec.toNat_and]
    exact Nat.and_two_pow_sub_one_eq_mod _ 8
  rw [toInt_shiftDown] at hlow
  apply UInt8.toNat_inj.1
  rw [byteAt, UInt8.toNat_ofBitVec, BitVec.toNat_setWidth, hmask, UInt8.toNat_ofNat',
    Word.natCast_modulus]
  omega

theorem toBytes_eq (x : BitVec 64) (w : Nat) : toBytes x w = Word.toBytes x.toInt w := by
  apply List.ext_getElem
  · simp [toBytes]
  · intro k _ hk
    rw [Word.getElem_toBytes, ← byteAt_eq]
    simp [toBytes]

/-- The word that bytes leave is their number up to multiples of the size of a word. -/
theorem toNat_ofBytes (bytes : List UInt8) :
    (ofBytes bytes).toNat = Word.natOfBytes bytes % 2 ^ 64 := by
  induction bytes using List.reverseRecOn with
  | nil => rfl
  | append_singleton front b ih =>
    have hb := b.toNat_lt
    have hstep : ofBytes (front ++ [b]) = ofBytes front <<< 8 ||| b.toBitVec.setWidth 64 := by
      rw [ofBytes, List.foldl_append]
      rfl
    have hbyte : (b.toBitVec.setWidth 64).toNat = b.toNat := by
      rw [BitVec.toNat_setWidth]
      exact Nat.mod_eq_of_lt (by omega)
    have hup : (ofBytes front).toNat <<< 8 % 2 ^ 64 =
        (Word.natOfBytes front % 2 ^ 56) <<< 8 := by
      rw [ih, Nat.shiftLeft_eq, Nat.shiftLeft_eq]
      omega
    -- the next byte lies below the bits that were shifted up
    rw [hstep, BitVec.toNat_or, BitVec.toNat_shiftLeft, hbyte, hup,
      ← Nat.shiftLeft_add_eq_or_of_lt (by omega), Nat.shiftLeft_eq, Word.natOfBytes_append_singleton]
    omega

/-- All bytes are read alike. -/
theorem toInt_ofBytes (bytes : List UInt8) : (ofBytes bytes).toInt = Word.ofBytes bytes := by
  rw [BitVec.toInt_eq_toNat_bmod, toNat_ofBytes, Int.natCast_emod, Int.emod_bmod]
  rfl

/-! ## The operations together -/

/-- A word is written in base sixteen without a sign. -/
theorem toInt_emod_modulus (x : BitVec 64) : (x.toInt % Word.modulus 8).toNat = x.toNat := by
  have hlt := x.isLt
  rw [Word.natCast_modulus, toInt_emod x (Nat.le_refl 64)]
  omega

theorem hex_eq (x : BitVec 64) (w : Nat) : hex x w = Word.hex x.toInt w := by
  rw [hex, Word.hex, ← toInt_unsigned, toInt_emod_modulus]

/-- With a width of `w` bytes, each operation on the word gives the conversion of the number `v`. -/
structure Computes (x : BitVec 64) (v : Int) (w : Nat) : Prop where
  unsigned : (unsigned x w).toInt = Word.unsigned v w
  signed : (signed x w).toInt = Word.signed v w
  fitsSigned : fitsSigned x w = Word.fitsSigned v w
  onesComplement : (onesComplement x w).toInt = Word.onesComplement v w
  twosComplement : (twosComplement x w).toInt = Word.twosComplement v w
  bytes : toBytes x w = Word.toBytes v w
  hex : hex x w = Word.hex v w

/-- On every word the operations give the conversions of its number. -/
theorem computes (x : BitVec 64) (w : Nat) : Computes x x.toInt w where
  unsigned := toInt_unsigned x w
  signed := toInt_signed x w
  fitsSigned := fitsSigned_eq x w
  onesComplement := toInt_onesComplement x w
  twosComplement := toInt_twosComplement x w
  bytes := toBytes_eq x w
  hex := hex_eq x w

end Breadboard.Word64
