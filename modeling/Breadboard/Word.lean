import Breadboard.Text.Digits

/-!
# Fixed-width fields

Registers, operands and memory cells hold integers in fields of a given number of bytes. A field of
width `w < 8` holds a number modulo `modulus w`, read either as signed or as unsigned; in particular
a field of width zero holds nothing but `0`. Numbers themselves are 64-bit two's complement, so a
width of eight bytes or more leaves a number as it is. Multi-byte fields are stored most significant
byte first, and `toBytes_succ` says so: the last byte of a field is its lowest.

The conversions are defined by the number that they give. A machine gets it by shifts and masks on a
word of 64 bits, which come to the same (`Word64.computes`, `Word64.toInt_ofBytes`).
-/

namespace Breadboard.Word

/-- How many different numbers a field of `width` bytes can hold: 256 to the power of `width`. -/
def modulus (width : Nat) : Nat := Nat.pow 256 width

/-- What the bit at `rank` is worth: 2 to the power of `rank`. -/
def weight (rank : Nat) : Nat := Nat.pow 2 rank

/-- The least number. -/
def least : Int := -9223372036854775808

/-- The greatest number. -/
def greatest : Int := 9223372036854775807

/-- Whether `v` lies in the range of numbers. -/
def inRange (v : Int) : Bool :=
  least ≤ v && v ≤ greatest

/-- The number congruent to `v` modulo the size of the range of numbers. -/
def wrap (v : Int) : Int :=
  v.bmod (modulus 8)

/-- The low `width` bytes of `v` read as a signed number. -/
def signed (v : Int) (width : Nat) : Int :=
  if width < 8 then v.bmod (modulus width) else v

/-- The low `width` bytes of `v` read as an unsigned number. -/
def unsigned (v : Int) (width : Nat) : Int :=
  if width < 8 then v % modulus width else v

/-- The complement of every bit of `v`, in an unsigned field of `width` bytes. -/
def onesComplement (v : Int) (width : Nat) : Int :=
  unsigned (-v - 1) width

/-- The negation of `v`, in a signed field of `width` bytes. -/
def twosComplement (v : Int) (width : Nat) : Int :=
  signed (wrap (-v)) width

/-- Whether `v` is unchanged by a signed field of `width` bytes. -/
def fitsSigned (v : Int) (width : Nat) : Bool :=
  signed v width == v

/-- Whether `v` is unchanged by an unsigned field of `width` bytes. -/
def fitsUnsigned (v : Int) (width : Nat) : Bool :=
  unsigned v width == v

/-- The bytes of `v` from the low end, in front of `acc` in reverse: the low `width` bytes of `v`,
most significant first, followed by `acc`. -/
def toBytesOnto (v : Int) : Nat → List UInt8 → List UInt8
  | 0, acc => acc
  | width + 1, acc => toBytesOnto (v / 256) width (UInt8.ofNat (v % 256).toNat :: acc)

/-- The low `width` bytes of `v`, most significant first. Bytes beyond the eighth repeat the
sign. -/
def toBytes (v : Int) (width : Nat) : List UInt8 :=
  toBytesOnto v width []

/-- The unbounded unsigned number that `bytes` write, most significant first. -/
def natOfBytes (bytes : List UInt8) : Nat :=
  bytes.foldl (fun n b => n * 256 + b.toNat) 0

/-- The number that `bytes` write, most significant first; beyond eight bytes only the last eight
count. -/
def ofBytes (bytes : List UInt8) : Int :=
  wrap (natOfBytes bytes)

/-- Two upper-case hexadecimal digits for each byte of a field of `width` bytes, up to eight
bytes. -/
def hex (v : Int) (width : Nat) : String :=
  if width = 0 then ""
  else
    String.ofList
      (Text.padded (2 * min width 8) (Text.hexDigits (unsigned v width % modulus 8).toNat))

/-- A signed field of `width` bytes in base ten. -/
def decimal (v : Int) (width : Nat) : String :=
  String.ofList (Text.decimalInt (signed v width))

/-- The bit of `v` at `rank` in two's complement; there is none beyond the 64th. -/
def bit (v : Int) (rank : Nat) : Bool :=
  rank < 64 && v / weight rank % 2 == 1

/-- The number `v` with the bit at `rank` set to `on`, and `v` itself beyond the 64th bit. -/
def withBit (v : Int) (rank : Nat) (on : Bool) : Int :=
  if 64 ≤ rank || bit v rank == on then v
  else if on then wrap (v + weight rank)
  else wrap (v - weight rank)

/-- One more byte makes room for 256 times as many numbers. -/
theorem modulus_succ (width : Nat) : modulus (width + 1) = modulus width * 256 := rfl

theorem modulus_pos (width : Nat) : 0 < modulus width := Nat.pow_pos (by decide)

theorem toBytesOnto_eq (v : Int) (width : Nat) (acc : List UInt8) :
    toBytesOnto v width acc = toBytes v width ++ acc := by
  induction width generalizing v acc with
  | zero => rfl
  | succ width ih =>
    rw [toBytes, toBytesOnto, toBytesOnto, ih, ih (v / 256) [_]]
    simp

/-- A field is the higher bytes followed by the lowest one. -/
theorem toBytes_succ (v : Int) (width : Nat) :
    toBytes v (width + 1) = toBytes (v / 256) width ++ [UInt8.ofNat (v % 256).toNat] := by
  rw [toBytes, toBytesOnto, toBytesOnto_eq]

@[simp] theorem length_toBytes (v : Int) (width : Nat) : (toBytes v width).length = width := by
  induction width generalizing v with
  | zero => rfl
  | succ width ih => rw [toBytes_succ]; simp [ih]

theorem natOfBytes_append_singleton (bytes : List UInt8) (b : UInt8) :
    natOfBytes (bytes ++ [b]) = natOfBytes bytes * 256 + b.toNat := by
  simp [natOfBytes]

end Breadboard.Word
