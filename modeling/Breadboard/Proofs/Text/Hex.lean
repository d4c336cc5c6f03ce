import Breadboard.Proofs.Text.Digits
import Breadboard.Proofs.Word

/-!
# Numbers written in base sixteen

The digits of a number read back as the number (`valueFrom?_hexDigits`), zeros in front of them do
not matter (`value?_padded`), and they are hexadecimal digits (`isHexDigit_of_mem_padded`). A field
of one to seven bytes is therefore written with two digits for each byte (`length_hexChars`). Byte
by byte, a field of at most eight bytes is written as the two digits of each of its bytes
(`Word.toList_hex_eq_flatMap`). Conversely any digits read as the number that they denote
(`value?_of_isHexDigit`), and no more than two for each byte write a number that fits the field
(`lt_modulus_of_value?`).
-/

namespace Breadboard

namespace Text

/-! ## Digits -/

/-- The digit that stands for `d`, which is less than sixteen. -/
def hexDigit (d : Nat) : Char := "0123456789ABCDEF".toList.getD d '0'

/-- A byte is written as two digits, its high half first. -/
def hexByte (b : UInt8) : List Char := [hexDigit (b.toNat / 16), hexDigit (b.toNat % 16)]

theorem hexDigit_ne_blank : ∀ d < 16, hexDigit d ≠ ' ' := by decide

theorem blank_not_mem_hexByte (b : UInt8) : ' ' ∉ hexByte b := by
  have hb := b.toNat_lt
  have hhigh := hexDigit_ne_blank (b.toNat / 16) (by omega)
  have hlow := hexDigit_ne_blank (b.toNat % 16) (by omega)
  simp [hexByte, hhigh.symm, hlow.symm]

theorem length_flatMap_hexByte (bytes : List UInt8) :
    (bytes.flatMap hexByte).length = 2 * bytes.length := by
  induction bytes with
  | nil => rfl
  | cons b bytes ih =>
    rw [List.flatMap_cons, List.length_append, ih, List.length_cons, Nat.mul_succ, Nat.add_comm]
    rfl

theorem toUpper_digitChar : ∀ d < 16, (Nat.digitChar d).toUpper = hexDigit d := by decide

theorem digitValue?_digitChar :
    ∀ d < 16, digitValue? 16 (Nat.digitChar d).toUpper = some d := by
  decide

theorem digitValue?_zero : digitValue? 16 '0' = some 0 := by decide

/-- A number of one digit is written as that digit. -/
theorem hexDigits_of_lt {n : Nat} (h : n < 16) : hexDigits n = [hexDigit n] := by
  rw [hexDigits, Nat.toDigits_of_lt_base h, List.map_singleton, toUpper_digitChar n h]

/-- A longer number is written as its quotient by sixteen and its last digit. -/
theorem hexDigits_of_le {n : Nat} (h : 16 ≤ n) :
    hexDigits n = hexDigits (n / 16) ++ [hexDigit (n % 16)] := by
  rw [hexDigits, hexDigits, Nat.toDigits_of_base_le (by decide) h, List.map_append,
    List.map_singleton, toUpper_digitChar _ (Nat.mod_lt n (by decide))]

theorem hexDigits_ne_nil (n : Nat) : hexDigits n ≠ [] := by
  rw [hexDigits, ne_eq, List.map_eq_nil_iff]
  exact Nat.toDigits_ne_nil

/-- Digits read back as the number that they write. -/
theorem valueFrom?_hexDigits (n : Nat) : valueFrom? 16 0 (hexDigits n) = some n :=
  valueFrom?_map_toDigits (by decide) digitValue?_digitChar n

/-- Zeros in front do not change the number. -/
theorem valueFrom?_replicate_zero (k : Nat) (cs : List Char) :
    valueFrom? 16 0 (List.replicate k '0' ++ cs) = valueFrom? 16 0 cs := by
  induction k with
  | zero => rfl
  | succ k ih =>
    rw [List.replicate_succ, List.cons_append, valueFrom?, digitValue?_zero, Option.bind_some]
    exact ih

/-- A padded number reads back as the number. -/
theorem value?_padded (count n : Nat) : value? 16 (padded count (hexDigits n)) = some n := by
  have hne : padded count (hexDigits n) ≠ [] := by
    rw [padded]
    exact List.append_ne_nil_of_right_ne_nil _ (hexDigits_ne_nil n)
  rw [value?, if_neg hne, padded, valueFrom?_replicate_zero, valueFrom?_hexDigits]

theorem isHexDigit_of_mem_padded {count n : Nat} {c : Char} (h : c ∈ padded count (hexDigits n)) :
    isHexDigit c = true :=
  isHexDigit_iff.2 (((value?_eq_some_iff (by decide)).1 (value?_padded count n)).2.1 c h)

/-- One more digit in front of which there is another: the quotient by sixteen is written before
it. -/
theorem padded_succ_hexDigits {count : Nat} (hcount : 0 < count) (n : Nat) :
    padded (count + 1) (hexDigits n) = padded count (hexDigits (n / 16)) ++ [hexDigit (n % 16)] := by
  rcases Nat.lt_or_ge n 16 with hlt | hge
  · -- the quotient is zero and is written as one more zero
    obtain ⟨k, rfl⟩ : ∃ k, count = k + 1 := ⟨count - 1, by omega⟩
    have hzero : hexDigit 0 = '0' := by decide
    rw [Nat.div_eq_of_lt hlt, Nat.mod_eq_of_lt hlt, hexDigits_of_lt hlt,
      hexDigits_of_lt (by decide), hzero, padded, padded, List.length_singleton,
      List.length_singleton, Nat.add_sub_cancel, Nat.add_sub_cancel, List.replicate_succ']
  · rw [hexDigits_of_le hge, padded, padded, List.length_append, List.length_singleton,
      Nat.add_sub_add_right, List.append_assoc]

/-- One more byte is written as its two digits. -/
theorem padded_hexDigits_byte {count : Nat} (hcount : 0 < count) (n : Nat) (b : UInt8) :
    padded (count + 2) (hexDigits (n * 256 + b.toNat)) =
      padded count (hexDigits n) ++ hexByte b := by
  have hb := b.toNat_lt
  have hquot : (n * 256 + b.toNat) / 16 / 16 = n := by omega
  have hhigh : (n * 256 + b.toNat) / 16 % 16 = b.toNat / 16 := by omega
  have hlow : (n * 256 + b.toNat) % 16 = b.toNat % 16 := by omega
  rw [padded_succ_hexDigits (Nat.succ_pos count), padded_succ_hexDigits hcount, hquot, hhigh, hlow,
    List.append_assoc]
  rfl

/-- A byte is two digits. -/
theorem modulus_eq_pow (w : Nat) : Word.modulus w = 16 ^ (2 * w) := by
  rw [Word.modulus, Nat.pow_eq, Nat.pow_mul]

/-- A number that fits a field of `w` bytes has at most two digits for each byte. -/
theorem length_hexDigits_le {n w : Nat} (hw : 0 < w) (h : n < Word.modulus w) :
    (hexDigits n).length ≤ 2 * w := by
  rw [hexDigits, List.length_map, Nat.length_toDigits_le_iff (by decide) (by omega),
    ← modulus_eq_pow]
  exact h

/-- The number that hexadecimal digits denote, the last of them counting ones. -/
def hexNumber (ds : List Char) : Nat := Nat.ofDigits 16 (ds.map hexDigitValue).reverse

/-- Digits read as the number that they denote. -/
theorem value?_of_isHexDigit {ds : List Char} (hne : ds ≠ [])
    (hds : ∀ d ∈ ds, isHexDigit d = true) : value? 16 ds = some (hexNumber ds) :=
  (value?_eq_some_iff (by decide)).2 ⟨hne, fun d hd => isHexDigit_iff.1 (hds d hd), rfl⟩

/-- A number that is written with at most two digits for each byte fits a field of `w` bytes. -/
theorem lt_modulus_of_value? {n w : Nat} {cs : List Char} (h : value? 16 cs = some n)
    (hlength : cs.length ≤ 2 * w) : n < Word.modulus w := by
  rw [value?] at h
  split at h
  · simp at h
  · calc n < (0 + 1) * 16 ^ cs.length := valueFrom?_lt h
      _ = 16 ^ cs.length := by rw [Nat.zero_add, Nat.one_mul]
      _ ≤ 16 ^ (2 * w) := Nat.pow_le_pow_right (by decide) hlength
      _ = Word.modulus w := (modulus_eq_pow w).symm

end Text

/-! ## Fields -/

namespace Word

/-- The digits of a field. -/
def hexChars (n w : Nat) : List Char := Text.padded (2 * w) (Text.hexDigits n)

/-- A field of one to seven bytes is written as the digits of the number in it. -/
theorem toList_hex {n w : Nat} (hpos : 0 < w) (hw : w < 8) (h : n < modulus w) :
    (hex n w).toList = hexChars n w := by
  have hsize : modulus w ≤ modulus 8 := modulus_mono (by omega)
  -- the number fits the field, so nothing is cut off
  have hvalue : unsigned n w = n := unsigned_of_lt (by omega) (by omega)
  have hmod : (n : Int) % modulus 8 = n := Int.emod_eq_of_lt (by omega) (by omega)
  have hcount : min w 8 = w := by omega
  rw [hex, if_neg (by omega), hvalue, hmod, hcount, String.toList_ofList, Int.toNat_natCast,
    hexChars]

/-- A field is written as what is in it. -/
theorem hex_unsigned (v : Int) (w : Nat) : hex (unsigned v w) w = hex v w := by
  have hfit : unsigned (unsigned v w) w = unsigned v w := fit_fit .unsigned v w
  rw [hex, hex, hfit]

/-- There are two digits for each byte. -/
theorem length_hexChars {n w : Nat} (hpos : 0 < w) (h : n < modulus w) :
    (hexChars n w).length = 2 * w := by
  have hlength := Text.length_hexDigits_le hpos h
  rw [hexChars, Text.length_padded]
  omega

theorem isHexDigit_of_mem_hexChars {n w : Nat} {c : Char} (h : c ∈ hexChars n w) :
    Text.isHexDigit c = true :=
  Text.isHexDigit_of_mem_padded h

/-- Bytes are written as the two digits of each. -/
theorem hexChars_natOfBytes {bytes : List UInt8} (hne : bytes ≠ []) :
    hexChars (natOfBytes bytes) bytes.length = bytes.flatMap Text.hexByte := by
  induction bytes using List.reverseRecOn with
  | nil => exact absurd rfl hne
  | append_singleton bytes b ih =>
    rw [hexChars, natOfBytes_append_singleton, List.length_append, List.length_singleton,
      List.flatMap_append, List.flatMap_singleton]
    rcases eq_or_ne bytes [] with rfl | hne
    · -- a single byte is its high digit and its low digit
      have hb := b.toNat_lt
      have hzero : natOfBytes [] * 256 + b.toNat = b.toNat := Nat.zero_add _
      have hhigh : b.toNat / 16 < 16 := by omega
      rw [hzero]
      show Text.padded (1 + 1) (Text.hexDigits b.toNat) = Text.hexByte b
      rw [Text.padded_succ_hexDigits (by decide), Text.hexDigits_of_lt hhigh]
      rfl
    · have hpos := List.length_pos_iff.2 hne
      rw [← ih hne, hexChars, Nat.mul_add, Text.padded_hexDigits_byte (by omega)]

/-- A field is written as the two digits of each of its bytes, the lowest eight at most. -/
theorem toList_hex_eq_flatMap (v : Int) (w : Nat) :
    (hex v w).toList = (toBytes v (min w 8)).flatMap Text.hexByte := by
  rcases Nat.eq_zero_or_pos w with rfl | hpos
  · rfl
  · have hne : toBytes v (min w 8) ≠ [] := by
      rw [← List.length_pos_iff, length_toBytes]
      omega
    -- what is written is the number that the bytes write
    have hnumber : unsigned v w % modulus 8 = natOfBytes (toBytes v (min w 8)) := by
      rw [natOfBytes_toBytes]
      rcases Nat.lt_or_ge w 8 with hlt | hge
      · have hsize : modulus w ≤ modulus 8 := modulus_mono (by omega)
        have hunsigned := unsigned_lt v hlt
        rw [Int.emod_eq_of_lt (unsigned_nonneg v hlt) (by omega), unsigned, if_pos hlt,
          Nat.min_eq_left (by omega)]
      · rw [unsigned, if_neg (by omega), Nat.min_eq_right hge]
    have hchars := hexChars_natOfBytes hne
    rw [length_toBytes] at hchars
    rw [hex, if_neg (by omega), String.toList_ofList, hnumber, Int.toNat_natCast, ← hchars,
      hexChars]

theorem blank_not_mem_hex (v : Int) (w : Nat) : ' ' ∉ (hex v w).toList := by
  rw [toList_hex_eq_flatMap, List.mem_flatMap]
  rintro ⟨b, -, hmem⟩
  exact Text.blank_not_mem_hexByte b hmem

end Word

end Breadboard
