import Breadboard.Cpu.Register
import Mathlib.Tactic

/-!
# Laws of fixed-width fields

A field of `w` bytes keeps a number up to multiples of `modulus w`. Cutting a number off twice is
cutting it off once (`fit_fit`), and the bytes of a field read back as its unsigned value
(`ofBytes_toBytes`). A bit of a number depends on the number only up to multiples of higher powers
of two (`bit_add_mul_weight`), so a field keeps its low bits (`bit_fit`), and setting one bit
changes that bit and no other (`bit_withBit_self`, `bit_withBit_of_ne`). A number that fits its
field is zero if all bits of the field are clear (`eq_zero_iff_bits`).
-/

namespace Breadboard.Word

/-! ## Sizes of fields and weights of bits -/

theorem weight_pos (r : Nat) : 0 < weight r := Nat.pow_pos (by decide)

theorem weight_ne_zero (r : Nat) : (weight r : Int) ≠ 0 := by
  have h := weight_pos r
  omega

theorem weight_succ (r : Nat) : weight (r + 1) = weight r * 2 := rfl

theorem weight_add (r s : Nat) : weight (r + s) = weight r * weight s := Nat.pow_add 2 r s

/-- A byte is eight bits. -/
theorem modulus_eq_weight (w : Nat) : modulus w = weight (8 * w) := by
  rw [modulus, weight]
  rw [Nat.pow_eq, Nat.pow_eq, Nat.pow_mul]

theorem natCast_modulus (w : Nat) : (modulus w : Int) = 2 ^ (8 * w) := by
  rw [modulus_eq_weight, weight, Nat.pow_eq]
  exact Nat.cast_pow 2 (8 * w)

theorem modulus_mono {v w : Nat} (h : v ≤ w) : modulus v ≤ modulus w :=
  Nat.pow_le_pow_right (by decide) h

theorem inRange_natCast {n : Nat} (h : (n : Int) ≤ greatest) : inRange n = true := by
  have hleast : least ≤ (n : Int) := by
    rw [least]
    omega
  rw [inRange, decide_eq_true hleast, decide_eq_true h, Bool.and_true]

/-- What fits less than eight bytes stays below the sign of a number. -/
theorem inRange_of_lt_modulus {n w : Nat} (hw : w < 8) (h : n < modulus w) :
    inRange (n : Int) = true := by
  have hsize : modulus w ≤ modulus 7 := modulus_mono (by omega)
  have h7 : modulus 7 = 72057594037927936 := rfl
  have hgreatest : greatest = 9223372036854775807 := rfl
  exact inRange_natCast (by omega)

/-- Exactly the numbers in range are left as they are. -/
theorem wrap_eq_self_iff {v : Int} : wrap v = v ↔ inRange v = true := by
  have h8 : modulus 8 = 18446744073709551616 := rfl
  rw [wrap, Int.bmod_eq_iff (modulus_pos 8), h8, inRange, least, greatest, Bool.and_eq_true,
    decide_eq_true_eq, decide_eq_true_eq]
  omega

/-- What agrees modulo the size of a field agrees modulo the size of the range of numbers if the
field is as wide. -/
theorem wrap_emod {w : Nat} (hw : 8 ≤ w) (v : Int) : wrap (v % modulus w) = wrap v := by
  have hdvd : (modulus 8 : Int) ∣ modulus w := Int.natCast_dvd_natCast.2 (Nat.pow_dvd_pow 256 hw)
  rw [wrap, ← Int.emod_bmod, Int.emod_emod_of_dvd v hdvd, Int.emod_bmod, wrap]

/-! ## Cutting off -/

/-- Cutting off subtracts a multiple of the size of the field. -/
theorem fit_eq_add_mul (f : NumberFormat) (v : Int) {w : Nat} (hw : w < 8) :
    ∃ k : Int, f.fit v w = v + k * modulus w := by
  cases f with
  | signed =>
    refine ⟨-v.bdiv (modulus w), ?_⟩
    have h : (NumberFormat.signed.fit v w) = v.bmod (modulus w) := if_pos hw
    rw [h, Int.bmod_eq_self_sub_bdiv_mul]
    ring
  | unsigned =>
    refine ⟨-(v / modulus w), ?_⟩
    have h : (NumberFormat.unsigned.fit v w) = v % modulus w := if_pos hw
    rw [h, Int.emod_def]
    ring

/-- A number that was cut off fits its field. -/
@[simp] theorem fit_fit (f : NumberFormat) (v : Int) (w : Nat) :
    f.fit (f.fit v w) w = f.fit v w := by
  by_cases hw : w < 8
  · cases f with
    | signed => simp [NumberFormat.fit, signed, hw]
    | unsigned => simp [NumberFormat.fit, unsigned, hw]
  · cases f with
    | signed => simp [NumberFormat.fit, signed, hw]
    | unsigned => simp [NumberFormat.fit, unsigned, hw]

theorem fit_zero (f : NumberFormat) (w : Nat) : f.fit 0 w = 0 := by
  cases f with
  | signed => simp [NumberFormat.fit, signed]
  | unsigned => simp [NumberFormat.fit, unsigned]

theorem unsigned_of_lt {v : Int} {w : Nat} (h₀ : 0 ≤ v) (h : v < modulus w) : unsigned v w = v := by
  rw [unsigned]
  split
  · exact Int.emod_eq_of_lt h₀ h
  · rfl

theorem unsigned_nonneg (v : Int) {w : Nat} (hw : w < 8) : 0 ≤ unsigned v w := by
  have hpos := modulus_pos w
  rw [unsigned, if_pos hw]
  exact Int.emod_nonneg v (by omega)

theorem unsigned_lt (v : Int) {w : Nat} (hw : w < 8) : unsigned v w < modulus w := by
  have hpos := modulus_pos w
  rw [unsigned, if_pos hw]
  exact Int.emod_lt_of_pos v (by omega)

/-- The signed reading of a field depends on its unsigned one only. -/
@[simp] theorem signed_unsigned (v : Int) (w : Nat) : signed (unsigned v w) w = signed v w := by
  by_cases hw : w < 8
  · simp [signed, unsigned, hw]
  · simp [signed, unsigned, hw]

/-- The unsigned reading of a field depends on its signed one only. -/
theorem unsigned_signed (v : Int) (w : Nat) : unsigned (signed v w) w = unsigned v w := by
  by_cases hw : w < 8
  · simp [signed, unsigned, hw]
  · simp [signed, unsigned, hw]

/-- Cutting off in between does not matter to a sum. -/
theorem unsigned_unsigned_add (v d : Int) (w : Nat) :
    unsigned (unsigned v w + d) w = unsigned (v + d) w := by
  by_cases hw : w < 8
  · simp [unsigned, hw]
  · simp [unsigned, hw]

/-- A signed field keeps the numbers whose double lies between the two ends of the field. -/
theorem fitsSigned_eq_true_iff {v : Int} {w : Nat} (hw : w < 8) :
    fitsSigned v w = true ↔ -(modulus w : Int) ≤ 2 * v ∧ 2 * v < modulus w := by
  have hpos := modulus_pos w
  rw [fitsSigned, beq_iff_eq, signed, if_pos hw]
  constructor
  · intro heq
    have hle := Int.le_bmod (x := v) hpos
    have hlt := Int.bmod_lt (x := v) hpos
    omega
  · rintro ⟨hle, hlt⟩
    apply Int.bmod_eq_of_le
    · omega
    · omega

/-- A signed field of at least one byte keeps the numbers from minus the weight of its highest bit
up to that weight. -/
theorem fitsSigned_eq_true_iff_weight {v : Int} {w : Nat} (hpos : 1 ≤ w) (hw : w < 8) :
    fitsSigned v w = true ↔ -(weight (8 * w - 1) : Int) ≤ v ∧ v < weight (8 * w - 1) := by
  have htop : modulus w = weight (8 * w - 1) * 2 := by
    rw [modulus_eq_weight, ← weight_succ]
    congr 1
    omega
  rw [fitsSigned_eq_true_iff hw, htop]
  omega

/-- An unsigned field keeps the numbers from zero up to the size of the field. -/
theorem fitsUnsigned_eq_true_iff {v : Int} {w : Nat} (hw : w < 8) :
    fitsUnsigned v w = true ↔ 0 ≤ v ∧ v < modulus w := by
  have hpos := modulus_pos w
  rw [fitsUnsigned, beq_iff_eq]
  constructor
  · intro heq
    rw [← heq, unsigned, if_pos hw]
    exact ⟨Int.emod_nonneg v (by omega), Int.emod_lt_of_pos v (by omega)⟩
  · rintro ⟨h₀, hlt⟩
    exact unsigned_of_lt h₀ hlt

/-- What a narrow signed field keeps is in the range of numbers. -/
theorem inRange_of_fitsSigned {v : Int} {w : Nat} (hw : w < 8) (h : fitsSigned v w = true) :
    inRange v = true := by
  obtain ⟨hle, hlt⟩ := (fitsSigned_eq_true_iff hw).1 h
  have hsize : modulus w ≤ modulus 7 := modulus_mono (by omega)
  have h7 : modulus 7 = 72057594037927936 := rfl
  rw [inRange, least, greatest, Bool.and_eq_true, decide_eq_true_eq, decide_eq_true_eq]
  omega

/-- Cutting off keeps a number in the range of numbers. -/
theorem inRange_signed {v : Int} (hv : inRange v = true) (w : Nat) :
    inRange (signed v w) = true := by
  rcases Nat.lt_or_ge w 8 with hlt | hge
  · exact inRange_of_fitsSigned hlt (beq_iff_eq.2 (fit_fit .signed v w))
  · rwa [signed, if_neg (by omega)]

/-! ## Bits -/

theorem bit_eq_true_iff {v : Int} {r : Nat} : bit v r = true ↔ r < 64 ∧ v / weight r % 2 = 1 := by
  simp [bit]

/-- A bit depends on the number only up to multiples of higher weights. -/
theorem bit_add_mul_weight (v k : Int) {r n : Nat} (h : r < n) :
    bit (v + k * weight n) r = bit v r := by
  obtain ⟨d, rfl⟩ := Nat.exists_eq_add_of_lt h
  -- the summand is an even multiple of the weight of the bit
  have hsplit : v + k * weight (r + d + 1) = v + (2 * (k * weight d)) * weight r := by
    rw [weight_succ, weight_add]
    push_cast
    ring
  have hquot : (v + k * weight (r + d + 1)) / weight r = v / weight r + 2 * (k * weight d) := by
    rw [hsplit, Int.add_mul_ediv_right _ _ (weight_ne_zero r)]
  rw [bit, bit, hquot, Int.add_mul_emod_self_left]

/-- A field keeps its low bits. -/
theorem bit_fit (f : NumberFormat) (v : Int) {w r : Nat} (hr : r < 8 * w) :
    bit (f.fit v w) r = bit v r := by
  by_cases hw : w < 8
  · obtain ⟨k, hk⟩ := fit_eq_add_mul f v hw
    rw [hk, modulus_eq_weight, bit_add_mul_weight v k hr]
  · -- so wide a field leaves the number as it is
    cases f with
    | signed => rw [NumberFormat.fit, signed, if_neg hw]
    | unsigned => rw [NumberFormat.fit, unsigned, if_neg hw]

theorem bit_wrap (v : Int) (r : Nat) : bit (wrap v) r = bit v r := by
  -- a machine word has 64 bits, and no higher bit counts as set
  by_cases hr : r < 64
  · have hk : wrap v = v + -v.bdiv (modulus 8) * weight 64 := by
      rw [wrap, Int.bmod_eq_self_sub_bdiv_mul, modulus_eq_weight]
      ring
    rw [hk, bit_add_mul_weight v _ hr]
  · simp [bit, hr]

/-- Changing a number by the weight of a bit changes that bit. -/
theorem bit_add_weight_self (v : Int) {r : Nat} (hr : r < 64) :
    bit (v + weight r) r = !bit v r := by
  have hquot : (v + weight r) / weight r = v / weight r + 1 := by
    rw [Int.add_ediv_of_dvd_right (Int.dvd_refl _), Int.ediv_self (weight_ne_zero r)]
  rw [Bool.eq_iff_iff, Bool.not_eq_true', ← Bool.not_eq_true, bit_eq_true_iff, bit_eq_true_iff,
    hquot]
  omega

/-- Adding the weight of a clear bit changes no other bit. -/
theorem bit_add_weight_of_ne {v : Int} {r q : Nat} (hr : r < 64) (hclear : bit v r = false)
    (hne : q ≠ r) : bit (v + weight r) q = bit v q := by
  rcases Nat.lt_or_gt_of_ne hne with hlt | hgt
  · simpa using bit_add_mul_weight v 1 hlt
  · -- above the bit both numbers have the same quotient, since no carry leaves it
    obtain ⟨d, rfl⟩ := Nat.exists_eq_add_of_lt hgt
    have hquot : (v + weight r) / weight r = v / weight r + 1 := by
      rw [Int.add_ediv_of_dvd_right (Int.dvd_refl _), Int.ediv_self (weight_ne_zero r)]
    have heven : v / weight r % 2 = 0 := by
      rw [← Bool.not_eq_true, bit_eq_true_iff] at hclear
      omega
    have hhalf : ∀ u : Int, u / weight (r + d + 1) = u / weight r / 2 / weight d := by
      intro u
      rw [Int.ediv_ediv_of_nonneg (by omega), Int.ediv_ediv_of_nonneg (by omega), weight_succ,
        weight_add]
      congr 1
      push_cast
      ring
    have hsame : (v / weight r + 1) / 2 = v / weight r / 2 := by omega
    rw [bit, bit, hhalf, hhalf, hquot, hsame]

theorem bit_sub_weight {v : Int} {r : Nat} (hr : r < 64) (hset : bit v r = true) :
    bit (v - weight r) r = false ∧ ∀ q, q ≠ r → bit (v - weight r) q = bit v q := by
  -- subtracting undoes adding, and the bit is clear after it
  have hback : v - weight r + weight r = v := by omega
  have hself : bit (v - weight r) r = false := by
    have h := bit_add_weight_self (v - weight r) hr
    rw [hback, hset] at h
    simpa using h.symm
  refine ⟨hself, fun q hne => ?_⟩
  have h := bit_add_weight_of_ne hr hself hne
  rw [hback] at h
  exact h.symm

/-- A bit that was set to a value has that value. -/
theorem bit_withBit_self (v : Int) {r : Nat} (on : Bool) (hr : r < 64) :
    bit (withBit v r on) r = on := by
  rw [withBit]
  split
  next h => simpa [Nat.not_le.2 hr] using h
  next h =>
    have hne : bit v r ≠ on := by
      intro heq
      simp [heq] at h
    cases on with
    | true =>
      rw [if_pos rfl, bit_wrap, bit_add_weight_self v hr]
      simpa using hne
    | false =>
      rw [if_neg Bool.false_ne_true, bit_wrap]
      exact (bit_sub_weight hr (by simpa using hne)).1

/-- Setting a bit changes no other bit. -/
theorem bit_withBit_of_ne (v : Int) {r q : Nat} (on : Bool) (hne : q ≠ r) :
    bit (withBit v r on) q = bit v q := by
  rw [withBit]
  split
  · rfl
  next h =>
    simp only [Bool.or_eq_true, decide_eq_true_eq, beq_iff_eq, not_or, Nat.not_le] at h
    obtain ⟨hr, hbit⟩ := h
    cases on with
    | true =>
      rw [if_pos rfl, bit_wrap, bit_add_weight_of_ne hr (by simpa using hbit) hne]
    | false =>
      rw [if_neg Bool.false_ne_true, bit_wrap]
      exact (bit_sub_weight hr (by simpa using hbit)).2 q hne

/-- A number whose lowest `n` bits are clear is a multiple of the weight of the next bit. -/
theorem weight_dvd_of_bits {v : Int} {n : Nat} (hn : n ≤ 64) (h : ∀ b, b < n → bit v b = false) :
    (weight n : Int) ∣ v := by
  induction n with
  | zero => exact one_dvd v
  | succ n ih =>
    obtain ⟨u, hu⟩ := ih (by omega) fun b hb => h b (by omega)
    -- the quotient is even, since its lowest bit is the bit at `n`
    have hclear : ¬(n < 64 ∧ v / weight n % 2 = 1) := by
      rw [← bit_eq_true_iff, h n (by omega)]
      exact Bool.false_ne_true
    rw [hu, Int.mul_ediv_cancel_left _ (weight_ne_zero n)] at hclear
    obtain ⟨q, hq⟩ : (2 : Int) ∣ u := by omega
    refine ⟨q, ?_⟩
    rw [hu, hq, weight_succ]
    push_cast
    ring

/-- A number that fits a narrow field is zero exactly if all bits of the field are clear. -/
theorem eq_zero_iff_bits {f : NumberFormat} {v : Int} {w : Nat} (hw : w < 8)
    (hfit : f.fit v w = v) : v = 0 ↔ ∀ b, b < 8 * w → bit v b = false := by
  constructor
  · intro hzero b hb
    simp [hzero, bit]
  · intro hclear
    have hdvd : (modulus w : Int) ∣ v := by
      rw [modulus_eq_weight]
      exact weight_dvd_of_bits (by omega) hclear
    rw [← hfit]
    cases f with
    | signed =>
      rw [NumberFormat.fit, signed, if_pos hw]
      exact Int.bmod_eq_zero_of_dvd hdvd
    | unsigned =>
      rw [NumberFormat.fit, unsigned, if_pos hw]
      exact Int.emod_eq_zero_of_dvd hdvd

/-! ## Bytes -/

/-- Behind byte `k` of a field there are `w - 1 - k` more. -/
theorem getElem_toBytes (v : Int) (w : Nat) {k : Nat} (hk : k < (toBytes v w).length) :
    (toBytes v w)[k] = UInt8.ofNat (v / modulus (w - 1 - k) % 256).toNat := by
  induction w generalizing v with
  | zero => simp at hk
  | succ w ih =>
    have hlength : (toBytes (v / 256) w).length = w := length_toBytes _ _
    rw [length_toBytes] at hk
    simp only [toBytes_succ]
    rcases Nat.lt_succ_iff_lt_or_eq.1 hk with hlt | rfl
    · -- the higher bytes are those of the number without its lowest byte
      have hbehind : w + 1 - 1 - k = w - 1 - k + 1 := by omega
      rw [List.getElem_append_left (by omega), ih, hbehind, modulus_succ, Nat.cast_mul,
        Int.mul_comm, ← Int.ediv_ediv_of_nonneg (by decide)]
      rfl
    · have hlast : k + 1 - 1 - k = 0 := by omega
      have hone : (modulus 0 : Int) = 1 := rfl
      rw [List.getElem_append_right (by omega), hlast, hone, Int.ediv_one]
      simp

/-- The bytes of a field write the number modulo the size of the field. -/
theorem natOfBytes_toBytes (v : Int) (w : Nat) :
    (natOfBytes (toBytes v w) : Int) = v % modulus w := by
  induction w generalizing v with
  | zero =>
    have h : modulus 0 = 1 := rfl
    rw [h]
    simp [toBytes, toBytesOnto, natOfBytes]
  | succ w ih =>
    -- the last byte is the remainder, and the bytes before it write the quotient
    rw [toBytes_succ, natOfBytes_append_singleton, Nat.cast_add, Nat.cast_mul, ih, modulus_succ]
    have hbyte : ((UInt8.ofNat (v % 256).toNat).toNat : Int) = v % 256 := by
      rw [UInt8.toNat_ofNat']
      omega
    have hquot : v / (modulus w * 256) = v / 256 / modulus w := by
      rw [Int.ediv_ediv_of_nonneg (by decide), Int.mul_comm]
    push_cast
    rw [hbyte, Int.emod_def v (modulus w * 256), hquot, Int.emod_def (v / 256), Int.emod_def v 256]
    ring

theorem natOfBytes_lt (bytes : List UInt8) : natOfBytes bytes < modulus bytes.length := by
  induction bytes using List.reverseRecOn with
  | nil => exact modulus_pos 0
  | append_singleton bytes b ih =>
    have hb := b.toNat_lt
    rw [natOfBytes_append_singleton, List.length_append, List.length_singleton, modulus_succ]
    omega

/-- Few bytes write a number that is in the range of numbers. -/
theorem ofBytes_of_length_lt {bytes : List UInt8} (h : bytes.length < 8) :
    ofBytes bytes = natOfBytes bytes :=
  wrap_eq_self_iff.2 (inRange_of_lt_modulus h (natOfBytes_lt bytes))

/-- The signed reading of at most eight bytes is the number that they write in two's complement. -/
theorem signed_ofBytes {bytes : List UInt8} (h : bytes.length ≤ 8) :
    signed (ofBytes bytes) bytes.length = (natOfBytes bytes : Int).bmod (modulus bytes.length) := by
  rcases Nat.lt_or_eq_of_le h with hlt | heq
  · rw [ofBytes_of_length_lt hlt, signed, if_pos hlt]
  · rw [heq, signed, if_neg (Nat.lt_irrefl 8), ofBytes, wrap]

/-- A number is in the range of numbers exactly if eight bytes hold it. -/
theorem signed_eq_bmod {v : Int} {w : Nat} (hw : w ≤ 8) (hv : inRange v = true) :
    signed v w = v.bmod (modulus w) := by
  rcases Nat.lt_or_eq_of_le hw with hlt | rfl
  · rw [signed, if_pos hlt]
  · rw [signed, if_neg (Nat.lt_irrefl 8)]
    exact (wrap_eq_self_iff.2 hv).symm

/-- The bytes of a field read back as its unsigned value. -/
theorem ofBytes_toBytes (v : Int) {w : Nat} (hw : w < 8) :
    ofBytes (toBytes v w) = unsigned v w := by
  have hlength : (toBytes v w).length < 8 := by rwa [length_toBytes]
  rw [ofBytes_of_length_lt hlength, natOfBytes_toBytes, unsigned, if_pos hw]

/-- A field of `w` bytes can hold `v`: cut off to the field, signed or unsigned, it is still `v`. -/
def Representable (v : Int) (w : Nat) : Prop := signed v w = v ∨ unsigned v w = v

instance (v : Int) (w : Nat) : Decidable (Representable v w) :=
  inferInstanceAs (Decidable (_ ∨ _))

theorem representable_zero (w : Nat) : Representable 0 w := Or.inl (fit_zero .signed w)

theorem representable_of_fitsSigned {v : Int} {w : Nat} (h : fitsSigned v w = true) :
    Representable v w :=
  Or.inl (beq_iff_eq.1 h)

theorem representable_of_fitsUnsigned {v : Int} {w : Nat} (h : fitsUnsigned v w = true) :
    Representable v w :=
  Or.inr (beq_iff_eq.1 h)

end Breadboard.Word
