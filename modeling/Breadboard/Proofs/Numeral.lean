import Breadboard.Numeral
import Breadboard.Proofs.Text.Hex

/-!
# The grammar of numbers

A number is written as digits with at most one sign in front of them (`Writes`), in base ten or,
behind a `$`, in base sixteen (`WritesDollar`). The decoders accept exactly the texts that write a
number in the range of numbers, and give that number (`decimal_eq_ok_iff`, `dollarHex_eq_ok_iff`);
the refusal of any other text carries the text. What a field is written as is decoded to what is in
the field. The main statement is `decoders_exact`.
-/

namespace Breadboard.Numeral

/-! ## What a text writes -/

/-- At least one digit of base `base`, and nothing else. -/
structure IsNumeral (base : Nat) (ds : List Char) : Prop where
  nonempty : ds ≠ []
  digits : ∀ d ∈ ds, Text.IsDigit base d

instance (base : Nat) (ds : List Char) : Decidable (IsNumeral base ds) :=
  decidable_of_iff (ds ≠ [] ∧ (ds.all fun d => decide (Text.IsDigit base d)) = true)
    ⟨fun ⟨hne, hall⟩ => ⟨hne, by simpa using hall⟩, fun h => ⟨h.nonempty, by simpa using h.digits⟩⟩

/-- The text writes the integer in base `base`: digits, with at most one sign in front of them. -/
inductive Writes (base : Nat) : List Char → Int → Prop
  | bare {ds : List Char} (h : IsNumeral base ds) : Writes base ds (Text.numberOf base ds)
  | plus {ds : List Char} (h : IsNumeral base ds) : Writes base ('+' :: ds) (Text.numberOf base ds)
  | minus {ds : List Char} (h : IsNumeral base ds) :
      Writes base ('-' :: ds) (-Text.numberOf base ds)

/-- The text writes the integer in base ten, or in base sixteen behind a `$`. -/
inductive WritesDollar : List Char → Int → Prop
  | decimal {cs : List Char} {v : Int} (h : Writes 10 cs v) : WritesDollar cs v
  | hexadecimal {cs : List Char} {v : Int} (h : Writes 16 cs v) : WritesDollar ('$' :: cs) v

variable {base n : Nat} {cs ds : List Char} {v : Int}

theorem value?_eq_some_iff (hbase : base ≤ 16) :
    Text.value? base ds = some n ↔ IsNumeral base ds ∧ n = Text.numberOf base ds := by
  rw [Text.value?_eq_some_iff hbase]
  constructor
  · rintro ⟨hne, hdigits, hn⟩
    exact ⟨⟨hne, hdigits⟩, hn⟩
  · rintro ⟨⟨hne, hdigits⟩, hn⟩
    exact ⟨hne, hdigits, hn⟩

/-- A numeral is read as an integer too. -/
theorem lift_eq_some_iff (hbase : base ≤ 16) :
    (Text.value? base ds >>= fun n => pure (n : Int)) = some v ↔
      IsNumeral base ds ∧ v = Text.numberOf base ds := by
  simp only [bind, Option.bind_eq_some_iff, value?_eq_some_iff hbase]
  constructor
  · rintro ⟨n, ⟨hds, rfl⟩, hv⟩
    exact ⟨hds, (Option.some.inj hv).symm⟩
  · rintro ⟨hds, rfl⟩
    exact ⟨_, ⟨hds, rfl⟩, rfl⟩

/-- A text that begins with a sign is no numeral. -/
theorem IsNumeral.head_ne_sign (hbase : base ≤ 16) {c : Char} (h : IsNumeral base (c :: ds)) :
    c ≠ '-' ∧ c ≠ '+' := by
  have hdigit := h.digits c List.mem_cons_self
  constructor
  · rintro rfl
    exact (Text.not_isDigit_sign hbase).1 hdigit
  · rintro rfl
    exact (Text.not_isDigit_sign hbase).2 hdigit

/-- No number in base ten begins with a `$`. -/
theorem not_writes_dollar : ¬ Writes 10 ('$' :: ds) v := by
  intro h
  cases h with
  | bare h => exact absurd (h.digits '$' List.mem_cons_self) (by decide)

/-! ## What is read -/

/-- Exactly the texts that write a number in range are read, as that number. -/
theorem int?_eq_some_iff (hbase : base ≤ 16) :
    int? base cs = some v ↔ Writes base cs v ∧ Word.inRange v = true := by
  simp only [int?, Option.filter_eq_some_iff, and_congr_left_iff]
  intro _
  split
  next ds =>
    simp only [Option.map_eq_some_iff, lift_eq_some_iff hbase]
    constructor
    · rintro ⟨u, ⟨hds, rfl⟩, rfl⟩
      exact .minus hds
    · intro h
      cases h with
      | bare h => exact absurd rfl (h.head_ne_sign hbase).1
      | minus h => exact ⟨_, ⟨h, rfl⟩, rfl⟩
  next ds =>
    simp only [Option.map_eq_some_iff, lift_eq_some_iff hbase]
    constructor
    · rintro ⟨u, ⟨hds, rfl⟩, rfl⟩
      exact .plus hds
    · intro h
      cases h with
      | bare h => exact absurd rfl (h.head_ne_sign hbase).2
      | plus h => exact ⟨_, ⟨h, rfl⟩, rfl⟩
  next hminus hplus =>
    simp only [Option.map_eq_some_iff, lift_eq_some_iff hbase]
    constructor
    · rintro ⟨u, ⟨hds, rfl⟩, rfl⟩
      exact .bare hds
    · intro h
      cases h with
      | bare h => exact ⟨_, ⟨h, rfl⟩, rfl⟩
      | plus h => exact absurd rfl (hplus _)
      | minus h => exact absurd rfl (hminus _)

/-- The integer that `cs` writes, in base sixteen behind a `$` and in base ten otherwise. -/
def dollarInt? : List Char → Option Int
  | '$' :: ds => int? 16 ds
  | cs => int? 10 cs

theorem dollarInt?_eq_some_iff :
    dollarInt? cs = some v ↔ WritesDollar cs v ∧ Word.inRange v = true := by
  rw [dollarInt?.eq_def]
  split
  next ds =>
    rw [int?_eq_some_iff (by decide), and_congr_left_iff]
    intro _
    constructor
    · exact .hexadecimal
    · intro h
      cases h with
      | decimal h => exact absurd h not_writes_dollar
      | hexadecimal h => exact h
  next hdollar =>
    rw [int?_eq_some_iff (by decide), and_congr_left_iff]
    intro _
    constructor
    · exact .decimal
    · intro h
      cases h with
      | decimal h => exact h
      | hexadecimal h => exact absurd rfl (hdollar _)

/-! ## The decoders -/

/-- What a decoder makes of the integer that was read from `text`, if any was. -/
def verdict (text : String) (read : Option Int) : Except ValueError Int :=
  read.elim (.error (.invalidNumber text)) .ok

theorem verdict_eq_ok_iff {text : String} {read : Option Int} :
    verdict text read = .ok v ↔ read = some v := by
  cases read with
  | none => simp [verdict]
  | some u => simp [verdict]

theorem verdict_eq_error_iff {text : String} {read : Option Int} :
    verdict text read = .error (.invalidNumber text) ↔ ∀ v, read ≠ some v := by
  cases read with
  | none => simp [verdict]
  | some u => simp [verdict]

theorem decimal_eq_verdict (text : String) : decimal text = verdict text (int? 10 text.toList) := by
  rw [decimal]
  split
  next v hv => rw [hv, verdict, Option.elim_some]
  next hnone => rw [hnone, verdict, Option.elim_none]

theorem dollarHex_eq_verdict (text : String) :
    dollarHex text = verdict text (dollarInt? text.toList) := by
  rw [dollarHex]
  split
  next ds hds =>
    rw [hds, dollarInt?]
    split
    next v hv => rw [hv, verdict, Option.elim_some]
    next hnone => rw [hnone, verdict, Option.elim_none]
  next hdollar => rw [dollarInt?.eq_2 _ hdollar, decimal_eq_verdict]

variable {text : String}

theorem decimal_eq_ok_iff :
    decimal text = .ok v ↔ Writes 10 text.toList v ∧ Word.inRange v = true := by
  rw [decimal_eq_verdict, verdict_eq_ok_iff, int?_eq_some_iff (by decide)]

theorem dollarHex_eq_ok_iff :
    dollarHex text = .ok v ↔ WritesDollar text.toList v ∧ Word.inRange v = true := by
  rw [dollarHex_eq_verdict, verdict_eq_ok_iff, dollarInt?_eq_some_iff]

theorem decimal_eq_error_iff :
    decimal text = .error (.invalidNumber text) ↔
      ¬ ∃ v, Writes 10 text.toList v ∧ Word.inRange v = true := by
  rw [decimal_eq_verdict, verdict_eq_error_iff, not_exists]
  simp only [ne_eq, int?_eq_some_iff (Nat.le_of_ble_eq_true rfl : 10 ≤ 16)]

theorem dollarHex_eq_error_iff :
    dollarHex text = .error (.invalidNumber text) ↔
      ¬ ∃ v, WritesDollar text.toList v ∧ Word.inRange v = true := by
  rw [dollarHex_eq_verdict, verdict_eq_error_iff, not_exists]
  simp only [ne_eq, dollarInt?_eq_some_iff]

/-! ## Fields that were written -/

/-- Digits after a `$` are decoded to the number that they are read as, if it fits a field of less
than eight bytes. -/
theorem dollarHex_of_value? {w : Nat} (hvalue : Text.value? 16 ds = some n) (hw : w < 8)
    (h : n < Word.modulus w) : dollarHex (String.ofList ('$' :: ds)) = .ok n := by
  obtain ⟨hds, rfl⟩ := (value?_eq_some_iff (by decide)).1 hvalue
  rw [dollarHex_eq_ok_iff, String.toList_ofList]
  exact ⟨.hexadecimal (.bare hds), Word.inRange_of_lt_modulus hw h⟩

/-- A field written after a `$` is decoded to the number in it. -/
theorem dollarHex_hexChars {w : Nat} (hw : w < 8) (h : n < Word.modulus w) :
    dollarHex (String.ofList ('$' :: Word.hexChars n w)) = .ok n :=
  dollarHex_of_value? (Text.value?_padded _ _) hw h

/-- At most two hexadecimal digits for each byte after a `$` are decoded to a number that fits the
field. -/
theorem fits_of_dollarHex {w : Nat} (hds : ∀ d ∈ ds, Text.isHexDigit d = true)
    (hlength : ds.length ≤ 2 * w) (h : dollarHex (String.ofList ('$' :: ds)) = .ok v) :
    0 ≤ v ∧ v < Word.modulus w := by
  rw [dollarHex_eq_ok_iff, String.toList_ofList] at h
  obtain ⟨hwrites, -⟩ := h
  have hdigit : ∀ d ∈ ds, Text.IsDigit 16 d := fun d hd => Text.isHexDigit_iff.1 (hds d hd)
  have hsign := Text.not_isDigit_sign (Nat.le_refl 16)
  cases hwrites with
  | decimal hwrites => exact absurd hwrites not_writes_dollar
  | hexadecimal hwrites =>
    -- none of the digits is a sign
    cases hwrites with
    | bare hnumeral =>
      have hread := (value?_eq_some_iff (by decide)).2 ⟨hnumeral, rfl⟩
      have hlt := Text.lt_modulus_of_value? hread hlength
      omega
    | plus => exact absurd (hdigit '+' List.mem_cons_self) hsign.2
    | minus => exact absurd (hdigit '-' List.mem_cons_self) hsign.1

/-- An integer is written as itself. -/
theorem writes_decimalInt (v : Int) : Writes 10 (Text.decimalInt v) v := by
  obtain ⟨hnumeral, hnumber⟩ :=
    (value?_eq_some_iff (by decide)).1 (Text.value?_decimalDigits v.natAbs)
  rw [Text.decimalInt]
  split
  next hneg =>
    have h := Writes.minus hnumeral
    rw [← hnumber] at h
    have hv : -(v.natAbs : Int) = v := by omega
    rwa [hv] at h
  next hnonneg =>
    have h := Writes.bare hnumeral
    rw [← hnumber] at h
    have hv : (v.natAbs : Int) = v := by omega
    rwa [hv] at h

/-- The decoders accept exactly the texts that write a number in range, and give that number; the
refusal of any other text carries the text. A field is decoded from what it is written as. -/
theorem decoders_exact (text : String) {x : Int} (hx : Word.inRange x = true) (w : Nat) :
    (∀ v, decimal text = .ok v ↔ Writes 10 text.toList v ∧ Word.inRange v = true) ∧
      (∀ v, dollarHex text = .ok v ↔ WritesDollar text.toList v ∧ Word.inRange v = true) ∧
      (decimal text = .error (.invalidNumber text) ↔
        ¬ ∃ v, Writes 10 text.toList v ∧ Word.inRange v = true) ∧
      (dollarHex text = .error (.invalidNumber text) ↔
        ¬ ∃ v, WritesDollar text.toList v ∧ Word.inRange v = true) ∧
      decimal (Word.decimal x w) = .ok (Word.signed x w) ∧
      (1 ≤ w → w ≤ 7 → dollarHex ("$" ++ Word.hex x w) = .ok (Word.unsigned x w)) := by
  refine ⟨fun v => decimal_eq_ok_iff, fun v => dollarHex_eq_ok_iff, decimal_eq_error_iff,
    dollarHex_eq_error_iff, ?_, ?_⟩
  · rw [Word.decimal, decimal_eq_ok_iff, String.toList_ofList]
    exact ⟨writes_decimalInt _, Word.inRange_signed hx w⟩
  · intro hpos hle
    have hw : w < 8 := by omega
    have hlt := Word.unsigned_lt x hw
    obtain ⟨n, hn⟩ := Int.eq_ofNat_of_zero_le (Word.unsigned_nonneg x hw)
    rw [hn] at hlt
    have hhex : (Word.hex x w).toList = Word.hexChars n w := by
      rw [← Word.hex_unsigned, hn, Word.toList_hex hpos hw (by omega)]
    have htext : "$" ++ Word.hex x w = String.ofList ('$' :: Word.hexChars n w) := by
      rw [← String.toList_inj, String.toList_append, hhex, String.toList_ofList,
        String.toList_ofList, List.singleton_append]
    rw [htext, hn]
    exact dollarHex_hexChars hw (by omega)

/-- The least number is read, a wide field keeps it, and a narrow one keeps its low bytes. -/
theorem decoders_exact_least :
    Word.inRange Word.least = true ∧ dollarHex "$-8000000000000000" = .ok Word.least ∧
      decimal (Word.decimal Word.least 9) = .ok Word.least ∧
      dollarHex ("$" ++ Word.hex Word.least 7) = .ok 0 := by
  have hrange : Word.inRange Word.least = true := by decide
  obtain ⟨-, hread, -, -, hfield, -⟩ := decoders_exact "$-8000000000000000" hrange 9
  obtain ⟨-, -, -, -, -, hnarrow⟩ := decoders_exact "" hrange 7
  have hsigned : Word.signed Word.least 9 = Word.least := by decide
  have hunsigned : Word.unsigned Word.least 7 = 0 := by decide
  rw [hsigned] at hfield
  rw [hunsigned] at hnarrow
  refine ⟨hrange, (hread _).2 ⟨?_, hrange⟩, hfield, hnarrow (by decide) (by decide)⟩
  have hdigits : IsNumeral 16 "8000000000000000".toList := by decide
  have hnumber : -(Text.numberOf 16 "8000000000000000".toList : Int) = Word.least := by
    decide
  rw [← hnumber]
  exact .hexadecimal (.minus hdigits)

/-- One more than the greatest number is refused. -/
example : decimal "9223372036854775808" = .error (.invalidNumber "9223372036854775808") := by
  decide

end Breadboard.Numeral
