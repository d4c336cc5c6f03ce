import Breadboard.Device.Panel
import Breadboard.Proofs.Text.Words
import Breadboard.Proofs.Word.Conversions

/-!
# What the lamps and the rendering of a panel show

The lamps of a panel are the binary digits of the number that the bytes of its window write, however
many bytes there are (`lamps_are_digits`). The rendering has four fields with a blank between any
two of them: the row of lamps, the address, and the number in base sixteen and in base ten
(`fields_eq`). Up to 64 lamps these two are the number of the window. A panel with more lamps prints
only the last eight bytes of its window, in both bases (`printed_value_of_count_le`).
-/

namespace Breadboard

/-! ## Bits of bytes -/

/-- Bit `i` of the number that bytes write is in byte `i / 8`, counted from the last byte. -/
theorem Word.testBit_natOfBytes (bytes : List UInt8) (i : Nat) :
    (natOfBytes bytes).testBit i = (bytes.reverse[i / 8]?.getD 0).toNat.testBit (i % 8) := by
  induction bytes using List.reverseRecOn generalizing i with
  | nil => simp [natOfBytes]
  | append_singleton bytes b ih =>
    have hsum : natOfBytes bytes * 256 + b.toNat = 2 ^ 8 * natOfBytes bytes + b.toNat := by omega
    rw [natOfBytes_append_singleton, hsum, Nat.testBit_two_pow_mul_add _ b.toNat_lt,
      List.reverse_append, List.reverse_singleton, List.singleton_append]
    split
    next hlow => rw [Nat.div_eq_of_lt hlow, Nat.mod_eq_of_lt hlow, List.getElem?_cons_zero,
      Option.getD_some]
    next hhigh =>
      -- eight bits further up is one byte further to the left
      obtain ⟨j, rfl⟩ := Nat.exists_eq_add_of_le (Nat.le_of_not_lt hhigh)
      have hdiv : (8 + j) / 8 = j / 8 + 1 := by omega
      have hmod : (8 + j) % 8 = j % 8 := by omega
      rw [Nat.add_sub_cancel_left, ih, hdiv, hmod, List.getElem?_cons_succ]

namespace Panel

@[simp] theorem bytes_receive (p : Panel) (bytes : List UInt8) : (p.receive bytes).bytes = bytes :=
  rfl

/-! ## Lamps -/

/-- A lamp is on exactly if there is such a lamp and its bit of the number is set. -/
theorem lamp_eq (p : Panel) (i : Nat) :
    p.lamp i = (decide (i < p.count) && (Word.natOfBytes p.bytes).testBit i) := by
  rw [lamp, lampOf, Word.testBit_natOfBytes]

theorem lamps_eq (p : Panel) :
    p.lamps = (List.range p.count).map (Word.natOfBytes p.bytes).testBit := by
  apply List.map_congr_left
  intro i hi
  rw [lamp_eq, decide_eq_true (List.mem_range.1 hi), Bool.true_and]

/-- The lamps from the highest to lamp 0, as they are drawn. -/
def lampRow (p : Panel) : List Char := p.lamps.reverse.map fun on => if on then '*' else '.'

theorem lampRow_eq (p : Panel) : p.lampRow = (List.range p.count).reverse.map fun i =>
    if (Word.natOfBytes p.bytes).testBit i then '*' else '.' := by
  rw [lampRow, lamps_eq, ← List.map_reverse, List.map_map]
  rfl

/-! ## The fields of the rendering -/

/-- The stretches of the rendering between its blanks. -/
def fields (p : Panel) : List (List Char) := Text.splitWhere (· == ' ') p.render.toList

theorem render_eq (p : Panel) : p.render = String.ofList (Text.unwords
    [p.lampRow, '@' :: Text.decimalInt p.address,
      'x' :: (Word.hex p.value p.bytes.length).toList,
      Text.decimalInt (Word.signed p.value p.bytes.length)]) := by
  have hrender : p.render = String.ofList p.lampRow ++ " @" ++ p.address.repr ++ " x" ++
      Word.hex p.value p.bytes.length ++ " " ++ Word.decimal p.value p.bytes.length := rfl
  rw [← String.toList_inj, String.toList_ofList, hrender]
  simp [Text.unwords, Text.toList_repr, Word.decimal]

/-- The rendering has four fields: the row of lamps, the address, and the number that the bytes
write in base sixteen and in base ten. -/
theorem fields_eq (p : Panel) : p.fields =
    [p.lampRow, '@' :: Text.decimalInt p.address,
      'x' :: (Word.hex p.value p.bytes.length).toList,
      Text.decimalInt (Word.signed p.value p.bytes.length)] := by
  rw [fields, render_eq, String.toList_ofList]
  apply Text.splitWhere_unwords (List.cons_ne_nil _ _)
  have hlamps : ' ' ∉ p.lampRow := by
    intro hmem
    obtain ⟨on, -, hon⟩ := List.mem_map.1 hmem
    cases on with
    | true => exact absurd hon (by decide)
    | false => exact absurd hon (by decide)
  intro w hw
  simp only [List.mem_cons, List.not_mem_nil, or_false] at hw
  rcases hw with rfl | rfl | rfl | rfl
  · exact hlamps
  · exact List.not_mem_cons_of_ne_of_not_mem (by decide) (Text.blank_not_mem_decimalInt _)
  · exact List.not_mem_cons_of_ne_of_not_mem (by decide) (Word.blank_not_mem_hex _ _)
  · exact Text.blank_not_mem_decimalInt _

/-! ## What is printed -/

/-- The lamps are the digits of the number that the delivered bytes write, lamp `i` its bit `i`, and
they are drawn from the highest to lamp 0. Higher bits of the number do not show. -/
theorem lamps_are_digits (p : Panel) (bytes : List UInt8) :
    let q := p.receive bytes
    let number := Word.natOfBytes bytes
    q.lamps.length = p.count ∧
      (∀ i, i < p.count → q.lamps[i]? = some (number.testBit i)) ∧
      q.fields[0]? = some ((List.range p.count).reverse.map fun i =>
        if number.testBit i then '*' else '.') ∧
      ∀ other : List UInt8, Word.natOfBytes other ≡ number [MOD 2 ^ p.count] →
        (p.receive other).lamps = q.lamps ∧ (p.receive other).fields[0]? = q.fields[0]? := by
  intro q number
  have hlamps : q.lamps = (List.range p.count).map number.testBit := q.lamps_eq
  refine ⟨q.length_lamps, ?_, ?_, ?_⟩
  · intro i hi
    rw [hlamps, List.getElem?_map, List.getElem?_range hi, Option.map_some]
  · rw [fields_eq, List.getElem?_cons_zero, lampRow_eq]
    rfl
  · intro other hother
    have hsame : (p.receive other).lamps = q.lamps := by
      rw [hlamps, lamps_eq]
      apply List.map_congr_left
      intro i hi
      -- the bits below the highest lamp are those of the remainder
      have hlt : i < p.count := List.mem_range.1 hi
      have hlow := congrArg (Nat.testBit · i) hother
      simpa [Nat.testBit_mod_two_pow, hlt] using hlow
    refine ⟨hsame, ?_⟩
    rw [fields_eq, fields_eq, List.getElem?_cons_zero, List.getElem?_cons_zero, lampRow, lampRow,
      hsame]

/-- Twelve lamps show the low twelve bits of two bytes. -/
theorem lamps_are_digits_twelve :
    let p : Panel := { rank := 0, count := 12, address := 16 }
    (p.receive [0xF8, 0x05]).lamps[11]? = some true ∧
      (p.receive [0xF8, 0x05]).fields[0]? = some "*........*.*".toList ∧
      (p.receive [0x08, 0x05]).lamps = (p.receive [0xF8, 0x05]).lamps := by
  intro p
  obtain ⟨-, hlamp, hrow, hhigher⟩ := p.lamps_are_digits [0xF8, 0x05]
  have heleventh : (Word.natOfBytes [0xF8, 0x05]).testBit 11 = true := by decide
  have hsame : Word.natOfBytes [0x08, 0x05] ≡ Word.natOfBytes [0xF8, 0x05] [MOD 2 ^ p.count] := by
    decide
  exact ⟨(hlamp 11 (by decide)).trans (congrArg some heleventh), hrow.trans (by decide),
    (hhigher _ hsame).1⟩

/-- What is printed of the number: the last eight bytes in base sixteen, and the number in two's
complement, cut off to the range of numbers, in base ten. -/
theorem printed_value_eq (p : Panel) (bytes : List UInt8) :
    (p.receive bytes).fields[2]? =
        some ('x' :: (bytes.drop (bytes.length - 8)).flatMap Text.hexByte) ∧
      (p.receive bytes).fields[3]? = some (Text.decimalInt
        (Word.wrap ((Word.natOfBytes bytes : Int).bmod (Word.modulus bytes.length)))) := by
  have hdrop : bytes.length - min bytes.length 8 = bytes.length - 8 := by omega
  rw [fields_eq, value, bytes_receive, Word.toList_hex_eq_flatMap,
    Word.toBytes_ofBytes (Nat.min_le_left _ _) (Nat.min_le_right _ _), hdrop,
    Word.signed_ofBytes_eq_wrap]
  exact ⟨rfl, rfl⟩

/-- A panel of at most 64 lamps prints its whole window in base sixteen, with two digits for each
byte, and in base ten as a number in two's complement. A panel with more lamps prints the last eight
bytes, and so never the whole window in base sixteen; in base ten it prints the number of the window
only if that is in the range of numbers. -/
theorem printed_value_of_count_le (p : Panel) {bytes : List UInt8} (h : bytes.length = p.size) :
    let q := p.receive bytes
    let number := (Word.natOfBytes bytes : Int).bmod (Word.modulus p.size)
    (bytes.flatMap Text.hexByte).length = 2 * p.size ∧
      (p.count ≤ 64 →
        q.fields[2]? = some ('x' :: bytes.flatMap Text.hexByte) ∧
        q.fields[3]? = some (Text.decimalInt number)) ∧
      (64 < p.count →
        q.fields[2]? = some ('x' :: (bytes.drop (p.size - 8)).flatMap Text.hexByte) ∧
        q.fields[2]? ≠ some ('x' :: bytes.flatMap Text.hexByte) ∧
        (q.fields[3]? = some (Text.decimalInt number) ↔ Word.inRange number = true)) := by
  intro q number
  obtain ⟨hhex, hdecimal⟩ := p.printed_value_eq bytes
  rw [h] at hhex hdecimal
  refine ⟨?_, ?_, ?_⟩
  · rw [Text.length_flatMap_hexByte, h]
  · intro hcount
    have hsize : p.size ≤ 8 := by
      rw [size]
      omega
    have hnumber : Word.wrap number = number :=
      Word.wrap_eq_self_iff.2 (Word.inRange_bmod _ hsize)
    rw [Nat.sub_eq_zero_of_le hsize, List.drop_zero] at hhex
    exact ⟨hhex, hdecimal.trans (by rw [hnumber])⟩
  · intro hcount
    have hsize : 8 < p.size := by
      rw [size]
      omega
    refine ⟨hhex, ?_, ?_⟩
    · -- sixteen digits are too few
      intro hwhole
      have hdigits := congrArg List.length (List.cons.inj (Option.some.inj (hhex.symm.trans hwhole))).2
      rw [Text.length_flatMap_hexByte, Text.length_flatMap_hexByte, List.length_drop, h] at hdigits
      omega
    · rw [hdecimal, Option.some.injEq, ← Word.wrap_eq_self_iff]
      exact ⟨fun heq => Text.decimalInt_injective heq, fun heq => by rw [heq]⟩

/-- Sixty-four lamps that are all on print minus one. -/
theorem printed_value_of_count_le_full :
    let p : Panel := { rank := 0, count := 64, address := 0 }
    let bytes : List UInt8 := List.replicate 8 0xFF
    bytes.length = p.size ∧ p.count ≤ 64 ∧
      (p.receive bytes).fields[2]? = some ('x' :: List.replicate 16 'F') ∧
      (p.receive bytes).fields[3]? = some ['-', '1'] := by
  intro p bytes
  have hlength : bytes.length = p.size := by decide
  have hcount : p.count ≤ 64 := by decide
  obtain ⟨-, hnarrow, -⟩ := p.printed_value_of_count_le hlength
  obtain ⟨hhex, hdecimal⟩ := hnarrow hcount
  exact ⟨hlength, hcount, hhex.trans (by decide), hdecimal.trans (by decide)⟩

/-- The ninth byte of a window is missing from what 72 lamps print, in both bases. -/
theorem printed_value_of_nine_bytes :
    let p : Panel := { rank := 0, count := 72, address := 0 }
    let bytes : List UInt8 := 1 :: List.replicate 8 0
    create 0 ⟨deviceName, ["72", "0"]⟩ = .ok p ∧ bytes.length = p.size ∧
      (p.receive bytes).fields[2]? ≠ some ('x' :: bytes.flatMap Text.hexByte) ∧
      (p.receive bytes).fields[3]? ≠ some (Text.decimalInt
        ((Word.natOfBytes bytes : Int).bmod (Word.modulus p.size))) :=
  ⟨by decide, by decide, by decide, by decide⟩

end Panel

end Breadboard
