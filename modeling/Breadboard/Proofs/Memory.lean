import Breadboard.Machine
import Breadboard.Proofs.Word

/-!
# Reading what was written

Putting bytes down in two pieces is putting them down at once (`overlay_append`). A range reads back
the bytes put there (`slice_overlay_self`), and bytes put elsewhere do not matter to a cell
(`cell_overlay_of_outside`). An access to a range that does not exist fails with the error of that
range (`locate_of_not_contains`), and a write there changes nothing (`write_of_not_contains`). A
range that holds the bytes of a field reads as the unsigned or the signed value of that field
(`readUnsigned_of_slice`, `read_of_slice`), and as the number that was stored exactly if the field
can hold that number (`holds_iff_of_slice`).
-/

namespace Breadboard.Memory

/-! ## Putting bytes down -/

theorem overlay_append (m : Memory) (start : Nat) (xs ys : List UInt8) :
    m.overlay start (xs ++ ys) = (m.overlay start xs).overlay (start + xs.length) ys := by
  induction xs generalizing m start with
  | nil => rfl
  | cons x xs ih =>
    rw [List.cons_append, overlay, overlay, ih, List.length_cons, Nat.add_right_comm, Nat.add_assoc]

/-- Cells outside the range keep what they hold. -/
theorem cell_overlay_of_outside (m : Memory) {start i : Nat} {bytes : List UInt8}
    (h : i < start ∨ start + bytes.length ≤ i) : (m.overlay start bytes).cell i = m.cell i := by
  rw [cell_overlay]
  split
  next hin =>
    have hlen : bytes.length ≤ i - start := by omega
    rw [List.getElem?_eq_none hlen, Option.getD_none]
  next => rfl

/-- Cells of a range that exists hold what was put there. -/
theorem cell_overlay_of_inside (m : Memory) {start k : Nat} {bytes : List UInt8}
    (hk : k < bytes.length) (h : start + bytes.length ≤ m.size) :
    (m.overlay start bytes).cell (start + k) = bytes[k] := by
  rw [cell_overlay, if_pos (by omega), Nat.add_sub_cancel_left, List.getElem?_eq_getElem hk,
    Option.getD_some]

theorem slice_congr {m m' : Memory} {start length : Nat}
    (h : ∀ k, k < length → m.cell (start + k) = m'.cell (start + k)) :
    m.slice start length = m'.slice start length := by
  apply List.map_congr_left
  intro i hi
  obtain ⟨k, hk, rfl⟩ := List.mem_range'.1 hi
  simpa using h k hk

/-- A range reads back the bytes put there. -/
theorem slice_overlay_self (m : Memory) {start : Nat} {bytes : List UInt8}
    (h : start + bytes.length ≤ m.size) :
    (m.overlay start bytes).slice start bytes.length = bytes := by
  apply List.ext_getElem
  · exact length_slice _ _ _
  · intro k hk hk'
    have hcell := cell_overlay_of_inside m hk' h
    simpa [slice] using hcell

theorem slice_append (m : Memory) (start a b : Nat) :
    m.slice start (a + b) = m.slice start a ++ m.slice (start + a) b := by
  rw [slice, slice, slice, ← List.map_append, List.range'_append_1]

theorem natOfBytes_slice_one (m : Memory) (start : Nat) :
    Word.natOfBytes (m.slice start 1) = (m.cell start).toNat := by
  simp [slice, Word.natOfBytes]

@[simp] theorem slice_zeroed (size start length : Nat) :
    (zeroed size).slice start length = List.replicate length 0 := by
  apply List.eq_replicate_iff.2
  refine ⟨length_slice _ _ _, fun b hb => ?_⟩
  obtain ⟨i, -, rfl⟩ := List.mem_map.1 hb
  exact cell_zeroed size i

/-! ## Ranges that exist -/

/-- All cells of the range of `length` bytes at `address` exist. -/
def Contains (m : Memory) (address : Int) (length : Nat) : Prop :=
  0 ≤ address ∧ address + length ≤ m.size

instance (m : Memory) (address : Int) (length : Nat) : Decidable (m.Contains address length) :=
  inferInstanceAs (Decidable (_ ∧ _))

/-- The error of an access to a range that goes past either end of memory. -/
def outside (address : Int) (length : Nat) : BoundsError :=
  ⟨address, length, if address < 0 then .negativeAddress else .pastEnd⟩

theorem locate_of_contains {m : Memory} {address : Int} {length : Nat}
    (h : m.Contains address length) : m.locate address length = .ok address.toNat := by
  obtain ⟨hpos, hend⟩ := h
  rw [locate_eq_ok_iff]
  omega

theorem locate_of_not_contains {m : Memory} {address : Int} {length : Nat}
    (h : ¬ m.Contains address length) :
    m.locate address length = .error (outside address length) := by
  rw [Contains] at h
  rw [locate, outside]
  split
  · rfl
  · rw [if_neg (by omega)]

/-- A range that exists is dumped as its bytes. -/
theorem dump_of_contains {m : Memory} {address : Int} {length : Nat}
    (h : m.Contains address length) :
    m.dump address length = .ok (m.slice address.toNat length) := by
  rw [dump, locate_of_contains h]
  rfl

/-- A range that exists reads as the number that its bytes write. -/
theorem readUnsigned_of_contains {m : Memory} {address : Int} {length : Nat} (hl : length < 8)
    (h : m.Contains address length) : m.readUnsigned address length =
      .ok (Word.natOfBytes (m.slice address.toNat length)) := by
  have hlength : (m.slice address.toNat length).length < 8 := by rwa [length_slice]
  rw [readUnsigned, dump_of_contains h]
  simp only [Except.map, Word.ofBytes_of_length_lt hlength]

theorem readUnsigned_of_not_contains {m : Memory} {address : Int} {length : Nat}
    (h : ¬ m.Contains address length) :
    m.readUnsigned address length = .error (outside address length) := by
  rw [readUnsigned, dump, locate_of_not_contains h]
  rfl

/-! ## Reading fields -/

/-- A range that exists and holds the bytes of a field reads as its unsigned value. -/
theorem readUnsigned_of_slice {m : Memory} {start length : Nat} {v : Int} (hl : length < 8)
    (hin : start + length ≤ m.size) (h : m.slice start length = Word.toBytes v length) :
    m.readUnsigned start length = .ok (Word.unsigned v length) := by
  have hloc : m.locate start length = .ok start := locate_eq_ok_iff.2 ⟨rfl, hin⟩
  rw [readUnsigned, dump, hloc]
  simp only [Except.map, h, Word.ofBytes_toBytes v hl]

/-- A range that exists and holds the bytes of a field reads as its signed value. -/
theorem read_of_slice {m : Memory} {start length : Nat} {v : Int} (hl : length < 8)
    (hin : start + length ≤ m.size) (h : m.slice start length = Word.toBytes v length) :
    m.read start length = .ok (Word.signed v length) := by
  rw [read, readUnsigned_of_slice hl hin h]
  simp only [Except.map, Word.signed_unsigned]

/-- The field of `length` bytes at `address` reads as `v`, either signed or unsigned. -/
def Holds (m : Memory) (address : Int) (length : Nat) (v : Int) : Prop :=
  m.read address length = .ok v ∨ m.readUnsigned address length = .ok v

/-- Where the bytes of a field were put down, the number is found again exactly if the field can
hold it. -/
theorem holds_iff_of_slice {m : Memory} {start length : Nat} {v : Int} (hl : length < 8)
    (hin : start + length ≤ m.size) (h : m.slice start length = Word.toBytes v length) :
    m.Holds start length v ↔ Word.Representable v length := by
  rw [Holds, Word.Representable, read_of_slice hl hin h, readUnsigned_of_slice hl hin h,
    Except.ok.injEq, Except.ok.injEq]

end Breadboard.Memory

namespace Breadboard.Machine

/-! ## Writing fields -/

variable {m : Machine} {address : Int} {length : Nat}

/-- A write to a range that exists puts the bytes of the field there. -/
theorem write_of_contains (h : m.memory.Contains address length) (v : Int) :
    m.write address length v = (.ok (), m.store address.toNat (Word.toBytes v length)) := by
  rw [write, Memory.locate_of_contains h]

/-- A write to a range that does not exist is refused, and then nothing has happened. -/
theorem write_of_not_contains (h : ¬ m.memory.Contains address length) (v : Int) :
    m.write address length v = (.error (Memory.outside address length), m) := by
  rw [write, Memory.locate_of_not_contains h]

end Breadboard.Machine
