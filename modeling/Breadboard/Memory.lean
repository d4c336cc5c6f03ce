import Breadboard.Word

/-!
# Memory

A memory is a fixed number of byte cells. An access covers a range of cells and is refused as a
whole when one of them does not exist, so there is no partial read and no partial write
(`locate_eq_ok_iff` says when it is not refused). Reading a range gives one byte per cell
(`length_slice`). Writing keeps the size (`size_overlay`) and changes the cells of the range and no
others (`cell_overlay`).
-/

namespace Breadboard

/-- Which end of memory an access goes past. -/
inductive BoundsViolation where
  | negativeAddress
  | pastEnd
  deriving DecidableEq, Repr

/-- An access to cells that do not exist. -/
structure BoundsError where
  address : Int
  length : Nat
  violation : BoundsViolation
  deriving DecidableEq, Repr

/-- The text of the violation. -/
def BoundsViolation.message : BoundsViolation → String
  | .negativeAddress => "negative address"
  | .pastEnd => "out of memory"

/-- The text of the error. -/
def BoundsError.message (e : BoundsError) : String :=
  s!"{e.violation.message}: {e.length} byte(s) at address {e.address}"

/-- Byte cells, numbered from zero. -/
structure Memory where
  cells : Array UInt8
  deriving DecidableEq, Repr

namespace Memory

/-- A memory of `size` zero bytes. -/
def zeroed (size : Nat) : Memory := ⟨Array.replicate size 0⟩

/-- The number of cells. -/
def size (m : Memory) : Nat := m.cells.size

/-- The byte in cell `i`, and zero where there is no cell. -/
def cell (m : Memory) (i : Nat) : UInt8 := m.cells[i]?.getD 0

/-- The first cell of the range of `length` bytes at `address`, if all of the range exists. -/
def locate (m : Memory) (address : Int) (length : Nat) : Except BoundsError Nat :=
  if address < 0 then .error ⟨address, length, .negativeAddress⟩
  else if address.toNat + length ≤ m.size then .ok address.toNat
  else .error ⟨address, length, .pastEnd⟩

/-- The bytes of `length` cells from `start` on. -/
def slice (m : Memory) (start length : Nat) : List UInt8 :=
  (List.range' start length).map m.cell

/-- Puts `bytes` into the cells from `start` on; bytes for which there is no cell are lost. -/
def overlay (m : Memory) (start : Nat) : List UInt8 → Memory
  | [] => m
  | b :: bytes => overlay ⟨m.cells.setIfInBounds start b⟩ (start + 1) bytes

/-- The bytes of a range. -/
def dump (m : Memory) (address : Int) (length : Nat) : Except BoundsError (List UInt8) :=
  (m.locate address length).map fun start => m.slice start length

/-- The unsigned number stored in a range, most significant byte first. -/
def readUnsigned (m : Memory) (address : Int) (length : Nat) : Except BoundsError Int :=
  (m.dump address length).map Word.ofBytes

/-- The signed number stored in a range, most significant byte first. -/
def read (m : Memory) (address : Int) (length : Nat) : Except BoundsError Int :=
  (m.readUnsigned address length).map (Word.signed · length)

/-- The byte at `address`. -/
def byte (m : Memory) (address : Int) : Except BoundsError UInt8 :=
  (m.locate address 1).map m.cell

/-- The same number of cells, all zero. -/
def cleared (m : Memory) : Memory := zeroed m.size

/-! ## What the operations do to single cells -/

@[simp] theorem size_zeroed (n : Nat) : (zeroed n).size = n := by
  simp [zeroed, size]

@[simp] theorem size_cleared (m : Memory) : m.cleared.size = m.size := by
  simp [cleared]

@[simp] theorem cell_zeroed (n i : Nat) : (zeroed n).cell i = 0 := by
  by_cases h : i < n <;> simp [zeroed, cell, h]

/-- A range exists when it does not begin before the first cell and does not end after the last. -/
theorem locate_eq_ok_iff {m : Memory} {address : Int} {length start : Nat} :
    m.locate address length = .ok start ↔ address = start ∧ start + length ≤ m.size := by
  unfold locate
  split
  · simp
    omega
  · split
    · simp only [Except.ok.injEq]
      omega
    · simp
      omega

@[simp] theorem length_slice (m : Memory) (start length : Nat) :
    (m.slice start length).length = length := by
  simp [slice]

/-- Writing keeps the number of cells. -/
@[simp] theorem size_overlay (m : Memory) (start : Nat) (bytes : List UInt8) :
    (m.overlay start bytes).size = m.size := by
  induction bytes generalizing m start with
  | nil => rfl
  | cons b bytes ih => rw [overlay, ih]; simp [size]

theorem cell_setIfInBounds (m : Memory) (start : Nat) (b : UInt8) (i : Nat) :
    (Memory.mk (m.cells.setIfInBounds start b)).cell i =
      if i = start ∧ i < m.size then b else m.cell i := by
  rw [cell, cell, Array.getElem?_setIfInBounds, size]
  by_cases h : start = i
  · subst h
    by_cases hi : start < m.cells.size <;> simp [hi]
  · simp [h, Ne.symm h]

/-- Writing changes the cells of the range, as far as they exist, and no others. -/
theorem cell_overlay (m : Memory) (start : Nat) (bytes : List UInt8) (i : Nat) :
    (m.overlay start bytes).cell i =
      if start ≤ i ∧ i < m.size then (bytes[i - start]?).getD (m.cell i) else m.cell i := by
  induction bytes generalizing m start with
  | nil => simp [overlay]
  | cons b bytes ih =>
    have hsize : (Memory.mk (m.cells.setIfInBounds start b)).size = m.size := by simp [size]
    rw [overlay, ih, hsize, cell_setIfInBounds]
    rcases Nat.lt_trichotomy i start with h | rfl | h
    · rw [if_neg (by omega), if_neg (by omega), if_neg (by omega)]
    · rw [if_neg (by omega)]
      by_cases hi : i < m.size <;> simp [hi]
    · obtain ⟨k, rfl⟩ := Nat.exists_eq_add_of_lt h
      have hk : start + k + 1 - start = start + k + 1 - (start + 1) + 1 := by omega
      rw [if_neg (show ¬(start + k + 1 = start ∧ start + k + 1 < m.size) by omega), hk,
        List.getElem?_cons_succ]
      by_cases hi : start + k + 1 < m.size
      · simp [hi]
        omega
      · simp [hi]

end Memory

end Breadboard
