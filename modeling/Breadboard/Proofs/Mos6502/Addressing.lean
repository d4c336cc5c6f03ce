import Breadboard.Proofs.Action
import Breadboard.Proofs.Mos6502.Operands

/-!
# Operands of the 6502 in memory

Most ways of addressing lead to one byte in memory. Its address is found by reading only, and what
is found depends on the index registers and on memory (`run_effectiveAddress_congr`). The address is
cut off to two bytes, so in a memory of 64 KiB the byte exists; and the pointers that are read on
the way exist too, because they are on the first page (`exists_run_effectiveAddress`). An operand
that was read can be written as long as neither the index registers nor the size of memory change
(`exists_run_writeOperand`): both go to the same cell.
-/

namespace Breadboard.Mos6502

variable {m m' : Machine} {o : Operand} {a : Addressing} {address : Int}

/-! ## Kinds of addressing -/

/-- The operand can be read as a byte. -/
def Addressing.isReadable : Addressing → Bool
  | .implied | .indirect => false
  | _ => true

/-- The operand can be written. -/
def Addressing.isWritable : Addressing → Bool
  | .implied | .immediate | .indirect => false
  | _ => true

/-- The operand is a byte in memory. -/
def Addressing.isMemory : Addressing → Bool
  | .implied | .accumulator | .immediate | .indirect => false
  | _ => true

/-- An operand that can be written is the accumulator or a byte in memory. -/
theorem Addressing.isWritable_iff :
    a.isWritable = true ↔ a = .accumulator ∨ a.isMemory = true := by
  cases a <;> decide

/-- An operand that can be read may also stand in the instruction itself. -/
theorem Addressing.isReadable_iff :
    a.isReadable = true ↔ a = .accumulator ∨ a = .immediate ∨ a.isMemory = true := by
  cases a <;> decide

theorem Addressing.isReadable_of_isWritable (h : a.isWritable = true) : a.isReadable = true := by
  rw [isReadable_iff]
  exact (isWritable_iff.1 h).imp_right .inr

theorem Addressing.width_le (a : Addressing) : a.width ≤ 2 := by
  cases a <;> decide

/-- The width is that of the addressing mode in the tables. -/
theorem size_of_mode? {k : Fin modes.length} (h : a.mode? = some k) :
    (architecture.mode k).size = a.width := by
  rw [Addressing.width, h]
  rfl

/-- Only an instruction without an operand has no addressing mode. -/
theorem mode?_eq_none_iff : a.mode? = none ↔ a = .implied := by
  cases a <;> simp [Addressing.mode?]

/-! ## The effective address -/

theorem reads_targetAddress (a : Addressing) (o : Operand) : (targetAddress a o).Reads := by
  cases a with
  | zeroPageX | zeroPageY | absoluteX | absoluteY | indirect => exact fun _ => trivial
  | indirectX | indirectY => exact fun _ _ => trivial
  | _ => trivial

theorem reads_effectiveAddress (a : Addressing) (o : Operand) : (effectiveAddress a o).Reads :=
  (reads_targetAddress a o).bind fun _ => trivial

/-- Only an operand that is no address makes the search for an address fail by itself. -/
theorem unfailing_targetAddress (h : a.isMemory = true ∨ a = .indirect) (o : Operand) :
    (targetAddress a o).Unfailing := by
  cases a with
  | implied | accumulator | immediate => simp [Addressing.isMemory] at h
  | zeroPage | absolute => trivial
  | zeroPageX | zeroPageY | absoluteX | absoluteY | indirect => exact fun _ => trivial
  | indirectX | indirectY => exact fun _ _ => trivial

theorem unfailing_effectiveAddress (h : a.isMemory = true ∨ a = .indirect) (o : Operand) :
    (effectiveAddress a o).Unfailing :=
  (unfailing_targetAddress h o).bind fun _ => trivial

/-- Machines that agree on all that the search for an address looks at. -/
structure SameOperands (m m' : Machine) : Prop where
  memory : m'.memory = m.memory
  x : m'.cpu.register Reg.x.position = m.cpu.register Reg.x.position
  y : m'.cpu.register Reg.y.position = m.cpu.register Reg.y.position

theorem SameOperands.symm (h : SameOperands m m') : SameOperands m' m :=
  ⟨h.memory.symm, h.x.symm, h.y.symm⟩

theorem fst_run_load_congr {α : Type} {address : Int} {length : Nat} {k : Int → Action α}
    (h : m'.memory = m.memory) (hk : ∀ v, ((k v).run m').1 = ((k v).run m).1) :
    ((Action.load address length k).run m').1 = ((Action.load address length k).run m).1 := by
  rw [Action.run, Action.run, h]
  split
  · rfl
  · exact hk _

theorem fst_run_targetAddress_congr (h : SameOperands m m') (a : Addressing) (o : Operand) :
    ((targetAddress a o).run m').1 = ((targetAddress a o).run m).1 := by
  obtain ⟨hmemory, hx, hy⟩ := h
  cases a with
  | zeroPageX | absoluteX =>
    show Except.ok (o.unsigned + (lowByte (m'.cpu.register Reg.x.position) : Int)) = _
    rw [hx]
    rfl
  | zeroPageY | absoluteY =>
    show Except.ok (o.unsigned + (lowByte (m'.cpu.register Reg.y.position) : Int)) = _
    rw [hy]
    rfl
  | indirect => exact fst_run_load_congr hmemory fun _ => rfl
  | indirectX =>
    -- the pointer is found with the index, and then read
    show ((Action.load (Word.unsigned
      (o.unsigned + (lowByte (m'.cpu.register Reg.x.position) : Int)) 1) 2 .done).run m').1 = _
    rw [hx]
    exact fst_run_load_congr hmemory fun _ => rfl
  | indirectY =>
    -- the pointer is read, and then the index is added
    apply fst_run_load_congr hmemory
    intro pointer
    show Except.ok (pointer + (lowByte (m'.cpu.register Reg.y.position) : Int)) = _
    rw [hy]
    rfl
  | _ => rfl

/-- The address that was found in one machine is found in every machine that agrees with it. -/
theorem run_effectiveAddress_congr (h : SameOperands m m')
    (hrun : (effectiveAddress a o).run m = (.ok address, m)) :
    (effectiveAddress a o).run m' = (.ok address, m') := by
  obtain ⟨target, m₁, htarget, haddress⟩ := Action.run_bind_eq_ok_iff.1 hrun
  have hsame := fst_run_targetAddress_congr h a o
  have hkept := (reads_targetAddress a o).run m'
  rw [htarget] at hsame
  have htarget' : (targetAddress a o).run m' = (.ok target, m') := Prod.ext hsame hkept
  obtain ⟨hvalue, -⟩ := Prod.mk.inj haddress
  exact Action.run_bind_eq_ok_iff.2 ⟨target, m', htarget', Prod.ext hvalue rfl⟩

/-- An effective address is the address of one of the first 65536 cells. -/
theorem effectiveAddress_mem (hrun : (effectiveAddress a o).run m = (.ok address, m')) :
    0 ≤ address ∧ address < 65536 := by
  obtain ⟨target, m₁, -, haddress⟩ := Action.run_bind_eq_ok_iff.1 hrun
  obtain ⟨hvalue, -⟩ := Prod.mk.inj haddress
  rw [← Except.ok.inj hvalue]
  exact ⟨Word.unsigned_nonneg _ (by decide), Word.unsigned_lt _ (by decide)⟩

/-! ## Reading and writing the operand -/

theorem readOperand_of_isMemory (h : a.isMemory = true) (o : Operand) :
    readOperand a o = (effectiveAddress a o >>= fun address => Action.loadSigned address 1) := by
  cases a with
  | implied | accumulator | immediate | indirect => contradiction
  | _ => rfl

theorem writeOperand_of_isMemory (h : a.isMemory = true) (o : Operand) (v : Int) :
    writeOperand a o v = (effectiveAddress a o >>= fun address => Action.put address 1 v) := by
  cases a with
  | implied | accumulator | immediate | indirect => contradiction
  | _ => rfl

theorem reads_readOperand (a : Addressing) (o : Operand) : (readOperand a o).Reads := by
  cases a with
  | accumulator => exact fun _ => trivial
  | immediate => trivial
  | _ => exact (reads_effectiveAddress _ o).bind fun _ _ => trivial

theorem unfailing_readOperand (h : a.isReadable = true) (o : Operand) :
    (readOperand a o).Unfailing := by
  rcases Addressing.isReadable_iff.1 h with rfl | rfl | hmemory
  · exact fun _ => trivial
  · trivial
  · rw [readOperand_of_isMemory hmemory]
    exact (unfailing_effectiveAddress (.inl hmemory) o).bind fun _ _ => trivial

theorem unfailing_writeOperand (h : a.isWritable = true) (o : Operand) (v : Int) :
    (writeOperand a o v).Unfailing := by
  rcases Addressing.isWritable_iff.1 h with rfl | hmemory
  · trivial
  · rw [writeOperand_of_isMemory hmemory]
    exact (unfailing_effectiveAddress (.inl hmemory) o).bind fun _ => trivial

/-- A write that fails has changed nothing. -/
theorem atomic_writeOperand (a : Addressing) (o : Operand) (v : Int) :
    (writeOperand a o v).Atomic := by
  have hput (address : Int) : (Action.put address 1 v).Atomic :=
    Action.atomic_store (k := .done ()) trivial
  cases a with
  | accumulator => exact Action.Sure.atomic (x := setReg .a v) trivial
  | _ => exact (reads_effectiveAddress _ o).atomic hput

/-- What was read from memory is there. -/
theorem exists_contains_of_readOperand (h : a.isMemory = true) {v : Int}
    (hrun : (readOperand a o).run m = (.ok v, m')) :
    ∃ address, (effectiveAddress a o).run m = (.ok address, m) ∧ m.memory.Contains address 1 := by
  rw [readOperand_of_isMemory h] at hrun
  obtain ⟨address, m₁, haddress, hload⟩ := Action.run_bind_eq_ok_iff.1 hrun
  obtain rfl := (reads_effectiveAddress a o).eq_of_run haddress
  refine ⟨address, haddress, ?_⟩
  by_contra hout
  rw [Action.loadSigned, Action.run_load_of_not_contains hout] at hload
  simp at hload

/-- A byte in memory is written at its effective address, if that exists. -/
theorem run_writeOperand_of_contains (h : a.isMemory = true)
    (haddress : (effectiveAddress a o).run m = (.ok address, m))
    (hin : m.memory.Contains address 1) (v : Int) :
    (writeOperand a o v).run m = (.ok (), m.store address.toNat (Word.toBytes v 1)) := by
  rw [writeOperand_of_isMemory h]
  refine Action.run_bind_eq_ok_iff.2 ⟨address, m, haddress, ?_⟩
  rw [Action.put, Action.run_store_of_contains hin]
  rfl

/-- It is written nowhere else. -/
theorem exists_store_of_writeOperand (h : a.isMemory = true) {v : Int}
    (hrun : (writeOperand a o v).run m = (.ok (), m')) :
    ∃ address, (effectiveAddress a o).run m = (.ok address, m) ∧
      m' = m.store address.toNat (Word.toBytes v 1) := by
  have hrun' := hrun
  rw [writeOperand_of_isMemory h] at hrun'
  obtain ⟨address, m₁, haddress, hput⟩ := Action.run_bind_eq_ok_iff.1 hrun'
  obtain rfl := (reads_effectiveAddress a o).eq_of_run haddress
  refine ⟨address, haddress, ?_⟩
  by_cases hin : m₁.memory.Contains address 1
  · rw [run_writeOperand_of_contains h haddress hin] at hrun
    exact (Prod.mk.inj hrun).2.symm
  · rw [Action.put, Action.run_store_of_not_contains hin] at hput
    simp at hput

/-- An operand that was read can be written in every machine that agrees on where it is. -/
theorem exists_run_writeOperand (h : a.isWritable = true) {v : Int}
    (hread : (readOperand a o).run m = (.ok v, m)) (hsame : SameOperands m m') (w : Int) :
    ∃ m'', (writeOperand a o w).run m' = (.ok (), m'') := by
  rcases Addressing.isWritable_iff.1 h with rfl | hmemory
  · exact ⟨_, rfl⟩
  · obtain ⟨address, haddress, hin⟩ := exists_contains_of_readOperand hmemory hread
    have hin' : m'.memory.Contains address 1 := by rwa [hsame.memory]
    exact ⟨_, run_writeOperand_of_contains hmemory (run_effectiveAddress_congr hsame haddress)
      hin' w⟩

/-! ## In 64 KiB of memory -/

section Full

variable (hsize : m.memory.size = 65536)
include hsize

/-- The search for an address succeeds: pointers are on the first page. -/
theorem exists_run_effectiveAddress (h : a.isMemory = true) (ho : o.size = a.width) :
    ∃ address, (effectiveAddress a o).run m = (.ok address, m) := by
  have hpage : Word.modulus 1 = 256 := rfl
  -- a pointer on the first page is there
  have hpointer (v : Int) : m.memory.Contains (Word.unsigned v 1) 2 := by
    have hlow := Word.unsigned_nonneg v (w := 1) (by decide)
    have hhigh := Word.unsigned_lt v (w := 1) (by decide)
    exact ⟨hlow, by omega⟩
  have htarget : ∃ target, (targetAddress a o).run m = (.ok target, m) := by
    cases a with
    | implied | accumulator | immediate | indirect => contradiction
    | indirectX => exact ⟨_, Action.run_load_of_contains (by decide) (hpointer _) _⟩
    | indirectY =>
      have hwidth : o.size = 1 := ho
      have hin : m.memory.Contains o.unsigned 2 := by
        rw [Operand.unsigned, hwidth]
        exact hpointer o.value
      exact ⟨_, Action.run_load_of_contains (by decide) hin _⟩
    | _ => exact ⟨_, rfl⟩
  obtain ⟨target, htarget⟩ := htarget
  exact ⟨_, Action.run_bind_eq_ok_iff.2 ⟨target, m, htarget, rfl⟩⟩

theorem contains_of_effectiveAddress (haddress : (effectiveAddress a o).run m = (.ok address, m')) :
    m.memory.Contains address 1 := by
  obtain ⟨hlow, hhigh⟩ := effectiveAddress_mem haddress
  exact ⟨hlow, by omega⟩

theorem exists_run_readOperand (h : a.isReadable = true) (ho : o.size = a.width) :
    ∃ v, (readOperand a o).run m = (.ok v, m) := by
  rcases Addressing.isReadable_iff.1 h with rfl | rfl | hmemory
  · exact ⟨_, rfl⟩
  · exact ⟨_, rfl⟩
  · obtain ⟨address, haddress⟩ := exists_run_effectiveAddress hsize hmemory ho
    have hin := contains_of_effectiveAddress hsize haddress
    have hload := Action.run_load_of_contains (by decide) hin fun v => .done (Word.signed v 1)
    rw [readOperand_of_isMemory hmemory]
    exact ⟨_, Action.run_bind_eq_ok_iff.2 ⟨address, m, haddress, hload⟩⟩

end Full

end Breadboard.Mos6502
