import Breadboard.Proofs.Memory
import Breadboard.Proofs.Processor.Fetch

/-!
# Fetches that fail

Before an instruction does anything, a step can fail in three ways: the opcode is not in memory, no
instruction has it, or the operand is not in memory. Where the program counter does not update the
status, each of them is told by what memory contains at two addresses, and the machine is left as it
was or with the program counter past the opcode (`pastOpcode`). `step_of_manual_pc` says what a step
does in every case: one of the three failures, or the behaviour of the instruction.
-/

namespace Breadboard.Architecture

variable {arch : Architecture} {m m' : Machine}

/-! ## Where a step stops -/

theorem step_of_readUnsigned_error {e : BoundsError}
    (h : m.memory.readUnsigned (arch.pcOf m) arch.sizes.opcode = .error e) :
    arch.step m = (.error (.memory e), m.record (.fetch (arch.pcOf m))) := by
  simp only [step, memory_record, h]

theorem step_of_instruction?_none {opcode : Int}
    (h : m.memory.readUnsigned (arch.pcOf m) arch.sizes.opcode = .ok opcode)
    (hnone : arch.instruction? opcode = none) :
    arch.step m = (.error (.invalidOpcode (arch.pcOf m) opcode),
      arch.advance arch.sizes.opcode (m.record (.fetch (arch.pcOf m)))) := by
  simp only [step, memory_record, h, hnone]
  rfl

theorem step_of_fetchOperand_error {opcode : Int} {i : Instruction arch.modes.length}
    {e : BoundsError} (h : m.memory.readUnsigned (arch.pcOf m) arch.sizes.opcode = .ok opcode)
    (hi : arch.instruction? opcode = some i)
    (hoperand : arch.fetchOperand i
      (arch.advance arch.sizes.opcode (m.record (.fetch (arch.pcOf m)))) = (.error e, m')) :
    arch.step m = (.error (.memory e), m') := by
  rw [advance, pcOf_record] at hoperand
  simp only [step, memory_record, h, hi, hoperand]

/-! ## The program counter past the opcode -/

/-- The machine after the opcode was fetched: the program counter alone has changed, to what remains
of the next address in its field, and the fetch and the new program counter were told. -/
def pastOpcode (arch : Architecture) (pc : Register) (m : Machine) : Machine :=
  let past := pc.format.fit (arch.pcOf m + arch.sizes.opcode) pc.size
  { m with
    cpu := { m.cpu with registers := m.cpu.registers.set arch.pc { pc with value := past } }
    journal := .register arch.pc past :: .fetch (arch.pcOf m) :: m.journal }

variable {pc : Register}

/-- The program counter does not update the status, so moving it moves nothing else. -/
theorem advance_opcode (harch : arch.Checked) (hpc : arch.registers[arch.pc]? = some pc)
    (hmanual : pc.status = .manual)
    (hregisters : m.cpu.registers.map (·.toRegister) = arch.registers) :
    arch.advance arch.sizes.opcode (m.record (.fetch (arch.pcOf m))) = arch.pastOpcode pc m ∧
      arch.pcOf (arch.pastOpcode pc m) =
        pc.format.fit (arch.pcOf m + arch.sizes.opcode) pc.size := by
  obtain ⟨pc', hpc', hkind⟩ := harch.exists_pc
  obtain rfl : pc = pc' := Option.some.inj (hpc.symm.trans hpc')
  rw [← hregisters, List.getElem?_map, Option.map_eq_some_iff] at hpc
  obtain ⟨r, hr, rfl⟩ := hpc
  have hstatus : r.kind ≠ .status := by
    rw [hkind]
    decide
  have hauto : r.status ≠ .auto := by
    rw [hmanual]
    decide
  have hset := Cpu.setRegister_of_manual hr hstatus hauto (arch.pcOf m + arch.sizes.opcode)
  constructor
  · show (m.record _).adopt (m.cpu.setRegister arch.pc (arch.pcOf m + arch.sizes.opcode)) = _
    rw [hset]
    rfl
  · obtain ⟨hlt, -⟩ := List.getElem?_eq_some_iff.1 hr
    show (((m.cpu.registers.set arch.pc _)[arch.pc]?).map (·.value)).getD 0 = _
    rw [List.getElem?_set_self hlt]
    rfl

/-! ## What a step does -/

/-- The operand of an instruction is fetched, with its sign, exactly if it is in memory. -/
theorem fetchOperand_of_mode (harch : arch.Checked) {i : Instruction arch.modes.length}
    {k : Fin arch.modes.length} (hk : i.mode = some k) :
    let size := (arch.mode k).size
    let address := arch.pcOf m
    (¬ m.memory.Contains address size →
      arch.fetchOperand i m = (.error (Memory.outside address size), m)) ∧
    (m.memory.Contains address size →
      arch.fetchOperand i m =
        (.ok (some ⟨k, Word.signed (Word.natOfBytes (m.memory.slice address.toNat size)) size,
          size⟩), arch.advance size m)) := by
  intro size address
  have hwidest : Draft.widest = 4 := rfl
  have hsize : size ≤ Draft.widest := harch.mode_size (arch.mode k) (List.get_mem _ _)
  constructor
  · intro hout
    have hread : m.memory.read address size = .error (Memory.outside address size) := by
      rw [Memory.read, Memory.readUnsigned_of_not_contains hout]
      rfl
    simp only [fetchOperand, hk, address, size] at hread ⊢
    rw [hread]
  · intro hin
    have hread : m.memory.read address size =
        .ok (Word.signed (Word.natOfBytes (m.memory.slice address.toNat size)) size) := by
      rw [Memory.read, Memory.readUnsigned_of_contains (by omega) hin]
      rfl
    simp only [fetchOperand, hk, address, size] at hread ⊢
    rw [hread]
    rfl

/-- Take an accepted architecture whose program counter does not update the status, and a machine
with its registers and any memory. If the opcode is not in memory, then the step fails with the
bounds error of that access, and nothing has changed. If no instruction has the opcode that is
there, read without a sign, then the step fails with it and the address of the fetch, and the
program counter alone has changed, to what remains of the address behind the opcode. If the operand
of the instruction is not in memory at that address, then the step fails with the bounds error of
that access in the same machine. In no other case does a step fail before the behaviour of the
instruction runs. The journal tells of the fetch and of the new program counter, but of no write. -/
theorem step_of_manual_pc {d : Draft} (hbuild : d.build = .ok arch)
    (hpc : arch.registers[arch.pc]? = some pc) (hmanual : pc.status = .manual)
    (hregisters : m.cpu.registers.map (·.toRegister) = arch.registers) :
    let start := arch.pcOf m
    let width := arch.sizes.opcode
    let opcode : Int := Word.natOfBytes (m.memory.slice start.toNat width)
    let past := pc.format.fit (start + width) pc.size
    let opened := arch.pastOpcode pc m
    (¬ m.memory.Contains start width →
      arch.step m = (.error (.memory (Memory.outside start width)), m.record (.fetch start))) ∧
    (m.memory.Contains start width → (∀ i ∈ arch.instructions, i.opcode ≠ opcode) →
      arch.step m = (.error (.invalidOpcode start opcode), opened)) ∧
    ∀ i ∈ arch.instructions, m.memory.Contains start width → i.opcode = opcode →
      (i.mode = none → arch.step m = i.execute none opened) ∧
      ∀ k, i.mode = some k →
        let size := (arch.mode k).size
        (¬ m.memory.Contains past size →
          arch.step m = (.error (.memory (Memory.outside past size)), opened)) ∧
        (m.memory.Contains past size →
          let value := Word.signed (Word.natOfBytes (m.memory.slice past.toNat size)) size
          arch.step m = i.execute (some ⟨k, value, size⟩) (arch.advance size opened)) := by
  intro start width opcode past opened
  have harch := checked_of_build hbuild
  have hwidest : Draft.widest = 4 := rfl
  have hwidth : width ≤ Draft.widest := harch.opcode_size.2
  obtain ⟨hopened, hpast⟩ := advance_opcode harch hpc hmanual hregisters
  have hread : m.memory.Contains start width →
      m.memory.readUnsigned (arch.pcOf m) arch.sizes.opcode = .ok opcode :=
    Memory.readUnsigned_of_contains (by omega)
  refine ⟨?_, ?_, ?_⟩
  · intro hout
    exact step_of_readUnsigned_error (Memory.readUnsigned_of_not_contains hout)
  · intro hin hunknown
    have hnone : arch.instruction? opcode = none := by
      rw [instruction?, List.find?_eq_none]
      intro i hi
      simpa using hunknown i hi
    rw [step_of_instruction?_none (hread hin) hnone, hopened]
  · intro i hi hin hopcode
    have hfound : arch.instruction? opcode = some i := by
      rw [← hopcode]
      exact harch.instruction?_opcode hi
    constructor
    · intro hmode
      apply step_of_fetch (hread hin) hfound
      rw [hopened, fetchOperand, hmode]
    · intro k hk size
      -- the operand is fetched in the machine whose program counter is past the opcode
      obtain ⟨hfails, hfetches⟩ := fetchOperand_of_mode (m := opened) harch hk
      rw [hpast] at hfails hfetches
      constructor
      · intro hout
        apply step_of_fetchOperand_error (hread hin) hfound
        rw [hopened]
        exact hfails hout
      · intro hthere value
        apply step_of_fetch (hread hin) hfound
        rw [hopened]
        exact hfetches hthere

theorem step_of_manual_pc_edu1 :
    let fresh (cells : Array UInt8) : Machine :=
      { cpu := Edu1.architecture.freshCpu, memory := ⟨cells⟩ }
    (Edu1.architecture.step (fresh #[])).1 = .error (.memory ⟨0, 1, .pastEnd⟩) ∧
      (Edu1.architecture.step (fresh #[0x70])).1 = .error (.invalidOpcode 0 0x70) ∧
      (Edu1.architecture.step (fresh #[0x01])).1 = .error (.memory ⟨1, 1, .pastEnd⟩) := by
  intro fresh
  have hstep (cells : Array UInt8) :=
    step_of_manual_pc (m := fresh cells) Edu1.build_draft rfl rfl rfl
  refine ⟨?_, ?_, ?_⟩
  · obtain ⟨houtside, -, -⟩ := hstep #[]
    rw [houtside (by decide)]
    rfl
  · obtain ⟨-, hunknown, -⟩ := hstep #[0x70]
    rw [hunknown (by decide) (by decide)]
    rfl
  · obtain ⟨-, -, hknown⟩ := hstep #[0x01]
    obtain ⟨-, hoperand⟩ := hknown _ List.mem_cons_self (by decide) (by decide)
    obtain ⟨houtside, -⟩ := hoperand _ rfl
    rw [houtside (by decide)]
    rfl

end Breadboard.Architecture
