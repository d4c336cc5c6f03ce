import Breadboard.Processor
import Breadboard.Proofs.Architecture.Checks
import Breadboard.Proofs.Assembler.Loading
import Breadboard.Proofs.Cpu

/-!
# Fetching what was assembled

The assembler and the processor agree on how an instruction is encoded. A step fetches the opcode at
the program counter, looks the instruction up and fetches its operand, and only then does the
behaviour run. Where memory holds the bytes of an instruction line, all this leads back to the line:
its opcode, the instruction that it selects, and its operand (`step_of_encoded`). The bytes of a
line are in memory after the program was loaded, unless a later line stores a byte over them, so a
processor whose program counter is at the line executes the line (`step_of_load`).
-/

namespace Breadboard

/-- Carries out an instruction with its operand; the result is the end latch. -/
def Instruction.execute {modes : Nat} (i : Instruction modes) (operand : Option Operand)
    (m : Machine) : Except ExecError Bool × Machine :=
  match (i.behaviour operand).run m with
  | (.error e, m) => (.error e, m)
  | (.ok (), m) => (.ok m.cpu.ended, m)

/-- The operand of an instruction line as the processor hands it to the behaviour: the same
addressing mode and width, and the value as a signed number of that width. -/
def CodeLine.fetched (c : CodeLine) : Option Operand :=
  c.operand.map fun o => { mode := o.mode, value := Word.signed o.value o.size, size := o.size }

namespace Architecture

/-- Moves the program counter past `size` bytes. -/
def advance (arch : Architecture) (size : Nat) (m : Machine) : Machine :=
  arch.setPc m (arch.pcOf m + size)

/-- The machine after the fetch of an instruction line was announced and the program counter was
moved past the opcode and then past the operand. -/
def afterFetch (arch : Architecture) (c : CodeLine) (m : Machine) : Machine :=
  let m := arch.advance c.size (m.record (.fetch (arch.pcOf m)))
  c.operand.elim m fun o => arch.advance o.size m

/-- The machine has the registers of the architecture, and the program counter among them is
unsigned and has `width` bytes. -/
structure Fits (arch : Architecture) (width : Nat) (m : Machine) : Prop where
  registers : m.cpu.registers.map (·.toRegister) = arch.registers
  counter : ∃ pc, arch.registers[arch.pc]? = some pc ∧ pc.kind = .programCounter ∧
    pc.format = .unsigned ∧ pc.size = width

/-- Memory holds the bytes of an instruction line at `start`. -/
structure Encoded (memory : Memory) (start : Nat) (c : CodeLine) (opcode : Int) : Prop where
  inside : start + c.footprint ≤ memory.size
  opcode : memory.slice start c.size = Word.toBytes opcode c.size
  operand : ∀ o, c.operand = some o →
    memory.slice (start + c.size) o.size = Word.toBytes o.value o.size

variable {arch : Architecture} {width : Nat} {m : Machine}

/-! ## Moving the program counter -/

@[simp] theorem pcOf_record (m : Machine) (e : Event) : arch.pcOf (m.record e) = arch.pcOf m := rfl

@[simp] theorem memory_record (m : Machine) (e : Event) : (m.record e).memory = m.memory := rfl

theorem Fits.record (h : arch.Fits width m) (e : Event) : arch.Fits width (m.record e) :=
  ⟨h.registers, h.counter⟩

@[simp] theorem memory_advance (size : Nat) (m : Machine) :
    (arch.advance size m).memory = m.memory := rfl

theorem memory_afterFetch (c : CodeLine) (m : Machine) :
    (arch.afterFetch c m).memory = m.memory := by
  rw [afterFetch]
  cases c.operand with
  | none => rfl
  | some o => rfl

/-- Moving the program counter keeps the registers that there are. -/
theorem Fits.setPc (h : arch.Fits width m) (address : Int) :
    arch.Fits width (arch.setPc m address) := by
  refine ⟨?_, h.counter⟩
  have htables := Cpu.tables_setRegister m.cpu arch.pc address
  have hregisters := congrArg Prod.fst htables
  exact hregisters.trans h.registers

theorem Fits.advance (h : arch.Fits width m) (size : Nat) :
    arch.Fits width (arch.advance size m) := h.setPc _

/-- The program counter holds what remains of the new address in its field. -/
theorem Fits.pcOf_setPc (h : arch.Fits width m) (address : Int) :
    arch.pcOf (arch.setPc m address) = Word.unsigned address width := by
  obtain ⟨pc, hpc, hkind, hformat, rfl⟩ := h.counter
  rw [← h.registers, List.getElem?_map, Option.map_eq_some_iff] at hpc
  obtain ⟨r, hr, rfl⟩ := hpc
  -- the program counter is no status register, so it holds what was stored in it
  have hstatus : r.kind ≠ .status := by
    rw [hkind]
    decide
  have hput := Cpu.getElem?_registers_setRegister hr hstatus address
  have hvalue : (r.put address).value = Word.unsigned address r.size := by
    rw [RegisterCell.put, hformat]
    rfl
  show ((m.cpu.setRegister arch.pc address).cpu.registers[arch.pc]?.map (·.value)).getD 0 = _
  rw [hput, Option.map_some, Option.getD_some, hvalue]

theorem Fits.pcOf_advance (h : arch.Fits width m) (size : Nat) :
    arch.pcOf (arch.advance size m) = Word.unsigned (arch.pcOf m + size) width := h.pcOf_setPc _

/-! ## Opcode and operand -/

/-- A step that finds an instruction at the program counter and its operand behind the opcode
carries the instruction out. -/
theorem step_of_fetch {opcode : Int} {i : Instruction arch.modes.length} {operand : Option Operand}
    {m' : Machine} (hread : m.memory.readUnsigned (arch.pcOf m) arch.sizes.opcode = .ok opcode)
    (hi : arch.instruction? opcode = some i)
    (hoperand : arch.fetchOperand i
      (arch.advance arch.sizes.opcode (m.record (.fetch (arch.pcOf m)))) = (.ok operand, m')) :
    arch.step m = i.execute operand m' := by
  -- announcing the fetch changes neither memory nor the program counter
  have hread' : (m.record (.fetch (arch.pcOf m))).memory.readUnsigned (arch.pcOf m)
      arch.sizes.opcode = .ok opcode := hread
  have hoperand' : arch.fetchOperand i (arch.setPc (m.record (.fetch (arch.pcOf m)))
      (arch.pcOf m + arch.sizes.opcode)) = (.ok operand, m') := hoperand
  simp only [step, hread', hi, hoperand']
  rfl

/-- The operand of the instruction that a line selects is fetched as the line has it. -/
theorem fetchOperand_of_selects {c : CodeLine} {i : Instruction arch.modes.length}
    (hi : arch.Selects c i)
    (hread : ∀ o, c.operand = some o →
      m.memory.read (arch.pcOf m) o.size = .ok (Word.signed o.value o.size)) :
    arch.fetchOperand i m =
      (.ok c.fetched, c.operand.elim m fun o => arch.advance o.size m) := by
  have hoperand := hi.operand
  -- the instruction has an addressing mode exactly if the line has an operand
  cases ho : c.operand with
  | none =>
    rw [ho, Option.map_none, eq_comm, Option.map_eq_none_iff] at hoperand
    simp [fetchOperand, hoperand, CodeLine.fetched, ho]
  | some o =>
    rw [ho, Option.map_some, eq_comm, Option.map_eq_some_iff] at hoperand
    obtain ⟨k, hk, hkey⟩ := hoperand
    obtain ⟨hmode, hsize⟩ := Prod.mk.inj hkey
    simp only [fetchOperand, hk, hsize, hread o ho, CodeLine.fetched, ho, Option.map_some,
      Option.elim_some, hmode]
    rfl

/-- Where the program counter was moved past the opcode, the operand is read as the line has it. If
the opcode ends with memory, then the program counter may have wrapped, but the operand has no
byte. -/
theorem read_operand {start : Nat} {c : CodeLine} {opcode : Int} {o : SourceOperand}
    (hwidth : width < 8) (hnarrow : o.size < 8) (hroom : m.memory.size ≤ Word.modulus width)
    (h : Encoded m.memory start c opcode) (ho : c.operand = some o) :
    m.memory.read (Word.unsigned (start + c.size) width) o.size =
      .ok (Word.signed o.value o.size) := by
  have hinside : start + (c.size + o.size) ≤ m.memory.size := by
    simpa [CodeLine.footprint, ho] using h.inside
  -- either the program counter is the address of the operand, or it wrapped to zero
  rcases Nat.lt_or_ge (start + c.size) (Word.modulus width) with hlt | hge
  · have hpc : Word.unsigned (start + c.size) width = ((start + c.size : Nat) : Int) := by
      rw [Word.unsigned_of_lt (by omega) (by omega), Nat.cast_add]
    rw [hpc]
    exact Memory.read_of_slice hnarrow (by omega) (h.operand o ho)
  · have hend : start + c.size = Word.modulus width := by omega
    have hempty : o.size = 0 := by omega
    have hpc : Word.unsigned (start + c.size) width = ((0 : Nat) : Int) := by
      rw [Word.unsigned, if_pos hwidth, ← Nat.cast_add, hend, Int.emod_self, Nat.cast_zero]
    rw [hpc, hempty]
    exact Memory.read_of_slice (by decide) (Nat.zero_le _) rfl

/-- The program counter is past the line after the fetch. -/
theorem Fits.pcOf_afterFetch (h : arch.Fits width m) (c : CodeLine) :
    arch.pcOf (arch.afterFetch c m) = Word.unsigned (arch.pcOf m + c.footprint) width := by
  have hopened := (h.record (.fetch (arch.pcOf m))).pcOf_advance c.size
  rw [pcOf_record] at hopened
  cases ho : c.operand with
  | none =>
    have hfootprint : c.footprint = c.size := by simp [CodeLine.footprint, ho]
    rw [afterFetch, ho, hfootprint]
    exact hopened
  | some o =>
    have hfootprint : c.footprint = c.size + o.size := by simp [CodeLine.footprint, ho]
    -- cutting off after the opcode does not matter to the sum
    have hpast := ((h.record (.fetch (arch.pcOf m))).advance c.size).pcOf_advance o.size
    rw [hopened, Word.unsigned_unsigned_add, add_assoc, ← Nat.cast_add] at hpast
    rw [afterFetch, ho, hfootprint]
    exact hpast

/-- Where memory holds the bytes of an instruction line, a step at the line fetches its opcode and
its operand and carries out the instruction that the line selects. -/
theorem step_of_encoded (harch : arch.Checked) (hfits : arch.Fits width m) (hwidth : width < 8)
    (hroom : m.memory.size ≤ Word.modulus width) {start : Nat} {c : CodeLine}
    {i : Instruction arch.modes.length} (hi : arch.Selects c i)
    (h : Encoded m.memory start c i.opcode) (hpc : arch.pcOf m = start) :
    m.memory.readUnsigned (arch.pcOf m) arch.sizes.opcode = .ok i.opcode ∧
      arch.step m = i.execute c.fetched (arch.afterFetch c m) := by
  have hwidest : Draft.widest = 4 := rfl
  have hopcode := harch.opcode_size
  have hsize := hi.size
  have hinside := h.inside
  have hlast : c.size ≤ c.footprint := Nat.le_add_right _ _
  -- the opcode fits its field, so it is read as it was written
  have hread : m.memory.readUnsigned (arch.pcOf m) arch.sizes.opcode = .ok i.opcode := by
    have hfit : Word.unsigned i.opcode arch.sizes.opcode = i.opcode := by
      simpa [Word.fitsUnsigned] using harch.opcode_fits i hi.mem
    have hraw := Memory.readUnsigned_of_slice (by omega) (by omega) h.opcode
    rw [hpc, ← hsize, hraw, hsize, hfit]
  refine ⟨hread, ?_⟩
  have hopened := (hfits.record (.fetch (arch.pcOf m))).pcOf_advance c.size
  rw [pcOf_record] at hopened
  apply step_of_fetch hread (harch.instruction?_opcode hi.mem)
  rw [← hsize]
  apply fetchOperand_of_selects hi
  intro o ho
  -- the operand is read in the machine whose program counter is past the opcode
  rw [hopened, memory_advance, memory_record, hpc]
  obtain ⟨k, hk⟩ := hi.exists_mode ho
  have hnarrow := harch.mode_size (arch.mode k) (List.get_mem _ _)
  exact read_operand hwidth (by omega) hroom h ho

/-! ## Loaded programs -/

/-- A line that was put down in memory is encoded there. -/
theorem encoded_of_slice {memory : Memory} {start : Nat} {l : Line} {c : CodeLine} {opcode : Int}
    (hcode : l.body = .code c) (hopcode : c.opcode = some opcode)
    (hinside : start + l.footprint ≤ memory.size)
    (hslice : memory.slice start l.footprint = l.bytes) : Encoded memory start c opcode := by
  have hfootprint : l.footprint = c.footprint := by rw [Line.footprint, hcode]
  rw [hfootprint] at hinside hslice
  obtain ⟨mnemonic, size, relative, operand, opcode'⟩ := c
  subst hopcode
  cases operand with
  | none =>
    have hbytes : l.bytes = Word.toBytes opcode size := by simp [Line.bytes, hcode]
    rw [hbytes] at hslice
    exact ⟨hinside, hslice, by simp⟩
  | some o =>
    have hbytes : l.bytes = Word.toBytes opcode size ++ Word.toBytes o.value o.size := by
      simp [Line.bytes, hcode]
    have htwo : memory.slice start size ++ memory.slice (start + size) o.size =
        Word.toBytes opcode size ++ Word.toBytes o.value o.size := by
      rw [← Memory.slice_append, ← hbytes, ← hslice]
      rfl
    -- both parts have as many bytes as their fields, so the two halves agree
    obtain ⟨hfirst, hsecond⟩ := List.append_inj htwo (by simp)
    refine ⟨hinside, hfirst, ?_⟩
    rintro o' ho'
    obtain rfl := Option.some.inj ho'
    exact hsecond

/-- After a program was loaded into the memory that it was assembled for, a line that no later line
stores a byte over is encoded at its address. -/
theorem encoded_of_load {source : String} {m₀ m₁ : Machine} {entry : Int}
    (hload : (Program.assemble arch source m₀.memory.size).load m₀ = (.ok entry, m₁))
    {front back : List Line} {l : Line} {c : CodeLine}
    (hlines : (Program.assemble arch source m₀.memory.size).lines = front ++ l :: back)
    (hcode : l.body = .code c) (hkept : ∀ k ∈ back, ∀ i, l.Covers i → ¬ k.Covers i) :
    m₁.memory.size = m₀.memory.size ∧ ∃ (start : Nat) (i : Instruction arch.modes.length),
      l.address = some (start : Int) ∧ arch.Selects c i ∧
        Encoded m₁.memory start c i.opcode := by
  have hl : l ∈ (Program.assemble arch source m₀.memory.size).lines := by simp [hlines]
  have hstored : l.isStored = true := by rw [Line.isStored, hcode]
  obtain ⟨hok, -⟩ := Program.writeAll_of_load hload
  obtain ⟨i, hi⟩ := exists_selects_of_mem_lines hl hcode (hok l hl)
  -- the later lines keep the bytes of the line
  obtain ⟨hsize, start, haddress, hfit, hslice⟩ :=
    Program.slice_of_load hload hlines hstored hkept
  exact ⟨hsize, start, i, haddress, hi,
    encoded_of_slice hcode hi.opcode (by rw [hsize]; exact hfit) hslice⟩

/-- Take an accepted architecture with an unsigned program counter, a program that was loaded into a
memory no larger than the program counter reaches, and an instruction line of the program that no
later line stores a byte over. A processor whose program counter is at the line fetches the opcode
of the line, finds the instruction with that opcode, which has the mnemonic of the line, and hands
its behaviour the operand of the line, in a machine with the same memory whose program counter is
past the line. -/
theorem step_of_load {d : Draft} (hbuild : d.build = .ok arch) {pc : Register}
    (hpc : arch.registers[arch.pc]? = some pc) (hformat : pc.format = .unsigned)
    {source : String} {m₀ m₁ : Machine} {entry : Int}
    (hroom : m₀.memory.size ≤ Word.modulus pc.size)
    (hload : (Program.assemble arch source m₀.memory.size).load m₀ = (.ok entry, m₁))
    {front back : List Line} {l : Line} {c : CodeLine}
    (hlines : (Program.assemble arch source m₀.memory.size).lines = front ++ l :: back)
    (hcode : l.body = .code c) (hkept : ∀ k ∈ back, ∀ i, l.Covers i → ¬ k.Covers i)
    (hregisters : m.cpu.registers.map (·.toRegister) = arch.registers)
    (hmemory : m.memory = m₁.memory) (haddress : l.address = some (arch.pcOf m)) :
    ∃ opcode i, c.opcode = some opcode ∧
      m.memory.readUnsigned (arch.pcOf m) arch.sizes.opcode = .ok opcode ∧
      arch.instruction? opcode = some i ∧ i.mnemonic = c.mnemonic ∧
      arch.step m = i.execute c.fetched (arch.afterFetch c m) ∧
      (arch.afterFetch c m).memory = m.memory ∧
      arch.pcOf (arch.afterFetch c m) = Word.unsigned (arch.pcOf m + l.footprint) pc.size := by
  have harch := checked_of_build hbuild
  obtain ⟨pc', hpc', hkind⟩ := harch.exists_pc
  obtain rfl : pc = pc' := Option.some.inj (hpc.symm.trans hpc')
  have hwidest : Draft.widest = 4 := rfl
  have hnarrow := harch.register_size pc (List.mem_of_getElem? hpc)
  have hfits : arch.Fits pc.size m := ⟨hregisters, pc, hpc, hkind, hformat, rfl⟩
  -- the program put the line where the program counter is
  obtain ⟨hsize, start, i, hstart, hi, hencoded⟩ := encoded_of_load hload hlines hcode hkept
  rw [← hmemory] at hsize hencoded
  have hat : arch.pcOf m = start := Option.some.inj (haddress.symm.trans hstart)
  have hfootprint : l.footprint = c.footprint := by rw [Line.footprint, hcode]
  obtain ⟨hread, hstep⟩ :=
    step_of_encoded harch hfits (by omega) (by omega) hi hencoded hat
  refine ⟨i.opcode, i, hi.opcode, hread, harch.instruction?_opcode hi.mem, hi.mnemonic, hstep, ?_,
    ?_⟩
  · exact memory_afterFetch c m
  · rw [hfits.pcOf_afterFetch, hfootprint]

end Architecture

namespace Edu1

/-- A machine with 16 bytes of memory. -/
def blank : Machine := { memory := .zeroed 16, cpu := architecture.freshCpu }

/-- A program of two lines. -/
def twoLines : Program := Program.assemble architecture "LDA 10\n.END\n" blank.memory.size

/-- The first line, at the beginning of memory. -/
def firstLine : Line :=
  { number := 1, text := "LDA 10", address := some 0, argument := "10"
    body := .code
      { mnemonic := "LDA", size := 1, relative := false, opcode := some 1
        operand := some { text := "10", mode := 1, value := 10, size := 1 } } }

/-- The second line, behind the first one. -/
def secondLine : Line :=
  { number := 2, text := ".END", address := some 2
    body := .code { mnemonic := ".END", size := 1, relative := false, opcode := some 255 } }

/-- The machine with the two lines in memory, before any step. -/
def loaded : Machine := (twoLines.load blank).2

theorem not_covers_secondLine (i : Nat) (h : firstLine.Covers i) : ¬ secondLine.Covers i := by
  intro hsecond
  obtain ⟨-, s, hs, -, hlt⟩ := h
  obtain ⟨-, t, ht, hle, -⟩ := hsecond
  have hs0 : (s : Int) = 0 := (Option.some.inj hs).symm
  have ht2 : (t : Int) = 2 := (Option.some.inj ht).symm
  have hwidth : firstLine.footprint = 2 := rfl
  omega

end Edu1

theorem Architecture.step_of_load_edu1 :
    ∃ (i : Instruction Edu1.architecture.modes.length) (m : Machine), i.mnemonic = "LDA" ∧
      Edu1.architecture.step Edu1.loaded = i.execute (some ⟨1, 10, 1⟩) m ∧
      Edu1.architecture.pcOf m = 2 := by
  have hload : Edu1.twoLines.load Edu1.blank = (.ok 0, Edu1.loaded) := by decide
  have hlines : Edu1.twoLines.lines = [] ++ Edu1.firstLine :: [Edu1.secondLine] := by
    decide
  have hkept : ∀ k ∈ [Edu1.secondLine], ∀ i, Edu1.firstLine.Covers i → ¬ k.Covers i := by
    intro k hk i hi
    obtain rfl := List.mem_singleton.1 hk
    exact Edu1.not_covers_secondLine i hi
  have hregisters : Edu1.loaded.cpu.registers.map (·.toRegister) = Edu1.architecture.registers := by
    decide
  have hpc : Edu1.architecture.pcOf Edu1.loaded = 0 := by decide
  have haddress : Edu1.firstLine.address = some (Edu1.architecture.pcOf Edu1.loaded) := by
    rw [hpc]
    rfl
  obtain ⟨opcode, i, -, -, -, hname, hstep, -, hpast⟩ :=
    step_of_load Edu1.build_draft rfl rfl (by decide) hload hlines rfl hkept hregisters
      rfl haddress
  refine ⟨i, _, hname, hstep, hpast.trans ?_⟩
  rw [hpc]
  decide

end Breadboard
