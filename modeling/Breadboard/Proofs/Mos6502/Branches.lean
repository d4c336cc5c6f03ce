import Breadboard.Proofs.Assembler.Labels
import Breadboard.Proofs.Assembler.Relative
import Breadboard.Proofs.Processor.Fetch

/-!
# Branches to labels

Whatever the architecture, a label is resolved completely and exactly. On the 6502 this makes a
branch that is taken go to its label: the assembler encodes the distance from the end of the branch,
and this is what the processor adds to the program counter when it has passed the branch
(`labels_complete_and_exact`).
-/

namespace Breadboard.Mos6502

/-! ## Branches in the tables -/

/-- A branch has an operand of one byte. -/
theorem addressing_of_isRelative : ∀ e ∈ opcodes, e.operation.isRelative = true →
    e.addressing = .zeroPage := by
  decide +kernel

/-- The instruction that a line selects is the entry with its opcode. -/
theorem eq_instruction_of_selects {c : CodeLine} {i : Instruction architecture.modes.length}
    {e : Entry} (hi : architecture.Selects c i) (he : e ∈ opcodes)
    (hopcode : c.opcode = some e.opcode) : i = e.instruction := by
  have harch := Architecture.checked_of_build build_draft
  have hmem : e.instruction ∈ architecture.instructions := List.mem_map_of_mem he
  have hsame : i.opcode = e.instruction.opcode :=
    Option.some.inj (hi.opcode.symm.trans hopcode)
  have hfound := harch.instruction?_opcode hi.mem
  rw [hsame, harch.instruction?_opcode hmem] at hfound
  exact (Option.some.inj hfound).symm

/-- A label that is the operand of a branch is encoded as a distance. -/
theorem relative_of_mem_lines {source : String} {memorySize : Nat} {l : Line} {c : CodeLine}
    {i : Instruction architecture.modes.length} {e : Entry}
    (hl : l ∈ (Program.assemble architecture source memorySize).lines)
    (hbody : l.body = .code c) (hbranch : e.operation.isRelative = true)
    (hi : architecture.Selects c i) (hentry : i = e.instruction) : c.relative = true := by
  obtain ⟨s, state, v, hclassify, -⟩ := Program.exists_classify_of_mem_lines hl hbody
  obtain ⟨-, hrelative, -⟩ := (Architecture.classified_classify s).code _ hclassify
  -- the first instruction of that name is a branch, as all of them are
  obtain ⟨first, hfirst, hflag⟩ := hi.exists_first hrelative
  rw [hflag, hi.relative_of_uniform hfirst (uniform c.mnemonic), hentry]
  exact hbranch

/-- The operand of a branch has one byte. -/
theorem size_of_branch {c : CodeLine} {i : Instruction architecture.modes.length} {e : Entry}
    {o : SourceOperand} (he : e ∈ opcodes) (hbranch : e.operation.isRelative = true)
    (hi : architecture.Selects c i) (hentry : i = e.instruction) (ho : c.operand = some o) :
    o.size = 1 := by
  have hmode : i.mode = Addressing.zeroPage.mode? := by
    rw [hentry, Entry.instruction, addressing_of_isRelative e he hbranch]
  have hoperand := hi.operand
  rw [ho, hmode] at hoperand
  exact (Prod.mk.inj (Option.some.inj hoperand)).2

/-- A branch to a label without a problem is encoded as the distance from its end to the first line
that defines the label, which is in the range of a signed byte. -/
theorem value_of_branch {source : String} {memorySize : Nat} {l : Line} {c : CodeLine}
    {i : Instruction architecture.modes.length} {e : Entry} {a : Int} {o : SourceOperand}
    {name : String} (hsize : (memorySize : Int) ≤ Word.greatest)
    (hl : l ∈ (Program.assemble architecture source memorySize).lines) (herrors : l.errors = [])
    (hbody : l.body = .code c) (he : e ∈ opcodes) (hbranch : e.operation.isRelative = true)
    (hi : architecture.Selects c i) (hentry : i = e.instruction) (ho : c.operand = some o)
    (hlabel : o.label = some name) (haddress : l.address = some a) :
    ∃ k T, (Program.assemble architecture source memorySize).definition? name = some k ∧
      k.address = some T ∧ o.value = T - (a + l.footprint) ∧ Word.signed o.value 1 = o.value := by
  have hwidth := size_of_branch he hbranch hi hentry ho
  have hnone : l.resolvingErrors = [] := by rw [Line.resolvingErrors, herrors, List.filter_nil]
  have hresolves := Program.resolves_of_mem_lines (Architecture.checked_of_build build_draft) hsize
    hl hbody haddress (Resolution.outside_of_errors herrors) ho hlabel (by omega)
  -- each of the three problems would have been found
  cases hdefinition : (Program.assemble architecture source memorySize).definition? name with
  | none =>
    obtain ⟨-, hunknown⟩ := hresolves.unknown hdefinition
    simp [hnone] at hunknown
  | some k =>
    obtain ⟨T, hT⟩ := hresolves.address k hdefinition
    have hrelative := hresolves.relative k T hdefinition hT
      (relative_of_mem_lines hl hbody hbranch hi hentry)
    dsimp only at hrelative
    split at hrelative
    next hfit =>
      refine ⟨k, T, rfl, hT, hrelative.1, ?_⟩
      rw [hwidth, ← Word.fitsSigned_eq_true_iff_weight (by decide) (by decide)] at hfit
      rw [hrelative.1]
      exact eq_of_beq hfit
    next => simp [hnone] at hrelative

/-! ## Taking a branch -/

/-- A branch whose condition holds adds its operand to the program counter. -/
theorem run_branch {e : Entry} {kind : IndicatorKind} {expected : Bool}
    (h : e.operation = .branch kind expected) (o : Operand) {m : Machine}
    (hflag : m.cpu.flag kind = expected) :
    (e.behaviour (some o)).run m =
      (.ok (), architecture.setPc m (architecture.pcOf m + Word.signed o.value o.size)) := by
  have hbehaviour : e.behaviour (some o) = .flag kind fun on =>
      if on = expected then
        .register pc fun v => .edit (.register pc (v + Word.signed o.value o.size)) (.done ())
      else .done () := by
    rw [Entry.behaviour, h]
    rfl
  rw [hbehaviour, Action.run, if_pos hflag]
  rfl

variable {m : Machine}

/-- The program counter of a machine with the registers of the 6502 is an unsigned word. -/
theorem fits_of_registers (h : m.cpu.registers.map (·.toRegister) = registers) :
    architecture.Fits 2 m :=
  ⟨h, _, rfl, rfl, rfl, rfl⟩

/-- Moving the program counter changes neither the indicators nor the end latch. -/
theorem setPc_keeps (h : architecture.Fits 2 m) (address : Int) :
    (architecture.setPc m address).cpu.indicators = m.cpu.indicators ∧
      (architecture.setPc m address).cpu.ended = m.cpu.ended := by
  have hregisters : m.cpu.registers.map (·.toRegister) = registers := h.registers
  have hdesc := congrArg (·[pc]?) hregisters
  rw [List.getElem?_map] at hdesc
  obtain ⟨⟨_, value⟩, hr, rfl⟩ := Option.map_eq_some_iff.1 hdesc
  -- the program counter is no status register and does not update the status
  have hkind : RegisterKind.programCounter ≠ .status := by decide
  have hmanual : StatusUpdate.manual ≠ .auto := by decide
  have hset := Cpu.setRegister_of_manual hr hkind hmanual address
  rw [Architecture.setPc, Machine.edit]
  show (m.cpu.setRegister pc address).cpu.indicators = m.cpu.indicators ∧
    (m.cpu.setRegister pc address).cpu.ended = m.cpu.ended
  rw [hset]
  exact ⟨rfl, rfl⟩

/-- Neither does the fetch of an instruction. -/
theorem afterFetch_keeps (h : architecture.Fits 2 m) (c : CodeLine) :
    architecture.Fits 2 (architecture.afterFetch c m) ∧
      (architecture.afterFetch c m).cpu.indicators = m.cpu.indicators ∧
      (architecture.afterFetch c m).cpu.ended = m.cpu.ended := by
  have hannounced := h.record (.fetch (architecture.pcOf m))
  have hopened := hannounced.advance c.size
  obtain ⟨hindicators, hended⟩ := setPc_keeps hannounced
    (architecture.pcOf (m.record (.fetch (architecture.pcOf m))) + c.size)
  rw [Architecture.afterFetch]
  cases c.operand with
  | none => exact ⟨hopened, hindicators, hended⟩
  | some o =>
    obtain ⟨hindicators', hended'⟩ := setPc_keeps hopened
      (architecture.pcOf (architecture.advance c.size (m.record (.fetch (architecture.pcOf m)))) +
        o.size)
    exact ⟨hopened.advance o.size, hindicators'.trans hindicators, hended'.trans hended⟩

/-- A step at the bytes of a branch whose condition holds adds the operand to the address behind the
branch. -/
theorem step_of_branch {start : Nat} {c : CodeLine} {i : Instruction architecture.modes.length}
    {e : Entry} {kind : IndicatorKind} {expected : Bool} {o : SourceOperand}
    (hfits : architecture.Fits 2 m) (hroom : m.memory.size ≤ 65536)
    (hi : architecture.Selects c i) (hentry : i = e.instruction)
    (hbranch : e.operation = .branch kind expected)
    (hencoded : Architecture.Encoded m.memory start c i.opcode)
    (hpc : architecture.pcOf m = start) (ho : c.operand = some o)
    (hflag : m.cpu.flag kind = expected) :
    ∃ m', architecture.step m = (.ok m.cpu.ended, m') ∧
      architecture.pcOf m' =
        Word.unsigned (start + c.footprint + Word.signed o.value o.size) 2 := by
  have harch := Architecture.checked_of_build build_draft
  obtain ⟨-, hstep⟩ := Architecture.step_of_encoded harch hfits (by decide) hroom hi hencoded hpc
  obtain ⟨hfits', hindicators, hended⟩ := afterFetch_keeps hfits c
  have hpast := hfits.pcOf_afterFetch c
  rw [hpc] at hpast
  have hflag' : (architecture.afterFetch c m).cpu.flag kind = expected := by
    rw [← hflag, Cpu.flag, Cpu.flag, hindicators]
  have hrun := run_branch hbranch ⟨o.mode, Word.signed o.value o.size, o.size⟩ hflag'
  have hfetched : c.fetched = some ⟨o.mode, Word.signed o.value o.size, o.size⟩ := by
    rw [CodeLine.fetched, ho, Option.map_some]
  have hbehaviour : i.behaviour c.fetched =
      e.behaviour (some ⟨o.mode, Word.signed o.value o.size, o.size⟩) := by
    rw [hentry, hfetched]
    rfl
  have hsigned : Word.signed (Word.signed o.value o.size) o.size = Word.signed o.value o.size :=
    Word.fit_fit .signed o.value o.size
  dsimp only at hrun
  rw [hsigned, hpast] at hrun
  refine ⟨architecture.setPc (architecture.afterFetch c m)
    (Word.unsigned (start + c.footprint) 2 + Word.signed o.value o.size), ?_, ?_⟩
  · rw [hstep, Instruction.execute, hbehaviour, hrun]
    dsimp only
    rw [(setPc_keeps hfits' _).2, hended]
  · rw [hfits'.pcOf_setPc, Word.unsigned_unsigned_add]

/-! ## Labels and branches -/

/-- Take a branch to a label in a program for the 6502, on a line without a problem. Where memory
holds the bytes of the line, the program counter is at the line and the condition of the branch
holds, a step succeeds and leaves the program counter at the address of the first line that defines
the label. -/
theorem exists_step_to_definition {source : String} {memorySize : Nat} {l : Line} {c : CodeLine}
    {e : Entry} {kind : IndicatorKind} {expected : Bool} {o : SourceOperand} {name : String}
    (hl : l ∈ (Program.assemble architecture source memorySize).lines) (herrors : l.errors = [])
    (hbody : l.body = .code c) (he : e ∈ opcodes) (hopcode : c.opcode = some e.opcode)
    (hbranch : e.operation = .branch kind expected) (ho : c.operand = some o)
    (hlabel : o.label = some name) (hregisters : m.cpu.registers.map (·.toRegister) = registers)
    (hfit : memorySize ≤ m.memory.size) (hroom : m.memory.size ≤ 65536)
    (haddress : l.address = some (architecture.pcOf m))
    (hslice : m.memory.slice (architecture.pcOf m).toNat l.bytes.length = l.bytes)
    (hflag : m.cpu.flag kind = expected) :
    ∃ k T m', (Program.assemble architecture source memorySize).definition? name = some k ∧
      k.address = some T ∧ architecture.step m = (.ok m.cpu.ended, m') ∧
      architecture.pcOf m' = Word.unsigned T 2 := by
  have hrelativeEntry : e.operation.isRelative = true := by
    rw [hbranch]
    rfl
  obtain ⟨i, hi⟩ := Architecture.exists_selects_of_mem_lines hl hbody herrors
  have hentry := eq_instruction_of_selects hi he hopcode
  have hinside := Resolution.outside_of_errors herrors
  obtain ⟨hstart, hend⟩ := Program.inside_of_mem_lines hl hbody haddress hinside
  have hfootprint : l.footprint = c.footprint := by rw [Line.footprint, hbody]
  have hgreatest : Word.greatest = 9223372036854775807 := rfl
  obtain ⟨k, T, hdefinition, hT, hvalue, hsigned⟩ :=
    value_of_branch (by omega) hl herrors hbody he hrelativeEntry hi hentry ho hlabel haddress
  -- the line is in memory, at the program counter
  obtain ⟨start, hpc⟩ := Int.eq_ofNat_of_zero_le hstart
  have hlength := Line.length_bytes (Program.loadable_of_mem_lines hl herrors).opcode
  rw [hpc, Int.toNat_natCast, hlength] at hslice
  have hencoded := Architecture.encoded_of_slice hbody hi.opcode (by omega) hslice
  obtain ⟨m', hstep, hpc'⟩ := step_of_branch (fits_of_registers hregisters) hroom hi hentry hbranch
    hencoded hpc ho hflag
  refine ⟨k, T, m', hdefinition, hT, hstep, ?_⟩
  rw [hpc', size_of_branch he hrelativeEntry hi hentry ho, hsigned, hvalue, hpc, hfootprint,
    add_sub_cancel]

/-- Labels are resolved completely and exactly: in every program of an accepted architecture, for a
memory that is not larger than the greatest number, every label that is the operand of an
instruction is resolved, unless the instruction was reported to lie outside memory
(`Program.Resolves`). In particular, take a branch to a label in a program for the 6502, on a line
without a problem. Where memory holds the bytes of the line, the program counter is at the line and
the condition of the branch holds, a step succeeds and leaves the program counter at the address of
the first line that defines the label. -/
theorem labels_complete_and_exact :
    (∀ {d : Draft} {arch : Architecture} {source : String} {memorySize : Nat} {l : Line}
      {c : CodeLine} {a : Int} {o : SourceOperand} {name : String}, d.build = .ok arch →
      (memorySize : Int) ≤ Word.greatest → l ∈ (Program.assemble arch source memorySize).lines →
      l.body = .code c → l.address = some a → Resolution.outside l = false →
      c.operand = some o → o.label = some name → 1 ≤ o.size →
      (Program.assemble arch source memorySize).Resolves l c a o name) ∧
    ∀ {source : String} {memorySize : Nat} {l : Line} {c : CodeLine} {e : Entry}
      {kind : IndicatorKind} {expected : Bool} {o : SourceOperand} {name : String} {m : Machine},
      l ∈ (Program.assemble architecture source memorySize).lines → l.errors = [] →
      l.body = .code c → e ∈ opcodes → c.opcode = some e.opcode →
      e.operation = .branch kind expected → c.operand = some o → o.label = some name →
      m.cpu.registers.map (·.toRegister) = registers →
      memorySize ≤ m.memory.size → m.memory.size ≤ 65536 →
      l.address = some (architecture.pcOf m) →
      m.memory.slice (architecture.pcOf m).toNat l.bytes.length = l.bytes →
      m.cpu.flag kind = expected →
      ∃ k T m', (Program.assemble architecture source memorySize).definition? name = some k ∧
        k.address = some T ∧ architecture.step m = (.ok m.cpu.ended, m') ∧
        architecture.pcOf m' = Word.unsigned T 2 := by
  constructor
  · intro d arch source memorySize l c a o name hbuild hsize hl hbody haddress hinside ho hlabel
      hwidth
    exact Program.resolves_of_mem_lines (Architecture.checked_of_build hbuild) hsize hl hbody
      haddress hinside ho hlabel hwidth
  · intro source memorySize l c e kind expected o name m hl herrors hbody he hopcode hbranch ho
      hlabel hregisters hfit hroom haddress hslice hflag
    exact exists_step_to_definition hl herrors hbody he hopcode hbranch ho hlabel hregisters hfit
      hroom haddress hslice hflag

/-- A loop of two instructions and the end. -/
def loopProgram : Program := Program.assemble architecture "loop: NOP\nBNE loop\nEND\n" 16

/-- The branch back, behind the first instruction. -/
def loopBranch : Line :=
  { number := 2, text := "BNE loop", address := some 1, argument := "loop"
    body := .code
      { mnemonic := "BNE", size := 1, relative := true, opcode := some 0xD0
        operand :=
          some { text := "loop", mode := 2, label := some "loop", value := -3, size := 1 } } }

/-- The machine with the loop in memory and the program counter at the branch. -/
def atLoopBranch : Machine :=
  architecture.setPc (loopProgram.load { memory := .zeroed 16, cpu := architecture.freshCpu }).2 1

theorem labels_complete_and_exact_loop :
    (∃ c o, loopBranch.body = .code c ∧ loopProgram.Resolves loopBranch c 1 o "loop") ∧
      ∃ m', architecture.step atLoopBranch = (.ok false, m') ∧ architecture.pcOf m' = 0 := by
  have hl : loopBranch ∈ loopProgram.lines := by decide
  have he : ⟨0xD0, "BNE", .zeroPage, .branch .zero false⟩ ∈ opcodes := by decide
  have hregisters : atLoopBranch.cpu.registers.map (·.toRegister) = registers := by decide
  have hpc : architecture.pcOf atLoopBranch = 1 := by decide
  have hslice : atLoopBranch.memory.slice (architecture.pcOf atLoopBranch).toNat
      loopBranch.bytes.length = loopBranch.bytes := by decide
  obtain ⟨hresolves, hbranches⟩ := labels_complete_and_exact
  refine ⟨⟨_, _, rfl, hresolves build_draft (by decide) hl rfl rfl rfl rfl rfl (by decide)⟩, ?_⟩
  obtain ⟨k, T, m', hdefinition, hT, hstep, hpc'⟩ :=
    hbranches hl rfl rfl he rfl rfl rfl rfl hregisters (by decide) (by decide)
      (by rw [hpc]; rfl) hslice (by decide)
  -- the label is the address of the first line
  have hlabel : (loopProgram.definition? "loop").bind (·.address) = some 0 := by decide
  have hzero : T = 0 := by
    rw [loopProgram, hdefinition, Option.bind_some, hT] at hlabel
    exact Option.some.inj hlabel
  refine ⟨m', hstep, ?_⟩
  rw [hpc', hzero]
  rfl

end Breadboard.Mos6502
