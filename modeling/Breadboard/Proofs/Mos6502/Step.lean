import Breadboard.Proofs.Mos6502.Course
import Breadboard.Proofs.Processor.FailedFetch
import Breadboard.Proofs.Processor.Journal

/-!
# How a step of the 6502 begins

A step finds an entry of the opcode table at the program counter (`Entry.At`), or it fails because
there is no byte or no entry has that opcode (`step_cases`). If the operand behind the opcode is not
in memory, then the step fails there; otherwise the behaviour of the entry runs on that operand
(`step_of_at`). Until then nothing but the program counter has moved (`CounterMoved`). Any
instruction can be put before a machine (`faces_placed`).
-/

namespace Breadboard.Mos6502

variable {m m' m'' : Machine} {e : Entry}

/-! ## Moving the program counter -/

/-- Nothing but the program counter changes from `m` to `m'`, and neither a write to memory nor a
delivery is told. -/
structure CounterMoved (m m' : Machine) : Prop where
  memory : m'.memory = m.memory
  controllers : m'.controllers = m.controllers
  tables : m'.cpu.tables = m.cpu.tables
  registers : ∀ i, i ≠ pc → m'.cpu.registers[i]? = m.cpu.registers[i]?
  indicators : m'.cpu.indicators = m.cpu.indicators
  ended : m'.cpu.ended = m.cpu.ended
  told : ∃ es, m'.events = m.events ++ es ∧
    ∀ event ∈ es, event.isWrite = false ∧ event.isDelivery = false

namespace CounterMoved

theorem trans (h : CounterMoved m m') (h' : CounterMoved m' m'') : CounterMoved m m'' := by
  obtain ⟨es, hes, hquiet⟩ := h.told
  obtain ⟨fs, hfs, hquiet'⟩ := h'.told
  refine ⟨h'.memory.trans h.memory, h'.controllers.trans h.controllers, h'.tables.trans h.tables,
    fun i hi => (h'.registers i hi).trans (h.registers i hi), h'.indicators.trans h.indicators,
    h'.ended.trans h.ended, es ++ fs, ?_, ?_⟩
  · rw [hfs, hes, List.append_assoc]
  · intro e he
    rcases List.mem_append.1 he with hold | hnew
    · exact hquiet e hold
    · exact hquiet' e hnew

theorem register (h : CounterMoved m m') {i : Nat} (hi : i ≠ pc) :
    m'.cpu.register i = m.cpu.register i := by
  rw [Cpu.register, Cpu.register, h.registers i hi]

theorem sameOperands (h : CounterMoved m m') : SameOperands m m' :=
  ⟨h.memory, h.register (by decide), h.register (by decide)⟩

/-- Announcing a fetch moves nothing. -/
theorem fetch (m : Machine) (address : Int) : CounterMoved m (m.record (.fetch address)) := by
  refine ⟨rfl, rfl, rfl, fun _ _ => rfl, rfl, rfl, [.fetch address], ?_, ?_⟩
  · exact Machine.events_record m _
  · simp [Event.isWrite, Event.isDelivery]

end CounterMoved

theorem counterMoved_setPc (h : m.cpu.tables = (registers, indicators)) (address : Int) :
    CounterMoved m (architecture.setPc m address) := by
  have hdesc := Cpu.register_of_tables h pc
  obtain ⟨⟨_, value⟩, hr, rfl⟩ := Option.map_eq_some_iff.1 hdesc.symm
  have hkind : RegisterKind.programCounter ≠ .status := by decide
  have hmanual : StatusUpdate.manual ≠ .auto := by decide
  have hset := Cpu.setRegister_of_manual hr hkind hmanual address
  have hmachine : architecture.setPc m address = m.adopt (m.cpu.setRegister pc address) := rfl
  have htables := Cpu.tables_setRegister m.cpu pc address
  rw [hset] at hmachine htables
  rw [hmachine]
  refine ⟨rfl, rfl, htables, ?_, rfl, rfl, ⟨_, Machine.events_adopt m _, ?_⟩⟩
  · exact fun i hi => List.getElem?_set_ne (Ne.symm hi)
  · simp [Event.isWrite, Event.isDelivery]

theorem pcOf_setPc (h : m.cpu.tables = (registers, indicators)) (address : Int) :
    architecture.pcOf (architecture.setPc m address) = Word.unsigned address 2 := by
  have hfits : architecture.Fits 2 m := ⟨congrArg Prod.fst h, _, rfl, rfl, rfl, rfl⟩
  exact hfits.pcOf_setPc address

/-! ## Opcode and operand -/

/-- The opcode of an entry of the table is at the program counter. -/
structure Entry.At (e : Entry) (m : Machine) : Prop where
  mem : e ∈ opcodes
  opcode : m.memory.readUnsigned (architecture.pcOf m) 1 = .ok e.opcode

/-- The address behind the opcode. -/
def behindOpcode (m : Machine) : Int := Word.unsigned (architecture.pcOf m + 1) 2

/-- The operand behind the opcode, as far as the entry has one. -/
def Entry.operandAt (e : Entry) (m : Machine) : Option Operand :=
  e.addressing.mode?.map fun (k : Fin modes.length) =>
    let size := e.addressing.width
    let bytes := m.memory.slice (behindOpcode m).toNat size
    { mode := k.val, value := Word.signed (Word.natOfBytes bytes) size, size }

theorem operandAt_eq_none_iff : e.operandAt m = none ↔ e.addressing = .implied := by
  rw [Entry.operandAt, Option.map_eq_none_iff, mode?_eq_none_iff]

/-- The behaviour of an entry takes its course on the operand that is there. -/
theorem Entry.At.course (h : e.At m) : Course e (e.operandAt m) (e.behaviour (e.operandAt m)) :=
  Mos6502.course (accepts_of_mem e h.mem) operandAt_eq_none_iff.1

theorem size_of_operandAt {o : Operand} (h : e.operandAt m = some o) :
    o.size = e.addressing.width := by
  obtain ⟨k, -, rfl⟩ := Option.map_eq_some_iff.1 h
  rfl

namespace Entry.At

theorem contains_opcode (h : e.At m) : m.memory.Contains (architecture.pcOf m) 1 := by
  by_contra hout
  have hopcode := h.opcode
  rw [Memory.readUnsigned_of_not_contains hout] at hopcode
  simp at hopcode

theorem opcode_eq (h : e.At m) :
    e.opcode = Word.natOfBytes (m.memory.slice (architecture.pcOf m).toNat 1) := by
  have hopcode := h.opcode
  rw [Memory.readUnsigned_of_contains (by decide) h.contains_opcode] at hopcode
  exact (Except.ok.inj hopcode).symm

/-- An operand without bytes is always there. -/
theorem contains_behindOpcode (h : e.At m) : m.memory.Contains (behindOpcode m) 0 := by
  obtain ⟨hlow, hhigh⟩ := h.contains_opcode
  have hpast : behindOpcode m = (architecture.pcOf m + 1) % 65536 := rfl
  constructor
  · omega
  · omega

end Entry.At

/-- An instruction of the operation is at the program counter, with its operand in memory. -/
def Faces (op : Operation) (m : Machine) : Prop :=
  ∃ e : Entry, e.At m ∧ e.operation = op ∧ m.memory.Contains (behindOpcode m) e.addressing.width

/-! ## What a step does -/

/-- The step succeeds. -/
def Succeeds (m : Machine) : Prop := ∃ ended, (architecture.step m).1 = .ok ended

theorem behaviour_instruction (e : Entry) : e.instruction.behaviour = e.behaviour := rfl

/-- An instruction fails exactly where its behaviour does. -/
theorem execute_eq_error_iff {operand : Option Operand} {err : ExecError} :
    e.instruction.execute operand m = (.error err, m') ↔
      (e.behaviour operand).run m = (.error err, m') := by
  rw [Instruction.execute, behaviour_instruction]
  rcases (e.behaviour operand).run m with ⟨err' | u, m₁⟩
  · simp
  · simp

theorem fst_execute_eq_error_iff {operand : Option Operand} {err : ExecError} :
    (e.instruction.execute operand m).1 = .error err ↔
      ∃ m', (e.behaviour operand).run m = (.error err, m') := by
  constructor
  · exact fun h => ⟨_, execute_eq_error_iff.1 (Prod.ext h rfl)⟩
  · rintro ⟨m', hrun⟩
    rw [execute_eq_error_iff.2 hrun]

/-- It succeeds exactly where its behaviour does, and reports the end latch. -/
theorem execute_eq_ok_iff {operand : Option Operand} {ended : Bool} :
    e.instruction.execute operand m = (.ok ended, m') ↔
      (e.behaviour operand).run m = (.ok (), m') ∧ m'.cpu.ended = ended := by
  rw [Instruction.execute, behaviour_instruction]
  rcases (e.behaviour operand).run m with ⟨err' | u, m₁⟩
  · simp
  · constructor
    · intro h
      obtain ⟨hended, rfl⟩ := Prod.mk.inj h
      exact ⟨rfl, Except.ok.inj hended⟩
    · rintro ⟨hrun, rfl⟩
      obtain ⟨-, rfl⟩ := Prod.mk.inj hrun
      rfl

section Step

variable (htables : m.cpu.tables = (registers, indicators))
include htables

/-- The fetch of an opcode moves nothing but the program counter. -/
theorem counterMoved_pastOpcode {r : Register}
    (hr : architecture.registers[architecture.pc]? = some r) (hmanual : r.status = .manual) :
    CounterMoved m (architecture.pastOpcode r m) ∧
      architecture.pcOf (architecture.pastOpcode r m) = behindOpcode m := by
  have harch := Architecture.checked_of_build build_draft
  obtain ⟨hopened, -⟩ :=
    Architecture.advance_opcode harch hr hmanual (congrArg Prod.fst htables)
  have hannounced := CounterMoved.fetch m (architecture.pcOf m)
  have htables' := hannounced.tables.trans htables
  rw [← hopened]
  exact ⟨hannounced.trans (counterMoved_setPc htables' _), pcOf_setPc htables' _⟩

/-- A step at an entry of the table stops if the operand is not in memory, and runs the behaviour of
the entry if it is. -/
theorem step_of_at (h : e.At m) :
    (¬ m.memory.Contains (behindOpcode m) e.addressing.width →
      ∃ opened, CounterMoved m opened ∧ architecture.pcOf opened = behindOpcode m ∧
        architecture.step m =
          (.error (.memory (Memory.outside (behindOpcode m) e.addressing.width)), opened)) ∧
    (m.memory.Contains (behindOpcode m) e.addressing.width →
      ∃ opened, CounterMoved m opened ∧
        architecture.pcOf opened = Word.unsigned (behindOpcode m + e.addressing.width) 2 ∧
        architecture.step m = e.instruction.execute (e.operandAt m) opened) := by
  obtain ⟨r, hr, hmanual, hpast⟩ : ∃ r : Register,
      architecture.registers[architecture.pc]? = some r ∧ r.status = .manual ∧
        r.format.fit (architecture.pcOf m + architecture.sizes.opcode) r.size = behindOpcode m :=
    ⟨_, rfl, rfl, rfl⟩
  obtain ⟨hmoved, hpc⟩ := counterMoved_pastOpcode htables hr hmanual
  have hin := h.contains_opcode
  obtain ⟨-, -, hknown⟩ :=
    Architecture.step_of_manual_pc build_draft hr hmanual (congrArg Prod.fst htables)
  obtain ⟨hnone, hsome⟩ := hknown e.instruction (List.mem_map_of_mem h.mem) hin h.opcode_eq
  cases hmode : e.addressing.mode? with
  | none =>
    have himplied := mode?_eq_none_iff.1 hmode
    have hwidth : e.addressing.width = 0 := by
      rw [himplied]
      rfl
    rw [hwidth]
    refine ⟨fun hout => (hout h.contains_behindOpcode).elim, fun _ => ⟨_, hmoved, ?_, ?_⟩⟩
    · rw [hpc, Nat.cast_zero, add_zero]
      exact (Word.fit_fit .unsigned (architecture.pcOf m + 1) 2).symm
    · rw [hnone hmode, operandAt_eq_none_iff.2 himplied]
      rfl
  | some k =>
    obtain ⟨hfails, hruns⟩ := hsome k hmode
    rw [hpast, size_of_mode? hmode] at hfails hruns
    constructor
    · exact fun hout => ⟨_, hmoved, hpc, hfails hout⟩
    · intro hthere
      have htables' := hmoved.tables.trans htables
      refine ⟨architecture.advance e.addressing.width (architecture.pastOpcode r m),
        hmoved.trans (counterMoved_setPc htables' _), ?_, ?_⟩
      · rw [Architecture.advance, pcOf_setPc htables', hpc]
      · rw [hruns hthere, Entry.operandAt, hmode]
        rfl

/-- A step at an entry whose operand is in memory succeeds where the behaviour of the entry does. -/
theorem step_eq_ok_of_run (h : e.At m)
    (hin : m.memory.Contains (behindOpcode m) e.addressing.width) :
    ∃ opened, CounterMoved m opened ∧
      architecture.pcOf opened = Word.unsigned (behindOpcode m + e.addressing.width) 2 ∧
      ∀ m', (e.behaviour (e.operandAt m)).run opened = (.ok (), m') →
        architecture.step m = (.ok m'.cpu.ended, m') := by
  obtain ⟨opened, hmoved, hpc, hexecute⟩ := (step_of_at htables h).2 hin
  refine ⟨opened, hmoved, hpc, fun m' hrun => ?_⟩
  rw [hexecute]
  exact execute_eq_ok_iff.2 ⟨hrun, rfl⟩

/-- A step that succeeds at an entry runs its behaviour. -/
theorem run_of_step_eq_ok (h : e.At m) {ended : Bool}
    (hstep : architecture.step m = (.ok ended, m')) :
    ∃ opened, CounterMoved m opened ∧ (e.behaviour (e.operandAt m)).run opened = (.ok (), m') := by
  obtain ⟨hfails, hruns⟩ := step_of_at htables h
  by_cases hin : m.memory.Contains (behindOpcode m) e.addressing.width
  · obtain ⟨opened, hmoved, -, hexecute⟩ := hruns hin
    rw [hexecute, execute_eq_ok_iff] at hstep
    exact ⟨opened, hmoved, hstep.1⟩
  · obtain ⟨opened, -, -, hfail⟩ := hfails hin
    simp [hstep] at hfail

end Step

/-- A step at a byte that no entry has as its opcode stops there. -/
theorem fst_step_of_unknown {opcode : Int}
    (hread : m.memory.readUnsigned (architecture.pcOf m) 1 = .ok opcode)
    (hunknown : ∀ e ∈ opcodes, e.opcode ≠ opcode) :
    (architecture.step m).1 = .error (.invalidOpcode (architecture.pcOf m) opcode) := by
  have hnone : architecture.instruction? opcode = none := by
    apply List.find?_eq_none.2
    intro i hi hopcode
    obtain ⟨e, he, rfl⟩ := List.mem_map.1 hi
    exact hunknown e he (of_decide_eq_true hopcode)
  rw [Architecture.step_of_instruction?_none hread hnone]

/-- A step finds no byte at the program counter, or a byte that no entry has as its opcode, or an
entry. -/
theorem step_cases (m : Machine) :
    (¬ m.memory.Contains (architecture.pcOf m) 1 ∧ (architecture.step m).1 =
      .error (.memory (Memory.outside (architecture.pcOf m) 1))) ∨
    (∃ opcode, m.memory.readUnsigned (architecture.pcOf m) 1 = .ok opcode ∧
      (∀ e ∈ opcodes, e.opcode ≠ opcode) ∧
      (architecture.step m).1 = .error (.invalidOpcode (architecture.pcOf m) opcode)) ∨
    ∃ e : Entry, e.At m := by
  by_cases hin : m.memory.Contains (architecture.pcOf m) 1
  · have hread := Memory.readUnsigned_of_contains (by decide) hin
    by_cases hknown : ∃ e ∈ opcodes,
        e.opcode = Word.natOfBytes (m.memory.slice (architecture.pcOf m).toNat 1)
    · obtain ⟨e, he, hopcode⟩ := hknown
      exact .inr (.inr ⟨e, he, by rw [hread, hopcode]⟩)
    · have hunknown : ∀ e ∈ opcodes,
          e.opcode ≠ Word.natOfBytes (m.memory.slice (architecture.pcOf m).toNat 1) :=
        fun e he hopcode => hknown ⟨e, he, hopcode⟩
      exact .inr (.inl ⟨_, hread, hunknown, fst_step_of_unknown hread hunknown⟩)
  · have hread := Memory.readUnsigned_of_not_contains hin
    exact .inl ⟨hin, by rw [Architecture.step_of_readUnsigned_error hread]⟩

/-- A step that succeeds finds an entry. -/
theorem exists_at_of_step_eq_ok {ended : Bool} (hstep : architecture.step m = (.ok ended, m')) :
    ∃ e : Entry, e.At m := by
  rcases step_cases m with ⟨-, hfail⟩ | ⟨opcode, -, -, hfail⟩ | hat
  · simp [hstep] at hfail
  · simp [hstep] at hfail
  · exact hat

/-! ## Putting an instruction before a machine -/

section At

variable {address : Nat} (hpc : architecture.pcOf m = address)
include hpc

/-- The byte at the program counter is the opcode of the entry. -/
theorem at_of_cell (he : e ∈ opcodes) (hlt : address < m.memory.size)
    (hopcode : e.opcode = (m.memory.cell address).toNat) : e.At m := by
  have hin : m.memory.Contains address 1 := ⟨by omega, by omega⟩
  refine ⟨he, ?_⟩
  rw [hpc, Memory.readUnsigned_of_contains (by decide) hin, Int.toNat_natCast,
    Memory.natOfBytes_slice_one, hopcode]

theorem behindOpcode_of_pcOf : behindOpcode m = (address + 1) % 65536 := by
  rw [behindOpcode, hpc]
  rfl

end At

/-- The bytes are in memory at the address, and the program counter points to them. -/
def placed (m : Machine) (address : Nat) (bytes : List UInt8) : Machine :=
  { architecture.setPc m address with memory := m.memory.overlay address bytes }

theorem cell_placed (hsize : m.memory.size = 65536) {address k : Nat} {bytes : List UInt8}
    (hroom : address + bytes.length ≤ 65536) (hk : k < bytes.length) :
    (placed m address bytes).memory.cell (address + k) = bytes[k] :=
  Memory.cell_overlay_of_inside m.memory hk (by rwa [hsize])

section Placed

variable (htables : m.cpu.tables = (registers, indicators))
include htables

theorem pcOf_placed {address : Nat} (hroom : address < 65536) (bytes : List UInt8) :
    architecture.pcOf (placed m address bytes) = address :=
  (pcOf_setPc htables address).trans (unsigned_natCast hroom)

theorem register_placed {i : Nat} (hi : i ≠ pc) (address : Nat) (bytes : List UInt8) :
    (placed m address bytes).cpu.register i = m.cpu.register i :=
  (counterMoved_setPc htables address).register hi

/-- A machine faces the instruction that was placed there. -/
theorem faces_placed (hsize : m.memory.size = 65536) (he : e ∈ opcodes) {address : Nat}
    {opcode : UInt8} {operand : List UInt8} (hopcode : e.opcode = opcode.toNat)
    (hwidth : operand.length = e.addressing.width) (hroom : address + operand.length < 65536) :
    Faces e.operation (placed m address (opcode :: operand)) := by
  have hpc := pcOf_placed htables (show address < 65536 by omega) (opcode :: operand)
  have hsize' : (placed m address (opcode :: operand)).memory.size = 65536 :=
    (Memory.size_overlay _ _ _).trans hsize
  have hcell : (placed m address (opcode :: operand)).memory.cell address = opcode :=
    cell_placed hsize (k := 0) (by rw [List.length_cons]; omega) (by simp)
  refine ⟨e, at_of_cell hpc he (by omega) (by rw [hcell, hopcode]), rfl, ?_⟩
  rw [Memory.Contains, behindOpcode_of_pcOf hpc, hsize', ← hwidth]
  omega

end Placed

end Breadboard.Mos6502
