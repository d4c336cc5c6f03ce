import Breadboard.Edu1
import Breadboard.Proofs.Action
import Breadboard.Proofs.Cpu.Reset
import Breadboard.Proofs.Processor.FailedFetch

/-!
# The teaching processor as its table says

The table of instructions describes an interpreter on five values: a program counter of one byte,
two accumulators of one signed byte, the zero indicator and the end latch. `interpret` takes one
step of it, on bytes alone. Every register file of `edu1` whose registers hold what fits them shows
such a state (`exists_state`), writing a register is changing the state (`cpu_setRegister_a` and its
siblings), and so the processor takes the step that the interpreter takes (`step_eq_interpret`).
-/

namespace Breadboard.Edu1

open Breadboard.Action

/-! ## The interpreter -/

/-- What a program of `edu1` can see of the processor. -/
structure State where
  pc : UInt8
  a : Int8
  b : Int8
  zero : Bool
  ended : Bool
  deriving DecidableEq, Repr

/-- Writes `A`, which tells whether it is zero. -/
def State.setA (s : State) (v : Int8) : State := { s with a := v, zero := v == 0 }

/-- Writes `B`, which tells nothing. -/
def State.setB (s : State) (v : Int8) : State := { s with b := v }

/-- Writes the register that an operand names. -/
def State.setNamed (s : State) (operand : UInt8) (v : Int8) : State :=
  if operand = 0 then s.setA v else s.setB v

/-- The register that an operand names. -/
def State.named (s : State) (operand : UInt8) : Int8 := if operand = 0 then s.a else s.b

/-- The instructions that have an operand. -/
inductive Op where
  | lda
  | ldb
  | sta
  | stb
  | add
  | dec
  | mova
  | movb
  | jmp
  | jmpz
  deriving DecidableEq, Repr

/-- The opcode of `.END`, which has no operand. -/
def endOpcode : UInt8 := 0xFF

def Op.opcode : Op → UInt8
  | .lda => 0x01
  | .ldb => 0x02
  | .sta => 0x03
  | .stb => 0x04
  | .add => 0x05
  | .dec => 0x06
  | .mova => 0x07
  | .movb => 0x08
  | .jmp => 0x09
  | .jmpz => 0x0A

/-- All instructions that have an operand. -/
def Op.all : List Op := [.lda, .ldb, .sta, .stb, .add, .dec, .mova, .movb, .jmp, .jmpz]

/-- The instruction with an opcode. -/
def Op.ofByte? (opcode : UInt8) : Option Op := Op.all.find? (·.opcode = opcode)

/-- There is no byte at an address. -/
def noByte (address : UInt8) : ExecError := .memory ⟨address.toNat, 1, .pastEnd⟩

/-- The byte at an address. -/
def byteAt (memory : Memory) (address : UInt8) : Except ExecError UInt8 :=
  if address.toNat < memory.size then .ok (memory.cell address.toNat) else .error (noByte address)

/-- Memory with another byte at an address. -/
def putByte (memory : Memory) (address value : UInt8) : Except ExecError Memory :=
  if address.toNat < memory.size then .ok ⟨memory.cells.setIfInBounds address.toNat value⟩
  else .error (noByte address)

/-- What an instruction does with its operand when the program counter is past both. -/
def Op.effect (op : Op) (operand : UInt8) (s : State) (memory : Memory) :
    Except ExecError (State × Memory) :=
  match op with
  | .lda => (byteAt memory operand).map fun v => (s.setA v.toInt8, memory)
  | .ldb => (byteAt memory operand).map fun v => (s.setB v.toInt8, memory)
  | .sta => (putByte memory operand s.a.toUInt8).map fun memory => (s, memory)
  | .stb => (putByte memory operand s.b.toUInt8).map fun memory => (s, memory)
  | .add => .ok (s.setNamed operand (s.a + s.b), memory)
  | .dec => .ok (s.setNamed operand (s.named operand - 1), memory)
  | .mova => .ok (s.setA operand.toInt8, memory)
  | .movb => .ok (s.setB operand.toInt8, memory)
  | .jmp => .ok ({ s with pc := operand }, memory)
  | .jmpz => .ok (if s.a = 0 then { s with pc := operand } else s, memory)

/-- How a step ends: its result, and the state and memory after it. -/
structure Outcome where
  result : Except ExecError Bool
  state : State
  memory : Memory
  deriving DecidableEq

/-- A step that ends with an effect from a state; a failure leaves that state. -/
def Outcome.ofEffect (s : State) (memory : Memory) : Except ExecError (State × Memory) → Outcome
  | .error e => ⟨.error e, s, memory⟩
  | .ok (after, memory) => ⟨.ok after.ended, after, memory⟩

/-- One step. A failure leaves the program counter past what was fetched. -/
def interpret (s : State) (memory : Memory) : Outcome :=
  match byteAt memory s.pc with
  | .error e => ⟨.error e, s, memory⟩
  | .ok opcode =>
    let opened := { s with pc := s.pc + 1 }
    if opcode = endOpcode then ⟨.ok true, { opened with ended := true }, memory⟩
    else
      match Op.ofByte? opcode with
      | none => ⟨.error (.invalidOpcode s.pc.toNat opcode.toNat), opened, memory⟩
      | some op =>
        match byteAt memory opened.pc with
        | .error e => ⟨.error e, opened, memory⟩
        | .ok operand =>
          let fetched := { opened with pc := opened.pc + 1 }
          .ofEffect fetched memory (op.effect operand fetched memory)

/-! ## States as register files -/

/-- The register file that shows a state. -/
def State.cpu (s : State) : Cpu :=
  { registers := (registers.zip [(s.pc.toNat : Int), s.a.toInt, s.b.toInt]).map fun (r, v) =>
      { r with value := v }
    indicators := indicators.map fun i => { i with value := s.zero }
    ended := s.ended }

theorem toNat_ofInt (v : Int) : ((UInt8.ofInt v).toNat : Int) = Word.unsigned v 1 := by
  have hbyte : (UInt8.ofInt v).toNat = (v % 256).toNat % 256 := UInt8.toNat_ofNat'
  have hword : Word.unsigned v 1 = v % 256 := rfl
  omega

theorem toInt_ofInt (v : Int) : (Int8.ofInt v).toInt = Word.signed v 1 := by
  rw [Int8.toInt_ofInt]
  rfl

section Writes

variable (s : State) (v : Int)

theorem cpu_setRegister_pc :
    (s.cpu.setRegister pc v).cpu = { s with pc := UInt8.ofInt v }.cpu := by
  have hset : (s.cpu.setRegister pc v).cpu =
      { s.cpu with registers :=
          s.cpu.registers.set pc { registers[0] with value := Word.unsigned v 1 } } := rfl
  rw [hset, ← toNat_ofInt]
  rfl

theorem cpu_setRegister_b : (s.cpu.setRegister b v).cpu = (s.setB (Int8.ofInt v)).cpu := by
  have hset : (s.cpu.setRegister b v).cpu =
      { s.cpu with registers :=
          s.cpu.registers.set b { registers[2] with value := Word.signed v 1 } } := rfl
  rw [hset, ← toInt_ofInt]
  rfl

/-- There is one zero indicator. -/
theorem cpu_setFlag_zero (on : Bool) :
    (s.cpu.setFlag .zero on).cpu = { s with zero := on }.cpu := by
  have hset : s.cpu.setFlag .zero on =
      (⟨s.cpu, []⟩ : Traced).andThen (·.setIndicator 0 on) := rfl
  rw [hset]
  by_cases h : s.zero = on
  · subst h
    simp [Cpu.setIndicator, State.cpu, indicators]
  · simp [Cpu.setIndicator, State.cpu, indicators, registers, h, RegisterCell.withStatusBit]

/-- There is no negative indicator. -/
theorem cpu_setSigns : (s.cpu.setSigns v).cpu = { s with zero := v == 0 }.cpu := by
  have hset : s.cpu.setSigns v = (s.cpu.setZero v).andThen (·.setNegative v) := rfl
  rw [hset, Traced.cpu_andThen, Cpu.setZero, cpu_setFlag_zero]
  rfl

theorem cpu_setRegister_a : (s.cpu.setRegister a v).cpu = (s.setA (Int8.ofInt v)).cpu := by
  -- the number is stored, and then its sign is shown
  let written : Cpu :=
    { s.cpu with registers :=
        s.cpu.registers.set a { registers[1] with value := Word.signed v 1 } }
  have hset : (s.cpu.setRegister a v).cpu = (written.setSigns (Word.signed v 1)).cpu := rfl
  have hwritten : written = { s with a := Int8.ofInt v }.cpu := by
    show { s.cpu with registers :=
            s.cpu.registers.set a { registers[1] with value := Word.signed v 1 } } = _
    rw [← toInt_ofInt]
    rfl
  have hzero : ((Int8.ofInt v).toInt == 0) = (Int8.ofInt v == 0) := by
    rw [Bool.eq_iff_iff, beq_iff_eq, beq_iff_eq, ← Int8.toInt_inj]
    rfl
  rw [hset, hwritten, cpu_setSigns, ← toInt_ofInt, hzero]
  rfl

end Writes

/-- Every register file whose registers hold what fits them shows a state. -/
theorem exists_state {cpu : Cpu} (htables : cpu.tables = (registers, indicators))
    (hpc : 0 ≤ cpu.register pc ∧ cpu.register pc ≤ 255)
    (ha : -128 ≤ cpu.register a ∧ cpu.register a ≤ 127)
    (hb : -128 ≤ cpu.register b ∧ cpu.register b ≤ 127) : ∃ s : State, cpu = s.cpu := by
  obtain ⟨cells, lights, ended⟩ := cpu
  obtain ⟨hcells, hlights⟩ := Prod.mk.inj htables
  match cells, lights, hcells, hlights with
  | [⟨_, x⟩, ⟨_, y⟩, ⟨_, z⟩], [⟨_, zero⟩], hcells, hlights =>
    obtain ⟨rfl, rfl, rfl⟩ : _ = registers[0] ∧ _ = registers[1] ∧ _ = registers[2] := by
      simpa [registers] using hcells
    obtain rfl : _ = indicators[0] := by simpa [indicators] using hlights
    have hmodulus : Word.modulus 1 = 256 := rfl
    have hx : ((UInt8.ofInt x).toNat : Int) = x := by
      have hbounds : 0 ≤ x ∧ x ≤ 255 := hpc
      rw [toNat_ofInt, Word.unsigned_of_lt hbounds.1 (by omega)]
    have hsigned {v : Int} (hv : -128 ≤ v ∧ v ≤ 127) : (Int8.ofInt v).toInt = v := by
      have hfits : Word.fitsSigned v 1 = true := by
        rw [Word.fitsSigned_eq_true_iff (by decide)]
        omega
      rw [toInt_ofInt]
      exact beq_iff_eq.1 hfits
    have hy : (Int8.ofInt y).toInt = y := hsigned ha
    have hz : (Int8.ofInt z).toInt = z := hsigned hb
    refine ⟨⟨UInt8.ofInt x, Int8.ofInt y, Int8.ofInt z, zero, ended⟩, ?_⟩
    rw [State.cpu, hx, hy, hz]
    rfl

/-- A register file shows one state at most. -/
theorem State.cpu_injective : Function.Injective State.cpu := by
  intro s s' h
  have hpc : (s.pc.toNat : Int) = s'.pc.toNat := congrArg (·.register Edu1.pc) h
  have ha : s.a.toInt = s'.a.toInt := congrArg (·.register Edu1.a) h
  have hb : s.b.toInt = s'.b.toInt := congrArg (·.register Edu1.b) h
  have hzero : s.zero = s'.zero := congrArg (·.flag .zero) h
  have hended : s.ended = s'.ended := congrArg Cpu.ended h
  cases s
  cases s'
  simp_all [UInt8.toNat_inj, Int8.toInt_inj]

/-! ## Bytes of memory -/

section Bytes

variable {memory : Memory} {n : UInt8}

theorem noByte_eq (n : UInt8) : noByte n = .memory (Memory.outside n.toNat 1) := by
  simp [noByte, Memory.outside]

theorem contains_iff : memory.Contains n.toNat 1 ↔ n.toNat < memory.size := by
  rw [Memory.Contains]
  omega

theorem byteAt_of_contains (h : memory.Contains n.toNat 1) :
    byteAt memory n = .ok (memory.cell n.toNat) :=
  if_pos (contains_iff.1 h)

theorem byteAt_of_not_contains (h : ¬ memory.Contains n.toNat 1) :
    byteAt memory n = .error (.memory (Memory.outside n.toNat 1)) := by
  rw [byteAt, if_neg (mt contains_iff.2 h), noByte_eq]

theorem toInt_toInt8 (n : UInt8) : n.toInt8.toInt = Word.signed n.toNat 1 := by
  have hbits := BitVec.toInt_eq_toNat_bmod n.toBitVec
  rw [Word.signed, if_pos (by decide)]
  exact hbits

/-- The unsigned reading of a signed byte gives the byte back. -/
theorem unsigned_toInt_toInt8 (n : UInt8) : Word.unsigned n.toInt8.toInt 1 = n.toNat := by
  have hlt := n.toNat_lt
  have hmodulus : Word.modulus 1 = 256 := rfl
  rw [toInt_toInt8, Word.unsigned_signed, Word.unsigned_of_lt (by omega) (by omega)]

theorem toBytes_toInt (v : Int8) : Word.toBytes v.toInt 1 = [v.toUInt8] := by
  have hlow : v.toInt % 256 = v.toUInt8.toNat := by
    have h := unsigned_toInt_toInt8 v.toUInt8
    rwa [Int8.toInt8_toUInt8] at h
  rw [Word.toBytes_succ, hlow, Int.toNat_natCast, UInt8.ofNat_toNat]
  rfl

end Bytes

/-! ## Instructions -/

/-- The operand that the processor reads from the byte `n`. -/
def operandOf (mode : Nat) (n : UInt8) : Operand := ⟨mode, n.toInt8.toInt, 1⟩

theorem address_operandOf (mode : Nat) (n : UInt8) : address (operandOf mode n) = n.toNat :=
  unsigned_toInt_toInt8 n

theorem target_operandOf (mode : Nat) (n : UInt8) :
    target (operandOf mode n) = if n = 0 then a else b := by
  have hzero : n.toInt8.toInt = 0 ↔ n = 0 := by
    constructor
    · intro h
      have hback := unsigned_toInt_toInt8 n
      rw [h] at hback
      exact UInt8.toNat_inj.1 (Int.ofNat_inj.1 hback.symm)
    · rintro rfl
      rfl
  exact if_congr hzero rfl rfl

/-- An action ends as an effect says. If it fails, then nothing has changed. -/
inductive Performs (m : Machine) :
    Except ExecError (State × Memory) → Except ExecError Unit × Machine → Prop
  | fails (e : ExecError) : Performs m (.error e) (.error e, m)
  | succeeds {s : State} {m' : Machine} (hcpu : m'.cpu = s.cpu) :
    Performs m (.ok (s, m'.memory)) (.ok (), m')

section Performs

variable {m : Machine} {s s' : State} (hm : m.cpu = s.cpu)
include hm

theorem performs_setRegister {i : Nat} {v : Int} (h : (s.cpu.setRegister i v).cpu = s'.cpu) :
    Performs m (.ok (s', m.memory)) ((setRegister i v).run m) := by
  have hcpu : (m.edit (.register i v)).cpu = s'.cpu := by
    rw [← h, ← hm]
    rfl
  exact .succeeds hcpu

/-- An accumulator takes the signed byte at the address. -/
theorem performs_load {i : Nat} {set : State → Int8 → State}
    (hset : ∀ v, (s.cpu.setRegister i v).cpu = (set s (Int8.ofInt v)).cpu) (mode : Nat)
    (n : UInt8) :
    Performs m ((byteAt m.memory n).map fun v => (set s v.toInt8, m.memory))
      ((load i (operandOf mode n)).run m) := by
  have hload : load i (operandOf mode n) =
      .load (address (operandOf mode n)) 1 fun v => setRegister i (Word.signed v 1) := rfl
  rw [hload, address_operandOf]
  by_cases hin : m.memory.Contains n.toNat 1
  · rw [run_load_of_contains (by decide) hin, byteAt_of_contains hin, Int.toNat_natCast,
      Memory.natOfBytes_slice_one, ← toInt_toInt8]
    apply performs_setRegister hm
    rw [hset, Int8.ofInt_toInt]
  · rw [run_load_of_not_contains hin, byteAt_of_not_contains hin]
    exact .fails _

/-- The byte at the address takes an accumulator. -/
theorem performs_store {i : Nat} {v : Int8} (hget : s.cpu.register i = v.toInt) (mode : Nat)
    (n : UInt8) :
    Performs m ((putByte m.memory n v.toUInt8).map fun memory => (s, memory))
      ((store i (operandOf mode n)).run m) := by
  have hstore : (store i (operandOf mode n)).run m =
      (Action.store (address (operandOf mode n)) 1 (m.cpu.register i) (.done ())).run m := rfl
  rw [hstore, address_operandOf, hm, hget, putByte]
  by_cases hin : m.memory.Contains n.toNat 1
  · rw [run_store_of_contains hin, if_pos (contains_iff.1 hin), toBytes_toInt]
    have hstored : (m.store n.toNat [v.toUInt8]).cpu = s.cpu := hm
    exact .succeeds hstored
  · rw [run_store_of_not_contains hin, if_neg (mt contains_iff.2 hin), noByte_eq]
    exact .fails _

theorem performs_jump (mode : Nat) (n : UInt8) :
    Performs m (.ok ({ s with pc := n }, m.memory)) ((jump (operandOf mode n)).run m) := by
  have hback : UInt8.ofInt n.toNat = n := by
    have hlt := n.toNat_lt
    have hmodulus : Word.modulus 1 = 256 := rfl
    have hfits := toNat_ofInt n.toNat
    rw [Word.unsigned_of_lt (by omega) (by omega)] at hfits
    exact UInt8.toNat_inj.1 (Int.ofNat_inj.1 hfits)
  apply performs_setRegister hm
  rw [cpu_setRegister_pc, address_operandOf, hback]

end Performs

section Named

variable (s : State) (mode : Nat) (n : UInt8)

theorem register_target : s.cpu.register (target (operandOf mode n)) = (s.named n).toInt := by
  rw [target_operandOf, State.named]
  split <;> rfl

theorem cpu_setRegister_target (v : Int) :
    (s.cpu.setRegister (target (operandOf mode n)) v).cpu = (s.setNamed n (Int8.ofInt v)).cpu := by
  rw [target_operandOf, State.setNamed]
  split
  · exact cpu_setRegister_a s v
  · exact cpu_setRegister_b s v

end Named

theorem exists_end : ∃ i ∈ architecture.instructions, i.opcode = endOpcode.toNat ∧
    i.mode = none ∧ ∀ m : Machine, (i.behaviour none).run m = (.ok (), m.edit (.ended true)) :=
  ⟨_, List.mem_of_getElem? (i := 10) rfl, rfl, rfl, fun _ => rfl⟩

/-- The table of the processor has each instruction, and its behaviour is the effect. -/
theorem exists_instruction (op : Op) : ∃ i ∈ architecture.instructions,
    i.opcode = op.opcode.toNat ∧ ∃ k, i.mode = some k ∧ (architecture.mode k).size = 1 ∧
      ∀ {m : Machine} {s : State}, m.cpu = s.cpu → ∀ n, Performs m (op.effect n s m.memory)
        ((i.behaviour (some (operandOf k n))).run m) := by
  cases op with
  | lda =>
    exact ⟨_, List.mem_of_getElem? (i := 0) rfl, rfl, _, rfl, rfl,
      fun hm n => performs_load hm (cpu_setRegister_a _) _ n⟩
  | ldb =>
    exact ⟨_, List.mem_of_getElem? (i := 1) rfl, rfl, _, rfl, rfl,
      fun hm n => performs_load hm (cpu_setRegister_b _) _ n⟩
  | sta =>
    exact ⟨_, List.mem_of_getElem? (i := 2) rfl, rfl, _, rfl, rfl,
      fun hm n => performs_store hm rfl _ n⟩
  | stb =>
    exact ⟨_, List.mem_of_getElem? (i := 3) rfl, rfl, _, rfl, rfl,
      fun hm n => performs_store hm rfl _ n⟩
  | add =>
    refine ⟨_, List.mem_of_getElem? (i := 4) rfl, rfl, registerMode, rfl, rfl, ?_⟩
    intro m s hm n
    show Performs m _ ((setRegister (target (operandOf registerMode n))
      (m.cpu.register a + m.cpu.register b)).run m)
    have hsum : Int8.ofInt (m.cpu.register a + m.cpu.register b) = s.a + s.b := by
      have hregisters : m.cpu.register a + m.cpu.register b = s.a.toInt + s.b.toInt := by
        rw [hm]
        rfl
      rw [hregisters, Int8.ofInt_add, Int8.ofInt_toInt, Int8.ofInt_toInt]
    apply performs_setRegister hm
    rw [cpu_setRegister_target, hsum]
  | dec =>
    refine ⟨_, List.mem_of_getElem? (i := 5) rfl, rfl, registerMode, rfl, rfl, ?_⟩
    intro m s hm n
    show Performs m _ ((setRegister (target (operandOf registerMode n))
      (m.cpu.register (target (operandOf registerMode n)) - 1)).run m)
    apply performs_setRegister hm
    rw [cpu_setRegister_target, hm, register_target, Int8.ofInt_sub, Int8.ofInt_toInt]
    rfl
  | mova =>
    refine ⟨_, List.mem_of_getElem? (i := 6) rfl, rfl, immediateMode, rfl, rfl, ?_⟩
    intro m s hm n
    apply performs_setRegister hm
    rw [cpu_setRegister_a]
    exact congrArg (fun v => (s.setA v).cpu) (Int8.ofInt_toInt n.toInt8)
  | movb =>
    refine ⟨_, List.mem_of_getElem? (i := 7) rfl, rfl, immediateMode, rfl, rfl, ?_⟩
    intro m s hm n
    apply performs_setRegister hm
    rw [cpu_setRegister_b]
    exact congrArg (fun v => (s.setB v).cpu) (Int8.ofInt_toInt n.toInt8)
  | jmp =>
    exact ⟨_, List.mem_of_getElem? (i := 8) rfl, rfl, _, rfl, rfl,
      fun hm n => performs_jump hm _ n⟩
  | jmpz =>
    refine ⟨_, List.mem_of_getElem? (i := 9) rfl, rfl, absoluteMode, rfl, rfl, ?_⟩
    intro m s hm n
    show Performs m (.ok (if s.a = 0 then { s with pc := n } else s, m.memory))
      ((if m.cpu.register a = 0 then jump (operandOf absoluteMode n) else pure ()).run m)
    have hzero : m.cpu.register a = 0 ↔ s.a = 0 := by
      rw [hm, ← Int8.toInt_inj]
      rfl
    by_cases ha : s.a = 0
    · rw [if_pos ha, if_pos (hzero.2 ha)]
      exact performs_jump hm _ n
    · rw [if_neg ha, if_neg (mt hzero.1 ha)]
      exact .succeeds hm

/-! ## Steps -/

theorem unsigned_next (n : UInt8) : Word.unsigned (n.toNat + 1) 1 = (n + 1).toNat := by
  have hword : Word.unsigned (n.toNat + 1) 1 = (n.toNat + 1 : Int) % 256 := rfl
  have hone : (1 : UInt8).toNat = 1 := rfl
  rw [UInt8.toNat_add]
  omega

/-- The register file shows the state after the program counter moved on by one byte. -/
theorem cpu_setRegister_pc_next (s : State) :
    (s.cpu.setRegister pc (s.pc.toNat + 1)).cpu = { s with pc := s.pc + 1 }.cpu := by
  have hnext : UInt8.ofInt (s.pc.toNat + 1) = s.pc + 1 := by
    rw [← UInt8.toNat_inj, ← Int.natCast_inj, toNat_ofInt, unsigned_next]
  rw [cpu_setRegister_pc, hnext]

theorem opcode_eq_of_ofByte?_eq_some {opcode : UInt8} {op : Op} (h : Op.ofByte? opcode = some op) :
    op.opcode = opcode :=
  of_decide_eq_true (List.find?_some (p := fun op : Op => op.opcode = opcode) h)

/-- An opcode that is neither that of `.END` nor that of an operation is unknown to the table. -/
theorem opcode_ne_of_ofByte?_eq_none {opcode : UInt8} (hend : opcode ≠ endOpcode)
    (h : Op.ofByte? opcode = none) : ∀ i ∈ architecture.instructions, i.opcode ≠ opcode.toNat := by
  have hlisted : architecture.instructions.map (·.opcode) =
      Op.all.map (fun op => (op.opcode.toNat : Int)) ++ [(endOpcode.toNat : Int)] := rfl
  intro i hi heq
  have hmem : (opcode.toNat : Int) ∈ architecture.instructions.map (·.opcode) :=
    List.mem_map.2 ⟨i, hi, heq⟩
  rw [hlisted, List.mem_append, List.mem_singleton, Int.natCast_inj, UInt8.toNat_inj] at hmem
  rcases hmem with hop | hlast
  · obtain ⟨op, hop, hopcode⟩ := List.mem_map.1 hop
    have hne := List.find?_eq_none.1 h op hop
    rw [decide_eq_true_eq] at hne
    exact hne (UInt8.toNat_inj.1 (Int.ofNat_inj.1 hopcode))
  · exact hend hlast

/-- How a step from `m` ends: as an outcome says, and after a failure with the controllers as they
were. -/
structure Ends (m : Machine) (o : Outcome) (result : Except ExecError Bool) (m' : Machine) :
    Prop where
  result_eq : result = o.result
  cpu : m'.cpu = o.state.cpu
  memory : m'.memory = o.memory
  controllers : ∀ e, o.result = .error e → m'.controllers = m.controllers

section Step

variable {m : Machine} {s : State} (hm : m.cpu = s.cpu)
include hm

theorem pcOf_eq : architecture.pcOf m = s.pc.toNat := by
  have hpc : architecture.pcOf m = m.cpu.register pc := rfl
  rw [hpc, hm]
  rfl

theorem cpu_advance : (architecture.advance 1 m).cpu = { s with pc := s.pc + 1 }.cpu := by
  have hcpu : (architecture.advance 1 m).cpu =
      (m.cpu.setRegister pc (architecture.pcOf m + 1)).cpu := rfl
  rw [hcpu, pcOf_eq hm, hm, cpu_setRegister_pc_next]

/-- The instruction with its operand ends the step as the effect of the operation says. -/
theorem ends_of_performs {start : Machine} {i : Instruction architecture.modes.length}
    {operand : Option Operand} {effect : Except ExecError (State × Memory)}
    (hstart : m.controllers = start.controllers)
    (h : Performs m effect ((i.behaviour operand).run m)) :
    Ends start (.ofEffect s m.memory effect) (i.execute operand m).1
      (i.execute operand m).2 := by
  rw [Instruction.execute]
  generalize (i.behaviour operand).run m = run at h
  cases h with
  | fails e => exact ⟨rfl, hm, rfl, fun _ _ => hstart⟩
  | succeeds hcpu =>
    exact ⟨congrArg (fun cpu => Except.ok cpu.ended) hcpu, hcpu, rfl, nofun⟩

/-- A step on a machine that shows a state, by what memory contains. -/
theorem step_of_cpu : ∃ opened : Machine, opened.cpu = { s with pc := s.pc + 1 }.cpu ∧
    opened.memory = m.memory ∧ opened.controllers = m.controllers ∧
    (m.memory.Contains s.pc.toNat 1 →
      let code := m.memory.cell s.pc.toNat
      let operand := m.memory.cell (s.pc + 1).toNat
      ((∀ i ∈ architecture.instructions, i.opcode ≠ code.toNat) →
        architecture.step m = (.error (.invalidOpcode s.pc.toNat code.toNat), opened)) ∧
      ∀ i ∈ architecture.instructions, i.opcode = code.toNat →
        (i.mode = none → architecture.step m = i.execute none opened) ∧
        ∀ k, i.mode = some k → (architecture.mode k).size = 1 →
          (¬ m.memory.Contains (s.pc + 1).toNat 1 → architecture.step m =
            (.error (.memory (Memory.outside (s.pc + 1).toNat 1)), opened)) ∧
          (m.memory.Contains (s.pc + 1).toNat 1 → architecture.step m =
            i.execute (some (operandOf k operand)) (architecture.advance 1 opened))) := by
  have htables : m.cpu.tables = (registers, indicators) := by
    rw [hm]
    rfl
  have hregisters := congrArg Prod.fst htables
  obtain ⟨r, hr, hmanual, hfit⟩ : ∃ r : Register,
      architecture.registers[architecture.pc]? = some r ∧ r.status = .manual ∧
        ∀ v, r.format.fit v r.size = Word.unsigned v 1 := ⟨_, rfl, rfl, fun _ => rfl⟩
  obtain ⟨hadvanced, -⟩ :=
    Architecture.advance_opcode (Architecture.checked_of_build build_draft) hr hmanual hregisters
  have hopened : (architecture.pastOpcode r m).cpu = { s with pc := s.pc + 1 }.cpu := by
    have hannounced : (m.record (.fetch (architecture.pcOf m))).cpu = s.cpu := hm
    exact (congrArg Machine.cpu hadvanced).symm.trans (cpu_advance hannounced)
  have hwidth : architecture.sizes.opcode = 1 := rfl
  have hcode := Memory.natOfBytes_slice_one m.memory s.pc.toNat
  have hoperand := Memory.natOfBytes_slice_one m.memory (s.pc + 1).toNat
  obtain ⟨-, hunknown, hknown⟩ :=
    Architecture.step_of_manual_pc build_draft hr hmanual hregisters
  simp only [pcOf_eq hm, hwidth, hfit, Nat.cast_one, unsigned_next, Int.toNat_natCast, hcode]
    at hunknown hknown
  refine ⟨architecture.pastOpcode r m, hopened, rfl, rfl, ?_⟩
  intro hin code operand
  refine ⟨hunknown hin, fun i hi hopcode => ?_⟩
  obtain ⟨hnone, hsome⟩ := hknown i hi hin hopcode
  refine ⟨hnone, fun k hk hsize => ?_⟩
  have h := hsome k hk
  simp only [hsize, hoperand, ← toInt_toInt8] at h
  exact h

end Step

/-- Take a machine with the registers of `edu1`, whose program counter is an unsigned byte and whose
accumulators are signed bytes, and any memory. A step gives what the interpreter of the table gives
for the state that the register file shows: the same result, which is the end latch or the same
error, the register file of the same state, and the same memory. If it fails, then the controllers
are as they were. -/
theorem step_eq_interpret {m : Machine} (htables : m.cpu.tables = (registers, indicators))
    (hpc : 0 ≤ m.cpu.register pc ∧ m.cpu.register pc ≤ 255)
    (ha : -128 ≤ m.cpu.register a ∧ m.cpu.register a ≤ 127)
    (hb : -128 ≤ m.cpu.register b ∧ m.cpu.register b ≤ 127) :
    ∃ s : State, m.cpu = s.cpu ∧
      Ends m (interpret s m.memory) (architecture.step m).1 (architecture.step m).2 := by
  obtain ⟨s, hm⟩ := exists_state htables hpc ha hb
  refine ⟨s, hm, ?_⟩
  rw [interpret]
  by_cases hin : m.memory.Contains s.pc.toNat 1
  · obtain ⟨opened, hcpu, hmemory, hcontrollers, hstep⟩ := step_of_cpu hm
    obtain ⟨hunknown, hknown⟩ := hstep hin
    rw [byteAt_of_contains hin]
    dsimp only
    by_cases hend : m.memory.cell s.pc.toNat = endOpcode
    · -- `.END` has no operand and sets the latch
      obtain ⟨i, hi, hopcode, hmode, hbehaviour⟩ := exists_end
      rw [if_pos hend, (hknown i hi (by rw [hopcode, hend])).1 hmode, Instruction.execute,
        hbehaviour]
      refine ⟨rfl, ?_, hmemory, nofun⟩
      show { opened.cpu with ended := true } = _
      rw [hcpu]
      rfl
    rw [if_neg hend]
    cases hop : Op.ofByte? (m.memory.cell s.pc.toNat) with
    | none =>
      rw [hunknown (opcode_ne_of_ofByte?_eq_none hend hop)]
      exact ⟨rfl, hcpu, hmemory, fun _ _ => hcontrollers⟩
    | some op =>
      obtain ⟨i, hi, hopcode, k, hk, hsize, hperforms⟩ := exists_instruction op
      rw [opcode_eq_of_ofByte?_eq_some hop] at hopcode
      obtain ⟨hout, hoperand⟩ := (hknown i hi hopcode).2 k hk hsize
      dsimp only
      by_cases hin' : m.memory.Contains (s.pc + 1).toNat 1
      · have hfetched := cpu_advance hcpu
        have heffect := hperforms hfetched (m.memory.cell (s.pc + 1).toNat)
        rw [hoperand hin', byteAt_of_contains hin']
        have h := ends_of_performs hfetched hcontrollers heffect
        rw [Architecture.memory_advance, hmemory] at h
        exact h
      · rw [hout hin', byteAt_of_not_contains hin']
        exact ⟨rfl, hcpu, hmemory, fun _ _ => hcontrollers⟩
  · have hpc' : architecture.pcOf m = s.pc.toNat := pcOf_eq hm
    obtain ⟨hout, -⟩ := Architecture.step_of_manual_pc (m := m) build_draft rfl rfl
      (congrArg Prod.fst htables)
    rw [hout (by rwa [hpc']), byteAt_of_not_contains hin, hpc']
    exact ⟨rfl, hm, rfl, fun _ _ => rfl⟩

/-- `ADD` is the last byte of a full memory, and its operand, which names `A`, is the first one. -/
def lastAdd : Machine where
  cpu := State.cpu ⟨255, 127, 1, true, false⟩
  memory := (Memory.zeroed 256).overlay 255 [Op.add.opcode]

theorem step_eq_interpret_lastAdd :
    Ends lastAdd ⟨.ok false, ⟨1, -128, 1, false, false⟩, lastAdd.memory⟩
      (architecture.step lastAdd).1 (architecture.step lastAdd).2 := by
  obtain ⟨s, hs, h⟩ :=
    step_eq_interpret (m := lastAdd) rfl (by decide) (by decide) (by decide)
  obtain rfl := State.cpu_injective hs
  have hcode : byteAt lastAdd.memory 255 = .ok Op.add.opcode := by decide +kernel
  have hoperand : byteAt lastAdd.memory (255 + 1) = .ok 0 := by decide +kernel
  have hop : Op.ofByte? Op.add.opcode = some .add := rfl
  have houtcome : interpret ⟨255, 127, 1, true, false⟩ lastAdd.memory =
      ⟨.ok false, ⟨1, -128, 1, false, false⟩, lastAdd.memory⟩ := by
    rw [interpret, hcode]
    dsimp only
    rw [if_neg (by decide), hop]
    dsimp only
    rw [hoperand]
    rfl
  rwa [houtcome] at h

end Breadboard.Edu1
