import Breadboard.Proofs.Mos6502.Step

/-!
# Why a step of the 6502 fails

With all the memory that it can address, the 6502 fails for few reasons, and `Fault` lists them. Two
instructions always fail, an opcode may be unknown, and there are three accesses that can go past
the last cell: an operand or a pointer of two bytes that begins there, and a pull with the stack
pointer there. All other addresses are cut off to what memory has (`fst_step_eq_error_iff_fault`).
That the registers hold what fits them is part of what every edit keeps (`Cpu.Mirrored.edits`). With
less memory more accesses fail, but an operand is never missing, and no instruction looks for the
address of an operand that has none.
-/

namespace Breadboard.Mos6502

open Breadboard.Action

variable {e : Entry} {operand : Option Operand} {o : Operand} {m m' : Machine} {err : ExecError}

/-- The instructions that pull, and how many bytes. -/
def pulling : List (String × Nat) := [("PLA", 1), ("PLP", 1), ("RTS", 2), ("RTI", 3)]

/-- The reasons for which a step fails in 64 KiB of memory. -/
inductive Fault (m : Machine) : ExecError → Prop
  /-- No entry of the table has the opcode at the program counter. -/
  | opcode {opcode : Int} (hread : m.memory.readUnsigned (architecture.pcOf m) 1 = .ok opcode)
    (hunknown : ∀ e ∈ opcodes, e.opcode ≠ opcode) :
    Fault m (.invalidOpcode (architecture.pcOf m) opcode)
  | brk {e : Entry} (h : e.At m) (hname : e.mnemonic = "BRK") : Fault m (.halted "BRK called")
  | decimal {e : Entry} (h : e.At m) (hname : e.mnemonic = "SED") :
    Fault m (.unimplemented "decimal mode")
  /-- An operand of two bytes begins at the last cell. -/
  | operand {e : Entry} (h : e.At m) (hwidth : e.addressing.width = 2)
    (hlast : behindOpcode m = 0xFFFF) : Fault m (.memory ⟨0xFFFF, 2, .pastEnd⟩)
  /-- The operand of an indirect jump points to the last cell. -/
  | pointer {e : Entry} (h : e.At m) (hname : e.mnemonic = "JMP")
    (hindirect : e.addressing = .indirect)
    (hlast : m.memory.readUnsigned (behindOpcode m) 2 = .ok 0xFFFF) :
    Fault m (.memory ⟨0xFFFF, 2, .pastEnd⟩)
  /-- After `k` of `n` pulls the stack pointer is at the last cell. -/
  | pull {e : Entry} {n k : Nat} (h : e.At m)
    (hname : (e.mnemonic, n) ∈ pulling) (hk : k < n)
    (hlast : m.cpu.register sp + k = 0xFFFF) : Fault m (.memory ⟨0x10000, 1, .pastEnd⟩)

/-! ## What the table says -/

section Table

-- the table has more entries than the default depth lets an evaluation go through
set_option maxRecDepth 1000

theorem operation_of_brk : ∀ e ∈ opcodes, e.mnemonic = "BRK" ↔ e.operation = .brk := by
  decide

theorem operation_of_decimal : ∀ e ∈ opcodes, e.mnemonic = "SED" ↔ e.operation = .setDecimal := by
  decide

theorem operation_of_jump : ∀ e ∈ opcodes, e.mnemonic = "JMP" ↔ e.operation = .jump := by
  decide

theorem mem_pulling : ∀ e ∈ opcodes, 0 < e.operation.pulls →
    (e.mnemonic, e.operation.pulls) ∈ pulling := by
  decide

theorem pulls_of_mem_pulling : ∀ e ∈ opcodes, ∀ p ∈ pulling, e.mnemonic = p.1 →
    e.operation.pulls = p.2 := by
  decide

theorem operation_of_indirect : ∀ e ∈ opcodes, e.addressing = .indirect → e.operation = .jump := by
  decide

/-- The instructions that always fail, or pull, have no operand. -/
theorem width_eq_zero : ∀ e ∈ opcodes, e.operation = .brk ∨ e.operation = .setDecimal ∨
    0 < e.operation.pulls → e.addressing.width = 0 := by
  decide

end Table

/-! ## Numbers in registers and operands -/

/-- A register of two bytes that fits its field holds the address of one of 65536 cells. -/
theorem register_mem (htables : m.cpu.tables = (registers, indicators))
    (hfit : ∀ r ∈ m.cpu.registers, r.format.fit r.value r.size = r.value) {i : Nat} {r : Register}
    (hr : registers[i]? = some r) (hformat : r.format = .unsigned) (hsize : r.size = 2) :
    0 ≤ m.cpu.register i ∧ m.cpu.register i < 65536 := by
  obtain ⟨cell, hcell, rfl⟩ := exists_register htables hr
  have hvalue := hfit cell (List.mem_of_getElem? hcell)
  rw [hformat, hsize] at hvalue
  rw [Cpu.register, hcell, Option.map_some, Option.getD_some, ← hvalue]
  exact ⟨Word.unsigned_nonneg _ (by decide), Word.unsigned_lt _ (by decide)⟩

/-- The operand as an unsigned number is what its bytes write. -/
theorem unsigned_of_operandAt (ho : e.operandAt m = some o) :
    o.unsigned = Word.natOfBytes (m.memory.slice (behindOpcode m).toNat e.addressing.width) := by
  obtain ⟨k, -, rfl⟩ := Option.map_eq_some_iff.1 ho
  have hwidth := e.addressing.width_le
  have hlt := Word.natOfBytes_lt (m.memory.slice (behindOpcode m).toNat e.addressing.width)
  rw [Memory.length_slice] at hlt
  rw [Operand.unsigned]
  dsimp only
  rw [Word.unsigned_signed, Word.unsigned_of_lt (by omega) (by omega)]

/-- The operand as an unsigned number is the address of one of 65536 cells. -/
theorem unsigned_operand_mem (ho : e.operandAt m = some o) :
    0 ≤ o.unsigned ∧ o.unsigned < 65536 := by
  have hwidth := e.addressing.width_le
  have hmono : Word.modulus e.addressing.width ≤ 65536 := Word.modulus_mono hwidth
  rw [Operand.unsigned, size_of_operandAt ho]
  have hlt := Word.unsigned_lt o.value (w := e.addressing.width) (by omega)
  exact ⟨Word.unsigned_nonneg _ (by omega), by omega⟩

/-! ## Jumping through a pointer -/

theorem run_jump_of_indirect (hop : e.operation = .jump) (hindirect : e.addressing = .indirect) :
    (m.memory.Contains o.unsigned 2 → ∃ m', (e.behaviour (some o)).run m = (.ok (), m')) ∧
    (¬ m.memory.Contains o.unsigned 2 → (e.behaviour (some o)).run m =
      (.error (.memory (Memory.outside o.unsigned 2)), m)) := by
  obtain ⟨opcode, mnemonic, a, op⟩ := e
  obtain rfl : op = .jump := hop
  obtain rfl : a = .indirect := hindirect
  constructor
  · exact fun hin => ⟨_, run_load_of_contains (by decide) hin _⟩
  · exact fun hout => run_load_of_not_contains hout _

/-! ## Errors of behaviours -/

/-- In 64 KiB of memory a behaviour fails if it is made to fail, or jumps through a pointer at the
last cell, or pulls too much. -/
theorem error_of_behaviour {s : Nat} (he : e ∈ opcodes) (h : HasStack s m) (hs : s < 65536)
    (hoperand : operand = none → e.addressing = .implied)
    (hwidth : ∀ o, operand = some o → o.size = e.addressing.width)
    (hrun : (e.behaviour operand).run m = (.error err, m')) :
    (e.operation = .brk ∧ err = .halted "BRK called") ∨
    (e.operation = .setDecimal ∧ err = .unimplemented "decimal mode") ∨
    (e.operation = .jump ∧ e.addressing = .indirect ∧ (∃ o, operand = some o ∧
      ¬ m.memory.Contains o.unsigned 2 ∧ err = .memory (Memory.outside o.unsigned 2))) ∨
    (65536 ≤ s + e.operation.pulls ∧ err = .memory ⟨0x10000, 1, .pastEnd⟩) := by
  by_cases hbrk : e.operation = .brk
  · rw [behaviour_of_brk hbrk] at hrun
    obtain ⟨herr, -⟩ := Prod.mk.inj hrun
    exact .inl ⟨hbrk, (Except.error.inj herr).symm⟩
  by_cases hdecimal : e.operation = .setDecimal
  · rw [behaviour_of_decimal hdecimal] at hrun
    obtain ⟨herr, -⟩ := Prod.mk.inj hrun
    exact .inr (.inl ⟨hdecimal, (Except.error.inj herr).symm⟩)
  by_cases hpulls : 0 < e.operation.pulls
  · have hpulling : Pulls e.operation.pulls (e.behaviour operand) := pulls_behaviour hpulls
    obtain ⟨hroom, hlast⟩ := hpulling s m h hs
    by_cases hcells : s + e.operation.pulls < 65536
    · obtain ⟨u, m₁, hok, -⟩ := hroom hcells
      simp [hok] at hrun
    · obtain ⟨m₁, hfail⟩ := hlast (by omega)
      rw [hfail] at hrun
      obtain ⟨herr, -⟩ := Prod.mk.inj hrun
      exact .inr (.inr (.inr ⟨by omega, (Except.error.inj herr).symm⟩))
  by_cases hindirect : e.addressing = .indirect
  · have hop := operation_of_indirect e he hindirect
    cases hsome : operand with
    | none => simp [hoperand hsome] at hindirect
    | some o =>
      rw [hsome] at hrun
      obtain ⟨hin, hout⟩ := run_jump_of_indirect (o := o) (m := m) hop hindirect
      by_cases hpointer : m.memory.Contains o.unsigned 2
      · obtain ⟨m₁, hok⟩ := hin hpointer
        simp [hok] at hrun
      · rw [hout hpointer] at hrun
        obtain ⟨herr, -⟩ := Prod.mk.inj hrun
        exact .inr (.inr (.inl ⟨hop, hindirect, o, rfl, hpointer, (Except.error.inj herr).symm⟩))
  -- all other courses succeed
  · have hcourse : Course e operand (e.behaviour operand) := course (accepts_of_mem e he) hoperand
    obtain ⟨m₁, hok⟩ := hcourse.exists_run h hwidth (by omega) hbrk hdecimal hindirect
    simp [hok] at hrun

/-! ## Errors of steps -/

/-- Of the accesses to one or two cells, only two cells from the last one on go past the end. -/
theorem not_contains_iff (hsize : m.memory.size = 65536) {address : Int} {length : Nat}
    (hlow : 0 ≤ address) (hhigh : address < 65536) (hlength : length ≤ 2) :
    ¬ m.memory.Contains address length ↔ length = 2 ∧ address = 0xFFFF := by
  rw [Memory.Contains]
  omega

theorem behindOpcode_mem (m : Machine) : 0 ≤ behindOpcode m ∧ behindOpcode m < 65536 :=
  ⟨Word.unsigned_nonneg _ (by decide), Word.unsigned_lt _ (by decide)⟩

section Full

variable (htables : m.cpu.tables = (registers, indicators))
  (hfit : ∀ r ∈ m.cpu.registers, r.format.fit r.value r.size = r.value)
  (hsize : m.memory.size = 65536)
include htables hfit hsize

/-- The fetch of an instruction leaves the stack alone. -/
theorem hasStack_of_counterMoved (hmoved : CounterMoved m m') :
    ∃ s : Nat, HasStack s m' ∧ s < 65536 ∧ m.cpu.register sp = s := by
  obtain ⟨hlow, hhigh⟩ := register_mem htables hfit (i := sp) rfl rfl rfl
  obtain ⟨s, hs⟩ := Int.eq_ofNat_of_zero_le hlow
  have hkept : m'.cpu.register sp = m.cpu.register sp := hmoved.register (by decide)
  have hbelow : s < 65536 := by omega
  refine ⟨s, ⟨hmoved.tables.trans htables, ?_, ?_⟩, hbelow, hs⟩
  · rw [hmoved.memory, hsize]
  · rw [hkept, hs, unsigned_natCast hbelow]

theorem fault_of_step (hstep : (architecture.step m).1 = .error err) : Fault m err := by
  rcases step_cases m with ⟨hout, -⟩ | ⟨opcode, hread, hunknown, hfail⟩ | ⟨e, hat⟩
  · obtain ⟨hlow, hhigh⟩ := register_mem htables hfit (i := pc) rfl rfl rfl
    have hin : m.memory.Contains (architecture.pcOf m) 1 := ⟨hlow, by rw [hsize]; exact hhigh⟩
    exact (hout hin).elim
  · rw [hfail] at hstep
    obtain rfl := Except.error.inj hstep
    exact .opcode hread hunknown
  · obtain ⟨hfails, hruns⟩ := step_of_at htables hat
    obtain ⟨hlow, hhigh⟩ := behindOpcode_mem m
    by_cases hin : m.memory.Contains (behindOpcode m) e.addressing.width
    · obtain ⟨opened, hmoved, -, hexecute⟩ := hruns hin
      rw [hexecute] at hstep
      obtain ⟨m', hrun⟩ := fst_execute_eq_error_iff.1 hstep
      obtain ⟨s, hstack, hs, hsp⟩ := hasStack_of_counterMoved htables hfit hsize hmoved
      rcases error_of_behaviour hat.mem hstack hs operandAt_eq_none_iff.1
          (fun o ho => size_of_operandAt ho) hrun with
        ⟨hop, rfl⟩ | ⟨hop, rfl⟩ | ⟨hop, hindirect, o, ho, hpointer, rfl⟩ | ⟨hlast, rfl⟩
      · exact .brk hat ((operation_of_brk e hat.mem).2 hop)
      · exact .decimal hat ((operation_of_decimal e hat.mem).2 hop)
      · have hwidth : e.addressing.width = 2 := by rw [hindirect]; rfl
        have hvalue := unsigned_of_operandAt ho
        rw [hwidth] at hin hvalue
        have hread := Memory.readUnsigned_of_contains (by decide) hin
        rw [← hvalue] at hread
        have hsmall := unsigned_operand_mem ho
        rw [not_contains_iff (by rw [hmoved.memory, hsize]) hsmall.1 hsmall.2 le_rfl] at hpointer
        rw [hpointer.2] at hread ⊢
        exact .pointer hat ((operation_of_jump e hat.mem).2 hop) hindirect hread
      · have hpulls : 0 < e.operation.pulls := by omega
        have hk : 65535 - s < e.operation.pulls := by omega
        exact .pull hat (mem_pulling e hat.mem hpulls) hk (by omega)
    · obtain ⟨opened, -, -, hfail⟩ := hfails hin
      rw [hfail] at hstep
      obtain rfl := Except.error.inj hstep
      obtain ⟨hwidth, hlast⟩ :=
        (not_contains_iff hsize hlow hhigh e.addressing.width_le).1 hin
      rw [hlast, hwidth]
      exact .operand hat hwidth hlast

theorem step_of_fault (hfault : Fault m err) : (architecture.step m).1 = .error err := by
  -- the step fails where the behaviour does, if the operand is there
  have hbehaviour {e : Entry} {err : ExecError} (hat : e.At m)
      (hin : m.memory.Contains (behindOpcode m) e.addressing.width)
      (hrun : ∀ opened, CounterMoved m opened →
        ∃ m', (e.behaviour (e.operandAt m)).run opened = (.error err, m')) :
      (architecture.step m).1 = .error err := by
    obtain ⟨-, hruns⟩ := step_of_at htables hat
    obtain ⟨opened, hmoved, -, hexecute⟩ := hruns hin
    rw [hexecute]
    exact fst_execute_eq_error_iff.2 (hrun opened hmoved)
  have hnone {e : Entry} (hat : e.At m) (hop : e.operation = .brk ∨ e.operation = .setDecimal ∨
      0 < e.operation.pulls) : m.memory.Contains (behindOpcode m) e.addressing.width := by
    rw [width_eq_zero e hat.mem hop]
    exact hat.contains_behindOpcode
  cases hfault with
  | opcode hread hunknown => exact fst_step_of_unknown hread hunknown
  | brk hat hname =>
    have hop := (operation_of_brk _ hat.mem).1 hname
    refine hbehaviour hat (hnone hat (.inl hop)) fun opened _ => ?_
    rw [behaviour_of_brk hop]
    exact ⟨_, rfl⟩
  | decimal hat hname =>
    have hop := (operation_of_decimal _ hat.mem).1 hname
    refine hbehaviour hat (hnone hat (.inr (.inl hop))) fun opened _ => ?_
    rw [behaviour_of_decimal hop]
    exact ⟨_, rfl⟩
  | @operand e hat hwidth hlast =>
    obtain ⟨hfails, -⟩ := step_of_at htables hat
    obtain ⟨hlow, hhigh⟩ := behindOpcode_mem m
    have hout := (not_contains_iff hsize hlow hhigh e.addressing.width_le).2 ⟨hwidth, hlast⟩
    obtain ⟨opened, -, -, hfail⟩ := hfails hout
    rw [hfail, hwidth, hlast]
    rfl
  | @pointer e hat hname hindirect hlast =>
    have hop := (operation_of_jump _ hat.mem).1 hname
    have hwidth : e.addressing.width = 2 := by rw [hindirect]; rfl
    have hin : m.memory.Contains (behindOpcode m) 2 := by
      by_contra hout
      rw [Memory.readUnsigned_of_not_contains hout] at hlast
      simp at hlast
    refine hbehaviour hat (by rwa [hwidth]) fun opened hmoved => ?_
    cases ho : e.operandAt m with
    | none => simp [operandAt_eq_none_iff.1 ho] at hindirect
    | some o =>
      have hvalue := unsigned_of_operandAt ho
      rw [Memory.readUnsigned_of_contains (by decide) hin, ← hwidth, ← hvalue] at hlast
      have hpointer := Except.ok.inj hlast
      have hout : ¬ opened.memory.Contains o.unsigned 2 := by
        rw [hmoved.memory, hpointer, Memory.Contains]
        omega
      refine ⟨opened, ?_⟩
      rw [(run_jump_of_indirect hop hindirect).2 hout, hpointer]
      rfl
  | @pull e n k hat hname hk hlast =>
    have hn := pulls_of_mem_pulling e hat.mem _ hname rfl
    have hpulls : 0 < e.operation.pulls := by omega
    refine hbehaviour hat (hnone hat (.inr (.inr hpulls))) fun opened hmoved => ?_
    obtain ⟨s, hstack, hs, hsp⟩ := hasStack_of_counterMoved htables hfit hsize hmoved
    have hpulling : Pulls e.operation.pulls (e.behaviour (e.operandAt m)) := pulls_behaviour hpulls
    obtain ⟨-, hfail⟩ := hpulling s opened hstack hs
    exact hfail (by omega)

end Full

/-! ## Errors in memory of any size -/

/-- The errors that a step can end in. -/
theorem exists_error_of_step (htables : m.cpu.tables = (registers, indicators))
    (hstep : (architecture.step m).1 = .error err) :
    err = .halted "BRK called" ∨ err = .unimplemented "decimal mode" ∨
      (∃ address opcode, err = .invalidOpcode address opcode) ∨ ∃ bounds, err = .memory bounds := by
  rcases step_cases m with ⟨-, hfail⟩ | ⟨opcode, -, -, hfail⟩ | ⟨e, hat⟩
  · rw [hfail] at hstep
    exact .inr (.inr (.inr ⟨_, (Except.error.inj hstep).symm⟩))
  · rw [hfail] at hstep
    exact .inr (.inr (.inl ⟨_, _, (Except.error.inj hstep).symm⟩))
  · obtain ⟨hfails, hruns⟩ := step_of_at htables hat
    by_cases hin : m.memory.Contains (behindOpcode m) e.addressing.width
    · obtain ⟨opened, -, -, hexecute⟩ := hruns hin
      rw [hexecute] at hstep
      obtain ⟨m', hrun⟩ := fst_execute_eq_error_iff.1 hstep
      by_cases hbrk : e.operation = .brk
      · rw [behaviour_of_brk hbrk] at hrun
        exact .inl (Except.error.inj (Prod.mk.inj hrun).1).symm
      by_cases hdecimal : e.operation = .setDecimal
      · rw [behaviour_of_decimal hdecimal] at hrun
        exact .inr (.inl (Except.error.inj (Prod.mk.inj hrun).1).symm)
      · exact .inr (.inr (.inr ((hat.course.unfailing hbrk hdecimal).exists_memory hrun)))
    · obtain ⟨opened, -, -, hfail⟩ := hfails hin
      rw [hfail] at hstep
      exact .inr (.inr (.inr ⟨_, (Except.error.inj hstep).symm⟩))

/-! ## The two together -/

/-- In 64 KiB of memory, whatever they hold and whatever the registers hold that fits them, a step
fails exactly for the reasons listed. In a memory of any size, no step fails because an operand is
missing, and decimal mode is the only thing that is not modelled. -/
theorem fst_step_eq_error_iff_fault :
    (∀ {m : Machine} {err : ExecError}, m.cpu.tables = (registers, indicators) →
      (∀ r ∈ m.cpu.registers, r.format.fit r.value r.size = r.value) →
      m.memory.size = 65536 → ((architecture.step m).1 = .error err ↔ Fault m err)) ∧
    ∀ {m : Machine} {err : ExecError}, m.cpu.tables = (registers, indicators) →
      (architecture.step m).1 = .error err →
      (∀ mnemonic, err ≠ .missingOperand mnemonic) ∧
        ∀ what, err = .unimplemented what → what = "decimal mode" := by
  constructor
  · intro m err htables hfit hsize
    exact ⟨fault_of_step htables hfit hsize, step_of_fault htables hfit hsize⟩
  · intro m err htables hstep
    rcases exists_error_of_step htables hstep with
      rfl | rfl | ⟨address, opcode, rfl⟩ | ⟨bounds, rfl⟩
    · simp
    · simp
    · simp
    · simp

/-- A return that pulls its second byte at the last cell. -/
theorem fst_step_eq_error_iff_fault_rts :
    let m : Machine :=
      { cpu := (architecture.freshCpu.setRegister sp 0xFFFE).cpu
        memory := (Memory.zeroed 65536).overlay 0 [0x60] }
    (∀ r ∈ m.cpu.registers, r.format.fit r.value r.size = r.value) ∧
      Fault m (.memory ⟨0x10000, 1, .pastEnd⟩) ∧
      (architecture.step m).1 = .error (.memory ⟨0x10000, 1, .pastEnd⟩) ∧
      ∀ mnemonic, ExecError.memory ⟨0x10000, 1, .pastEnd⟩ ≠ .missingOperand mnemonic := by
  intro m
  have htables : m.cpu.tables = (registers, indicators) := by decide
  have hfit : ∀ r ∈ m.cpu.registers, r.format.fit r.value r.size = r.value := by decide
  have hsize : m.memory.size = 65536 := by
    rw [Memory.size_overlay, Memory.size_zeroed]
  have hpc : architecture.pcOf m = (0 : Nat) := by decide
  have hread : m.memory.readUnsigned (architecture.pcOf m) 1 = .ok 0x60 := by
    rw [hpc]
    exact Memory.readUnsigned_of_slice (v := 0x60) (by decide) (by omega)
      (Memory.slice_overlay_self _ (by rw [Memory.size_zeroed]; decide))
  have hat : (⟨0x60, "RTS", .implied, .ret⟩ : Entry).At m := ⟨by decide, hread⟩
  obtain ⟨hfull, hany⟩ := fst_step_eq_error_iff_fault
  have hfault : Fault m (.memory ⟨0x10000, 1, .pastEnd⟩) :=
    .pull (n := 2) (k := 1) hat (by decide) (by decide) (by decide)
  have hstep := (hfull htables hfit hsize).2 hfault
  exact ⟨hfit, hfault, hstep, (hany htables hstep).1⟩

end Breadboard.Mos6502
