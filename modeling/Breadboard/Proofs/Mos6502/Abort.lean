import Breadboard.Proofs.Mos6502.Step

/-!
# Instructions of the 6502 that fail

Most instructions check all that they need before they change anything: an access that fails is the
first one, or it goes where an access succeeded before. So if such an instruction fails, then the
program counter has moved, and nothing else happened (`counterMoved_of_step_error`). The exceptions
work on the stack, which moves byte by byte, or set the indicator for decimal mode.
-/

namespace Breadboard.Mos6502

variable {m m' : Machine} {e : Entry}

/-- The instructions that may fail halfway. -/
def halfway : List String := ["JSR", "RTS", "RTI", "PLA", "PLP", "SED"]

theorem operation_of_not_mem_halfway : ∀ e ∈ opcodes, e.mnemonic ∉ halfway →
    e.operation ≠ .call ∧ e.operation.pulls = 0 ∧ e.operation ≠ .setDecimal := by
  decide +kernel

/-- Take a machine with the registers of the 6502 and any memory, and at its program counter an
instruction other than the few that may fail halfway. If the step fails, then memory, the end latch,
the indicators and all registers but the program counter are as before, and neither a write to
memory nor a delivery was told. The program counter is past the opcode if the operand is not in
memory, and past the whole instruction otherwise. -/
theorem counterMoved_of_step_error {err : ExecError}
    (htables : m.cpu.tables = (registers, indicators)) (h : e.At m) (hname : e.mnemonic ∉ halfway)
    (hstep : architecture.step m = (.error err, m')) :
    CounterMoved m m' ∧
      (¬ m.memory.Contains (behindOpcode m) e.addressing.width ∧
          architecture.pcOf m' = behindOpcode m ∨
        m.memory.Contains (behindOpcode m) e.addressing.width ∧
          architecture.pcOf m' = Word.unsigned (behindOpcode m + e.addressing.width) 2) := by
  obtain ⟨hfails, hruns⟩ := step_of_at htables h
  by_cases hin : m.memory.Contains (behindOpcode m) e.addressing.width
  · obtain ⟨opened, hmoved, hpc, hexecute⟩ := hruns hin
    rw [hexecute, execute_eq_error_iff] at hstep
    obtain ⟨hcall, hpulls, hdecimal⟩ := operation_of_not_mem_halfway e h.mem hname
    obtain rfl := h.course.eq_of_run_error (hmoved.tables.trans htables) hcall hpulls hdecimal hstep
    exact ⟨hmoved, .inr ⟨hin, hpc⟩⟩
  · obtain ⟨opened, hmoved, hpc, hfail⟩ := hfails hin
    rw [hfail] at hstep
    obtain ⟨-, rfl⟩ := Prod.mk.inj hstep
    exact ⟨hmoved, .inl ⟨hin, hpc⟩⟩

/-- A rotation that finds nothing to rotate: its operand lies behind the four bytes of memory. -/
theorem counterMoved_of_step_error_ror :
    let m : Machine := { cpu := architecture.freshCpu, memory := ⟨#[0x6E, 0x00, 0x04, 0xEA]⟩ }
    ∃ m', architecture.step m = (.error (.memory ⟨4, 1, .pastEnd⟩), m') ∧ CounterMoved m m' ∧
      architecture.pcOf m' = 3 := by
  intro m
  have hat : (⟨0x6E, "ROR", .absolute, .shift .rotateRight⟩ : Entry).At m :=
    ⟨by decide, by decide⟩
  have hfails : (architecture.step m).1 = .error (.memory ⟨4, 1, .pastEnd⟩) := by decide
  cases hstep : architecture.step m with
  | mk result m' =>
    rw [hstep] at hfails
    obtain rfl : result = _ := hfails
    obtain ⟨hmoved, hpc⟩ := counterMoved_of_step_error (by decide) hat (by decide) hstep
    -- the operand itself is there
    have hin : m.memory.Contains (behindOpcode m) 2 := by decide
    have hpast : Word.unsigned (behindOpcode m + (2 : Nat)) 2 = 3 := by decide
    rcases hpc with ⟨hout, -⟩ | ⟨-, hpc⟩
    · exact (hout hin).elim
    · exact ⟨m', rfl, hmoved, hpc.trans hpast⟩

end Breadboard.Mos6502
