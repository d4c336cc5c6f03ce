import Breadboard.Architecture

/-!
# The processor

An architecture executes a machine one instruction at a time. A step announces the fetch, reads the
opcode and moves the program counter past it, looks the opcode up, reads the operand and moves the
program counter past it, carries the instruction out, and reports the end latch. A failure leaves
the machine as it was at that point. `run` takes steps up to a limit; `steps_run_le` says that it
never takes more.
-/

namespace Breadboard

namespace Architecture

variable (arch : Architecture)

/-- The program counter. -/
def pcOf (m : Machine) : Int := m.cpu.register arch.pc

/-- Moves the program counter. -/
def setPc (m : Machine) (address : Int) : Machine := m.edit (.register arch.pc address)

/-- Zeroes registers and indicators, then makes the changes that the architecture asks for. -/
def reset (m : Machine) : Machine := (m.edit .reset).edits arch.onReset

/-- Reads the operand of an instruction at the program counter and moves the program counter past
it. -/
def fetchOperand (i : Instruction arch.modes.length) (m : Machine) :
    Except BoundsError (Option Operand) × Machine :=
  match i.mode with
  | none => (.ok none, m)
  | some mode =>
    let size := (arch.mode mode).size
    let address := arch.pcOf m
    match m.memory.read address size with
    | .error e => (.error e, m)
    | .ok value => (.ok (some { mode := mode.val, value, size }), arch.setPc m (address + size))

/-- Executes one instruction. The result is the end latch. -/
def step (m : Machine) : Except ExecError Bool × Machine :=
  let address := arch.pcOf m
  let m := m.record (.fetch address)
  match m.memory.readUnsigned address arch.sizes.opcode with
  | .error e => (.error (.memory e), m)
  | .ok opcode =>
    let m := arch.setPc m (address + arch.sizes.opcode)
    match arch.instruction? opcode with
    | none => (.error (.invalidOpcode address opcode), m)
    | some i =>
      match arch.fetchOperand i m with
      | (.error e, m) => (.error (.memory e), m)
      | (.ok operand, m) =>
        match (i.behaviour operand).run m with
        | (.error e, m) => (.error e, m)
        | (.ok (), m) => (.ok m.cpu.ended, m)

/-- Why a run stopped. -/
inductive Stop where
  | ended
  | limit
  | failed (e : ExecError)
  deriving DecidableEq, Repr

/-- How many steps a run took, the failing one included, and why it stopped. -/
structure Run where
  steps : Nat
  stop : Stop
  deriving DecidableEq, Repr

/-- Takes up to `limit` further steps after `done` steps. -/
def runFrom (done : Nat) : Nat → Machine → Run × Machine
  | 0, m => (⟨done, .limit⟩, m)
  | limit + 1, m =>
    match arch.step m with
    | (.error e, m) => (⟨done + 1, .failed e⟩, m)
    | (.ok true, m) => (⟨done + 1, .ended⟩, m)
    | (.ok false, m) => runFrom (done + 1) limit m

/-- Takes up to `limit` steps, until the end latch is set or a step fails. -/
def run (limit : Nat) (m : Machine) : Run × Machine := arch.runFrom 0 limit m

theorem steps_runFrom_le (done limit : Nat) (m : Machine) :
    (arch.runFrom done limit m).1.steps ≤ done + limit := by
  induction limit generalizing done m with
  | zero => exact Nat.le_refl _
  | succ limit ih =>
    unfold runFrom
    split
    · exact Nat.add_le_add_left (by omega) _
    · exact Nat.add_le_add_left (by omega) _
    · exact Nat.le_trans (ih _ _) (by omega)

/-- A run takes no more steps than its limit. -/
theorem steps_run_le (limit : Nat) (m : Machine) : (arch.run limit m).1.steps ≤ limit := by
  simpa [run] using arch.steps_runFrom_le 0 limit m

end Architecture

end Breadboard
