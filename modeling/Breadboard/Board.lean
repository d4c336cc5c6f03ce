import Breadboard.Assembler.Program
import Breadboard.Board.Config
import Breadboard.Catalog
import Breadboard.Processor

/-!
# The board

A session with one processor, its memory with the devices attached to it, and the program last
assembled. Loading clears memory, resets the processor and stores the program; a program with
problems is kept so that they can be shown, but nothing can be executed until a load succeeds
(`step_of_entry_eq_none`).
-/

namespace Breadboard

/-! ## Errors and outcomes -/

/-- Why a board cannot be built. -/
inductive BuildError where
  | unknownArchitecture (name : String)
  | tables (e : TableError)
  | device (e : DeviceError)
  deriving DecidableEq, Repr

/-- The text of the error. -/
def BuildError.message : BuildError → String
  | .unknownArchitecture name => s!"unknown architecture `{name}`"
  | .tables e => e.message
  | .device e => e.message

/-- Why an operation of a board fails. -/
inductive BoardError where
  | load (e : LoadError)
  | exec (e : ExecError)
  /-- No program was loaded successfully. -/
  | noProgram
  deriving DecidableEq, Repr

/-- The text of the error. -/
def BoardError.message : BoardError → String
  | .load e => e.message
  | .exec e => e.message
  | .noProgram => "no program loaded"

/-- How many steps a run took and whether the program ended. -/
structure RunOutcome where
  steps : Nat
  ended : Bool
  deriving DecidableEq, Repr

/-! ## The session -/

/-- A processor, its memory and devices, and the program last assembled. -/
structure Board where
  arch : Architecture
  config : BoardConfig
  machine : Machine
  program : Option Program := none
  /-- The entry point of the program, if it was loaded successfully. -/
  entry : Option Int := none

namespace Board

/-- Builds a board on an architecture: memory, then the devices in order, then the check that their
windows lie inside memory. -/
def buildOn (arch : Architecture) (config : BoardConfig) : Except BuildError Board :=
  let size := config.memory.resolve arch.sizes.address
  match ({} : Controller).attachAll config.devices with
  | .error e => .error (.device e)
  | .ok controller =>
    match controller.checkWindows size with
    | .error e => .error (.device e)
    | .ok () =>
      let machine : Machine :=
        { cpu := arch.freshCpu, memory := .zeroed size, controllers := [controller] }
      .ok { arch, config, machine := (arch.reset machine).forget }

/-- Builds a board on the architecture that the description names. -/
def build (config : BoardConfig) : Except BuildError Board :=
  match Catalog.architecture? config.architecture with
  | none => .error (.unknownArchitecture config.architecture)
  | some arch => buildOn arch config

/-- The machine with memory zeroed and the processor reset. -/
def blank (b : Board) : Machine := b.arch.reset b.machine.clearMemory

/-- Assembles `source` and loads it in place of the previous program. The program is kept even if it
cannot be loaded. -/
def load (b : Board) (source : String) : Except LoadError Int × Board :=
  let machine := b.blank
  let program := Program.assemble b.arch source machine.memory.size
  match program.load machine with
  | (.error e, machine) => (.error e, { b with machine, program := some program, entry := none })
  | (.ok entry, machine) =>
    let machine := (b.arch.setPc machine entry).edit (.ended false)
    (.ok entry, { b with machine, program := some program, entry := some entry })

/-- Executes one instruction. The result is the end latch. -/
def step (b : Board) : Except BoardError Bool × Board :=
  match b.entry with
  | none => (.error .noProgram, b)
  | some _ =>
    let { arch, config, machine, program, entry } := b
    match arch.step machine with
    | (.error e, machine) => (.error (.exec e), { arch, config, machine, program, entry })
    | (.ok ended, machine) => (.ok ended, { arch, config, machine, program, entry })

/-- Executes up to `limit` instructions after the first `done`. -/
def runFrom (done : Nat) : Nat → Board → Except BoardError RunOutcome × Board
  | 0, b => (.ok ⟨done, false⟩, b)
  | limit + 1, b =>
    match b.step with
    | (.error e, b) => (.error e, b)
    | (.ok true, b) => (.ok ⟨done + 1, true⟩, b)
    | (.ok false, b) => runFrom (done + 1) limit b

/-- Executes instructions until the program ends or `limit` of them were executed. -/
def run (b : Board) (limit : Nat) : Except BoardError RunOutcome × Board := runFrom 0 limit b

/-- Clears memory, resets the processor and loads the current program again, if it was loaded
before. -/
def reset (b : Board) : Except LoadError Unit × Board :=
  let machine := b.blank
  match b.program, b.entry with
  | some program, some _ =>
    match program.load machine with
    | (.error e, machine) => (.error e, { b with machine })
    | (.ok entry, machine) =>
      (.ok (), { b with machine := (b.arch.setPc machine entry).edit (.ended false) })
  | _, _ => (.ok (), { b with machine := machine.edit (.ended false) })

/-- Removes all devices. -/
def teardown (b : Board) : Board := { b with machine := b.machine.detachAll }

/-- The instruction that the program counter has reached. -/
def currentLine? (b : Board) : Option Line :=
  b.program.bind (·.lineFor? (b.arch.pcOf b.machine))

/-- Without a loaded program nothing is executed. -/
theorem step_of_entry_eq_none {b : Board} (h : b.entry = none) :
    b.step = (.error .noProgram, b) := by
  simp [step, h]

end Board

end Breadboard
