import Breadboard.Assembler.Classification
import Breadboard.Assembler.Resolution

/-!
# Programs

Source text is assembled in three passes: every line is classified, the lines are placed, and labels
are resolved. Assembling never fails; problems stay with their lines. Loading stores a program in
memory, and only one whose lines are all without a problem: otherwise memory is not touched
(`load_of_not_isOk`).
-/

namespace Breadboard

/-- A problem with the number of its line. -/
structure NumberedError where
  line : Nat
  error : LineError
  deriving DecidableEq, Repr

/-- The text of the error. -/
def NumberedError.message (e : NumberedError) : String := s!"Line {e.line}: {e.error.message}"

/-- Why a program is not loaded. -/
inductive LoadError where
  /-- Some lines have problems; nothing was stored. -/
  | assembly (errors : List NumberedError)
  /-- No line is an instruction; nothing was stored. -/
  | noInstruction
  /-- A line does not fit into the memory that the program is loaded into. -/
  | memory (e : BoundsError)
  deriving DecidableEq, Repr

/-- The text of the error: one line for every problem. -/
def LoadError.message : LoadError → String
  | .assembly errors => "\n".intercalate (errors.map NumberedError.message)
  | .noInstruction => "No instruction"
  | .memory e => e.message

/-- The problems of lines that the error reports. -/
def LoadError.lineErrors : LoadError → List NumberedError
  | .assembly errors => errors
  | _ => []

/-- An assembled source text. -/
structure Program where
  lines : List Line
  symbols : SymbolTable
  deriving DecidableEq, Repr

namespace Machine

/-- Stores fields in memory in order, up to the first that is refused. -/
def writeAll (m : Machine) : List MemoryWrite → Except BoundsError Unit × Machine
  | [] => (.ok (), m)
  | w :: rest =>
    match m.write w.address w.length w.value with
    | (.error e, m) => (.error e, m)
    | (.ok (), m) => writeAll m rest

end Machine

namespace Program

/-- Assembles `source` for a memory of `memorySize` bytes. -/
def assemble (arch : Architecture) (source : String) (memorySize : Nat) : Program :=
  let lines := (SourceLine.split arch.rules.comment source).map arch.classify
  let (lines, state) := Layout.placeAll memorySize {} lines
  { lines := lines.map (Resolution.resolve state.symbols), symbols := state.symbols }

/-- All problems in the order of the source. -/
def errors (p : Program) : List NumberedError :=
  p.lines.flatMap fun l => l.errors.map fun e => { line := l.number, error := e }

/-- No line has a problem. -/
def isOk (p : Program) : Bool := p.lines.all (·.errors.isEmpty)

/-- The address of the first instruction. -/
def entryPoint? (p : Program) : Option Int := (p.lines.find? (·.isCode)).bind (·.address)

/-- The fields that the program stores in memory, in order. -/
def writes (p : Program) : List MemoryWrite := p.lines.flatMap Line.writes

/-- Stores the program in memory and gives the address of its first instruction. -/
def load (p : Program) (m : Machine) : Except LoadError Int × Machine :=
  if ! p.isOk then (.error (.assembly p.errors), m)
  else
    match p.entryPoint? with
    | none => (.error .noInstruction, m)
    | some entry =>
      match m.writeAll p.writes with
      | (.error e, m) => (.error (.memory e), m)
      | (.ok (), m) => (.ok entry, m)

/-- Instructions and labels, the rows to show while stepping. -/
def rows (p : Program) : List Line := p.lines.filter fun l => l.isCode || l.isLabel

/-- The last instruction whose address is at most `address`. -/
def lineFor? (p : Program) (address : Int) : Option Line :=
  p.lines.reverse.find? fun l => l.isCode && l.address.any (· ≤ address)

/-- A program with a problem is not stored. -/
theorem load_of_not_isOk {p : Program} {m : Machine} (h : p.isOk = false) :
    p.load m = (.error (.assembly p.errors), m) := by
  simp [load, h]

end Program

end Breadboard
