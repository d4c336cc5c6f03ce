import Breadboard.Architecture.Draft

/-!
# Architectures

An `Architecture` is a set of tables that passed the checks of `Draft.build`: there is a program
counter, every width is one that can be modelled, opcodes fit their field and are distinct, and
relative instructions have a mode for their labels. `instruction?` and `named` look instructions up
by opcode and by mnemonic.
-/

namespace Breadboard

/-- A set of tables with its program counter. Mnemonics and section names are in upper case. -/
structure Architecture extends Draft where
  /-- The position of the program counter among the registers. -/
  pc : Nat

/-- Why tables are refused. -/
inductive TableError where
  | missingProgramCounter (architecture : String)
  | invalidSize (what : String) (size : Nat)
  | opcodeTooWide (opcode : Int) (width : Nat)
  | duplicateOpcode (opcode : Int)
  | missingOffsetMode (mnemonic : String)
  deriving DecidableEq, Repr

/-- The text of the error. -/
def TableError.message : TableError → String
  | .missingProgramCounter name => s!"architecture `{name}` defines no program counter"
  | .invalidSize what size => s!"invalid {what} size {size}"
  | .opcodeTooWide opcode width => s!"opcode 0x{hexText opcode 1} does not fit in {width} byte(s)"
  | .duplicateOpcode opcode => s!"opcode 0x{hexText opcode 2} defined twice"
  | .missingOffsetMode mnemonic =>
    s!"{mnemonic}: relative instruction without an offset addressing mode"

namespace Draft

/-- The widest field that is modelled, in bytes. -/
def widest : Nat := 4

/-- The first of `sizes` that is less than `least` or wider than the widest field is reported. -/
def checkSizes (what : String) (least : Nat) (sizes : List Nat) : Except TableError Unit :=
  match sizes.find? fun size => size < least || widest < size with
  | some size => .error (.invalidSize what size)
  | none => .ok ()

/-- Checks instructions in order, after those whose opcodes are in `seen`. -/
def checkInstructions {modes : Nat} (width : Nat) (hasOffsetMode : Bool) (seen : List Int) :
    List (Instruction modes) → Except TableError Unit
  | [] => .ok ()
  | i :: rest =>
    if ! Word.fitsUnsigned i.opcode width then .error (.opcodeTooWide i.opcode width)
    else if seen.contains i.opcode then .error (.duplicateOpcode i.opcode)
    else if i.relative && ! hasOffsetMode then .error (.missingOffsetMode i.mnemonic)
    else checkInstructions width hasOffsetMode (i.opcode :: seen) rest

/-- The tables with mnemonics and section names in upper case. -/
def normalized (d : Draft) : Draft :=
  { d with
    instructions := d.instructions.map fun i => { i with mnemonic := Text.upper i.mnemonic }
    sections := d.sections.map fun s => { s with name := Text.upper s.name } }

/-- Checks the tables, in this order: the program counter, the widths, the instructions. -/
def build (d : Draft) : Except TableError Architecture := do
  let some pc := d.registers.findIdx? fun r => r.kind = .programCounter
    | throw (.missingProgramCounter d.name)
  let d := d.normalized
  checkSizes "word" 1 [d.sizes.word]
  checkSizes "address" 1 [d.sizes.address]
  checkSizes "instruction" 1 [d.sizes.opcode]
  checkSizes "register" 1 (d.registers.map (·.size))
  checkSizes "operand" 0 (d.modes.map (·.size))
  checkSizes "data" 1 (d.data.map (·.size))
  checkInstructions d.sizes.opcode d.offsetMode.isSome [] d.instructions
  return { d with pc }

end Draft

namespace Architecture

/-- The register file before any change. -/
def freshCpu (arch : Architecture) : Cpu := Cpu.fresh arch.registers arch.indicators

/-- The instruction with an opcode. -/
def instruction? (arch : Architecture) (opcode : Int) :
    Option (Instruction arch.modes.length) :=
  arch.instructions.find? (·.opcode = opcode)

/-- The instructions spelled `mnemonic` in any case, in the order of declaration. -/
def named (arch : Architecture) (mnemonic : String) : List (Instruction arch.modes.length) :=
  let mnemonic := Text.upper mnemonic
  arch.instructions.filter (·.mnemonic = mnemonic)

/-- The addressing mode at a position. -/
def mode (arch : Architecture) (position : Fin arch.modes.length) : AddressingMode :=
  arch.modes.get position

/-- The first addressing mode that accepts `text`: its position and what it found. -/
def modeOf? (arch : Architecture) (text : String) :
    Option (Fin arch.modes.length × Pattern.Found) :=
  (List.finRange arch.modes.length).findSome? fun i =>
    ((arch.mode i).pattern.match? arch.rules.labels text).map fun found => (i, found)

/-- The address of a data line of the form `ADDRESS [VALUE]`. -/
def dataAddressOf (arch : Architecture) : Decoder := fun text =>
  match arch.rules.dataAddress with
  | some decode => decode text
  | none => .error (.invalidNumber text)

end Architecture

end Breadboard
