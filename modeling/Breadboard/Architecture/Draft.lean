import Breadboard.Action
import Breadboard.Numeral
import Breadboard.Pattern

/-!
# Tables of an architecture

An architecture is described by tables: its registers and indicators, the ways in which an operand
may be written and encoded, its instructions with what they do, the directives of its assembly
language and the widths of its fields. `Draft` collects them as declared. Its types already see to
it that an instruction can only refer to an addressing mode of the same tables; all else is
unchecked.
-/

namespace Breadboard

/-- One way to write an operand, and the width of its encoding in bytes, which may be zero. -/
structure AddressingMode where
  name : String
  pattern : Pattern
  size : Nat
  decode : Decoder

/-- An operand fetched from memory, as a signed number of `size` bytes. The addressing mode is given
by its position in the table. -/
structure Operand where
  mode : Nat
  value : Int
  size : Nat
  deriving DecidableEq, Repr

/-- The operand as an unsigned number. -/
def Operand.unsigned (o : Operand) : Int := Word.unsigned o.value o.size

/-- An opcode, how it is written and what it does, among tables with `modes` addressing modes. -/
structure Instruction (modes : Nat) where
  opcode : Int
  mnemonic : String
  /-- The position of the addressing mode, unless the instruction has no operand. -/
  mode : Option (Fin modes) := none
  /-- A label is encoded as the distance from the following instruction. -/
  relative : Bool := false
  behaviour : Option Operand → Action Unit

/-- The operand, without which the instruction fails. -/
def Operand.require (mnemonic : String) : Option Operand → Action Operand
  | some operand => .done operand
  | none => .fail (.missingOperand mnemonic)

/-- A way to declare data of `size` bytes: a keyword, or the form of the value itself. -/
structure DataDirective where
  pattern : Pattern
  size : Nat
  decode : Decoder

/-- A section directive, with the decoder of its origin if it takes one. -/
structure Section where
  name : String
  isData : Bool := false
  origin : Option Decoder := none

/-- Widths of a data word, an address and an opcode in bytes. -/
structure Sizes where
  word : Nat := 1
  address : Nat := 1
  opcode : Nat := 1
  deriving DecidableEq, Repr

/-- How source text is written. -/
structure SourceRules where
  /-- The text that begins a comment; none does if it is empty. -/
  comment : String := ";"
  /-- The character between several operands. -/
  separator : Option Char := none
  labels : LabelShape := {}
  /-- The decoder of the address in data lines of the form `ADDRESS [VALUE]`, if data is so
  declared. -/
  dataAddress : Option Decoder := none

/-- The tables of an architecture as declared. -/
structure Draft where
  name : String
  registers : List Register := []
  indicators : List Indicator := []
  modes : List AddressingMode := []
  instructions : List (Instruction modes.length) := []
  data : List DataDirective := []
  sections : List Section := []
  sizes : Sizes := {}
  rules : SourceRules := {}
  /-- The position of the mode in which relative instructions encode a label. -/
  offsetMode : Option (Fin modes.length) := none
  /-- What is changed after the register file was zeroed by a reset. A hook that is a function of the
  register file always finds the same one there, since what a reset leaves depends on the tables only
  (`Cpu.cpu_reset_congr`); so the changes that it makes are always the same, and a list of them loses
  nothing. -/
  onReset : List Cpu.Edit := []

namespace Draft

/-- Declares a register. Its rank is the number of registers before it unless `rank` pins
another. -/
def addRegister (d : Draft) (r : Register) (rank : Option Nat) : Draft :=
  { d with registers := d.registers ++ [{ r with rank := rank.getD d.registers.length }] }

/-- Declares an indicator. Its rank is the number of indicators before it unless `rank` pins
another. -/
def addIndicator (d : Draft) (i : Indicator) (rank : Option Nat) : Draft :=
  { d with indicators := d.indicators ++ [{ i with rank := rank.getD d.indicators.length }] }

end Draft

end Breadboard
