import Breadboard.Architecture
import Breadboard.Mos6502.Behaviour

/-!
# The 6502

The tables of the 6502: its documented instruction set without decimal mode, and an instruction
`END` that ends the program. Operands are written in hexadecimal after a `$`; a word operand may be
a label instead. The stack grows down from the top of the second page of memory.
-/

namespace Breadboard.Mos6502

/-- The stack pointer after a reset. -/
def stackTop : Int := 0x01FF

/-- Registers in the order of declaration. -/
def registers : List Register :=
  [{ name := "PC", label := "Program Counter", kind := .programCounter, format := .unsigned,
     size := 2, rank := 0 },
   { name := "SP", label := "Stack Pointer", kind := .stackPointer, format := .unsigned,
     size := 2, rank := 1 },
   { name := "A", label := "Accumulator", kind := .accumulator, format := .signed, size := 1,
     rank := 2, status := .auto },
   { name := "X", label := "X Index", kind := .index, format := .signed, size := 1, rank := 3,
     status := .auto },
   { name := "Y", label := "Y Index", kind := .index, format := .signed, size := 1, rank := 4,
     status := .auto },
   { name := "PSR", label := "Program Status Register", kind := .status, format := .unsigned,
     size := 1, rank := 5 }]

/-- Indicators in the order of their bits in the status register. -/
def indicators : List Indicator :=
  [{ name := "C", label := "Carry", kind := .carry, rank := 0 },
   { name := "Z", label := "Zero", kind := .zero, rank := 1 },
   { name := "I", label := "Interrupt", kind := .interruptDisable, rank := 2 },
   { name := "D", label := "Decimal", kind := .decimal, rank := 3 },
   { name := "B", label := "Break", kind := .brk, rank := 4 },
   { name := "-", label := "Reserved", kind := .unused, rank := 5 },
   { name := "V", label := "Overflow", kind := .overflow, rank := 6 },
   { name := "N", label := "Negative", kind := .negative, rank := 7 }]

/-- A byte is written as one or two hexadecimal digits. -/
def byteShape : NumberShape := .hex "$" 1 2

/-- A word is written as four hexadecimal digits. -/
def wordShape : NumberShape := .hex "$" 4 4

/-- The ways to write a value between two texts. -/
def valueForm (front : String) (shape : NumberShape) (back : String) : Alternative :=
  [.literal front, .number shape, .literal back]

/-- The ways to write a label between two texts. -/
def labelForm (front back : String) : Alternative := [.literal front, .label, .literal back]

/-- A value or a label between two texts. -/
def valueOrLabel (front : String) (shape : NumberShape) (back : String) : Pattern :=
  [valueForm front shape back, labelForm front back]

/-- An addressing mode whose values are written in hexadecimal. -/
def valueMode (name : String) (size : Nat) (pattern : Pattern) : AddressingMode :=
  { name, pattern, size, decode := Numeral.dollarHex }

/-- The addressing modes in the order in which they are tried. -/
def modes : List AddressingMode :=
  [{ name := "accumulator", pattern := [[.choice ["A"]]], size := 0, decode := fun _ => .ok 0 },
   valueMode "immediate" 1 [valueForm "#" byteShape ""],
   valueMode "zeroPage" 1 [valueForm "" byteShape ""],
   valueMode "zeroPageX" 1 [valueForm "" byteShape ",X"],
   valueMode "zeroPageY" 1 [valueForm "" byteShape ",Y"],
   valueMode "absolute" 2 (valueOrLabel "" wordShape ""),
   valueMode "absoluteX" 2 (valueOrLabel "" wordShape ",X"),
   valueMode "absoluteY" 2 (valueOrLabel "" wordShape ",Y"),
   valueMode "indirect" 2 (valueOrLabel "(" wordShape ")"),
   valueMode "indirectX" 1 (valueOrLabel "(" byteShape ",X)"),
   valueMode "indirectY" 1 (valueOrLabel "(" byteShape "),Y")]

/-- The position of the addressing mode, unless there is no operand. -/
def Addressing.mode? : Addressing → Option (Fin modes.length)
  | .implied => none
  | .accumulator => some ⟨0, by decide⟩
  | .immediate => some ⟨1, by decide⟩
  | .zeroPage => some ⟨2, by decide⟩
  | .zeroPageX => some ⟨3, by decide⟩
  | .zeroPageY => some ⟨4, by decide⟩
  | .absolute => some ⟨5, by decide⟩
  | .absoluteX => some ⟨6, by decide⟩
  | .absoluteY => some ⟨7, by decide⟩
  | .indirect => some ⟨8, by decide⟩
  | .indirectX => some ⟨9, by decide⟩
  | .indirectY => some ⟨10, by decide⟩

/-- Branches alone encode a label as a distance. -/
def Operation.isRelative : Operation → Bool
  | .branch _ _ => true
  | _ => false

/-- The instruction that an entry of the opcode table stands for. -/
def Entry.instruction (e : Entry) : Instruction modes.length :=
  { opcode := e.opcode
    mnemonic := e.mnemonic
    mode := e.addressing.mode?
    relative := e.operation.isRelative
    behaviour := e.behaviour }

/-- The name of the architecture. -/
def name : String := "6502"

/-- The tables of the architecture. -/
def draft : Draft where
  name := name
  registers := registers
  indicators := indicators
  modes := modes
  instructions := opcodes.map Entry.instruction
  data :=
    [{ pattern := .keyword "BYTE", size := 1, decode := Numeral.dollarHex },
     { pattern := .keyword "WORD", size := 2, decode := Numeral.dollarHex }]
  sections := [{ name := "ORG", origin := some Numeral.dollarHex }]
  sizes := { word := 1, address := 2, opcode := 1 }
  offsetMode := Addressing.zeroPage.mode?
  onReset := [.register sp stackTop]

/-- The architecture. -/
def architecture : Architecture := { draft with pc := pc }

set_option maxRecDepth 20000 in
/-- The tables pass all checks. -/
theorem build_draft : draft.build = .ok architecture := rfl

end Breadboard.Mos6502
