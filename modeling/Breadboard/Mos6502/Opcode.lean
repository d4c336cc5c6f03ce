import Breadboard.Cpu.Register

/-!
# The opcodes of the 6502

The instruction set as a table: each opcode with its mnemonic, the way it finds its operand and the
operation that it carries out.
-/

namespace Breadboard.Mos6502

/-- How an instruction finds its operand. -/
inductive Addressing where
  | implied
  | accumulator
  | immediate
  | zeroPage
  | zeroPageX
  | zeroPageY
  | absolute
  | absoluteX
  | absoluteY
  | indirect
  | indirectX
  | indirectY
  deriving DecidableEq, Repr

/-- The registers that instructions load, store, compare and count. -/
inductive Reg where
  | a
  | x
  | y
  deriving DecidableEq, Repr

/-- The bitwise operations on the accumulator. -/
inductive Logic where
  | and
  | or
  | xor
  deriving DecidableEq, Repr

/-- The operations that shift one bit out into carry: to the left or right, with carry shifted in
when rotating. -/
inductive Shift where
  | left
  | right
  | rotateLeft
  | rotateRight
  deriving DecidableEq, Repr

/-- What an instruction does. -/
inductive Operation where
  | add
  | subtract
  | logic (op : Logic)
  | shift (op : Shift)
  | testBits
  | branch (kind : IndicatorKind) (expected : Bool)
  | brk
  | compare (reg : Reg)
  | count (delta : Int)
  | setFlag (kind : IndicatorKind) (on : Bool)
  | setDecimal
  | jump
  | call
  | ret
  | returnFromInterrupt
  | load (reg : Reg)
  | store (reg : Reg)
  | transfer (source target : Reg)
  | step (reg : Reg) (delta : Int)
  | stackFromX
  | stackToX
  | pushAccumulator
  | pullAccumulator
  | pushStatus
  | pullStatus
  | nop
  | finish
  deriving DecidableEq, Repr

/-- An entry of the table. -/
structure Entry where
  opcode : Int
  mnemonic : String
  addressing : Addressing
  operation : Operation
  deriving DecidableEq, Repr

/-- The entries of one mnemonic. -/
def entries (mnemonic : String) (operation : Operation) (forms : List (Int × Addressing)) :
    List Entry :=
  forms.map fun (opcode, addressing) => { opcode, mnemonic, addressing, operation }

/-- The opcode table in the order of declaration. -/
def opcodes : List Entry :=
  entries "ADC" .add
    [(0x69, .immediate), (0x65, .zeroPage), (0x75, .zeroPageX), (0x6D, .absolute),
     (0x7D, .absoluteX), (0x79, .absoluteY), (0x61, .indirectX), (0x71, .indirectY)] ++
  entries "AND" (.logic .and)
    [(0x29, .immediate), (0x25, .zeroPage), (0x35, .zeroPageX), (0x2D, .absolute),
     (0x3D, .absoluteX), (0x39, .absoluteY), (0x21, .indirectX), (0x31, .indirectY)] ++
  entries "ASL" (.shift .left)
    [(0x0A, .accumulator), (0x06, .zeroPage), (0x16, .zeroPageX), (0x0E, .absolute),
     (0x1E, .absoluteX)] ++
  entries "BIT" .testBits [(0x24, .zeroPage), (0x2C, .absolute)] ++
  entries "BPL" (.branch .negative false) [(0x10, .zeroPage)] ++
  entries "BMI" (.branch .negative true) [(0x30, .zeroPage)] ++
  entries "BVC" (.branch .overflow false) [(0x50, .zeroPage)] ++
  entries "BVS" (.branch .overflow true) [(0x70, .zeroPage)] ++
  entries "BCC" (.branch .carry false) [(0x90, .zeroPage)] ++
  entries "BCS" (.branch .carry true) [(0xB0, .zeroPage)] ++
  entries "BNE" (.branch .zero false) [(0xD0, .zeroPage)] ++
  entries "BEQ" (.branch .zero true) [(0xF0, .zeroPage)] ++
  entries "BRK" .brk [(0x00, .implied)] ++
  entries "CMP" (.compare .a)
    [(0xC9, .immediate), (0xC5, .zeroPage), (0xD5, .zeroPageX), (0xCD, .absolute),
     (0xDD, .absoluteX), (0xD9, .absoluteY), (0xC1, .indirectX), (0xD1, .indirectY)] ++
  entries "CPX" (.compare .x) [(0xE0, .immediate), (0xE4, .zeroPage), (0xEC, .absolute)] ++
  entries "CPY" (.compare .y) [(0xC0, .immediate), (0xC4, .zeroPage), (0xCC, .absolute)] ++
  entries "DEC" (.count (-1))
    [(0xC6, .zeroPage), (0xD6, .zeroPageX), (0xCE, .absolute), (0xDE, .absoluteX)] ++
  entries "EOR" (.logic .xor)
    [(0x49, .immediate), (0x45, .zeroPage), (0x55, .zeroPageX), (0x4D, .absolute),
     (0x5D, .absoluteX), (0x59, .absoluteY), (0x41, .indirectX), (0x51, .indirectY)] ++
  entries "CLC" (.setFlag .carry false) [(0x18, .implied)] ++
  entries "SEC" (.setFlag .carry true) [(0x38, .implied)] ++
  entries "CLI" (.setFlag .interruptDisable false) [(0x58, .implied)] ++
  entries "SEI" (.setFlag .interruptDisable true) [(0x78, .implied)] ++
  entries "CLV" (.setFlag .overflow false) [(0xB8, .implied)] ++
  entries "CLD" (.setFlag .decimal false) [(0xD8, .implied)] ++
  entries "SED" .setDecimal [(0xF8, .implied)] ++
  entries "INC" (.count 1)
    [(0xE6, .zeroPage), (0xF6, .zeroPageX), (0xEE, .absolute), (0xFE, .absoluteX)] ++
  entries "JMP" .jump [(0x4C, .absolute), (0x6C, .indirect)] ++
  entries "JSR" .call [(0x20, .absolute)] ++
  entries "LDA" (.load .a)
    [(0xA9, .immediate), (0xA5, .zeroPage), (0xB5, .zeroPageX), (0xAD, .absolute),
     (0xBD, .absoluteX), (0xB9, .absoluteY), (0xA1, .indirectX), (0xB1, .indirectY)] ++
  entries "LDX" (.load .x)
    [(0xA2, .immediate), (0xA6, .zeroPage), (0xB6, .zeroPageY), (0xAE, .absolute),
     (0xBE, .absoluteY)] ++
  entries "LDY" (.load .y)
    [(0xA0, .immediate), (0xA4, .zeroPage), (0xB4, .zeroPageX), (0xAC, .absolute),
     (0xBC, .absoluteX)] ++
  entries "LSR" (.shift .right)
    [(0x4A, .accumulator), (0x46, .zeroPage), (0x56, .zeroPageX), (0x4E, .absolute),
     (0x5E, .absoluteX)] ++
  entries "NOP" .nop [(0xEA, .implied)] ++
  entries "ORA" (.logic .or)
    [(0x09, .immediate), (0x05, .zeroPage), (0x15, .zeroPageX), (0x0D, .absolute),
     (0x1D, .absoluteX), (0x19, .absoluteY), (0x01, .indirectX), (0x11, .indirectY)] ++
  entries "TAX" (.transfer .a .x) [(0xAA, .implied)] ++
  entries "TXA" (.transfer .x .a) [(0x8A, .implied)] ++
  entries "TAY" (.transfer .a .y) [(0xA8, .implied)] ++
  entries "TYA" (.transfer .y .a) [(0x98, .implied)] ++
  entries "DEX" (.step .x (-1)) [(0xCA, .implied)] ++
  entries "INX" (.step .x 1) [(0xE8, .implied)] ++
  entries "DEY" (.step .y (-1)) [(0x88, .implied)] ++
  entries "INY" (.step .y 1) [(0xC8, .implied)] ++
  entries "ROL" (.shift .rotateLeft)
    [(0x2A, .accumulator), (0x26, .zeroPage), (0x36, .zeroPageX), (0x2E, .absolute),
     (0x3E, .absoluteX)] ++
  entries "ROR" (.shift .rotateRight)
    [(0x6A, .accumulator), (0x66, .zeroPage), (0x76, .zeroPageX), (0x6E, .absolute),
     (0x7E, .absoluteX)] ++
  entries "RTI" .returnFromInterrupt [(0x40, .implied)] ++
  entries "RTS" .ret [(0x60, .implied)] ++
  entries "SBC" .subtract
    [(0xE9, .immediate), (0xE5, .zeroPage), (0xF5, .zeroPageX), (0xED, .absolute),
     (0xFD, .absoluteX), (0xF9, .absoluteY), (0xE1, .indirectX), (0xF1, .indirectY)] ++
  entries "STA" (.store .a)
    [(0x85, .zeroPage), (0x95, .zeroPageX), (0x8D, .absolute), (0x9D, .absoluteX),
     (0x99, .absoluteY), (0x81, .indirectX), (0x91, .indirectY)] ++
  entries "STX" (.store .x) [(0x86, .zeroPage), (0x96, .zeroPageY), (0x8E, .absolute)] ++
  entries "STY" (.store .y) [(0x84, .zeroPage), (0x94, .zeroPageX), (0x8C, .absolute)] ++
  entries "TXS" .stackFromX [(0x9A, .implied)] ++
  entries "TSX" .stackToX [(0xBA, .implied)] ++
  entries "PHA" .pushAccumulator [(0x48, .implied)] ++
  entries "PLA" .pullAccumulator [(0x68, .implied)] ++
  entries "PHP" .pushStatus [(0x08, .implied)] ++
  entries "PLP" .pullStatus [(0x28, .implied)] ++
  entries "END" .finish [(0xFF, .implied)]

end Breadboard.Mos6502
