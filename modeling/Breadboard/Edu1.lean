import Breadboard.Architecture

/-!
# The teaching processor `edu1`

A processor with two one-byte accumulators, one-byte addresses and eleven instructions.

| Opcode | Mnemonic | Operand    | Effect                     |
|--------|----------|------------|----------------------------|
| `01`   | `LDA`    | address    | `A ← mem[address]`         |
| `02`   | `LDB`    | address    | `B ← mem[address]`         |
| `03`   | `STA`    | address    | `mem[address] ← A`         |
| `04`   | `STB`    | address    | `mem[address] ← B`         |
| `05`   | `ADD`    | `A` or `B` | `reg ← A + B`              |
| `06`   | `DEC`    | `A` or `B` | `reg ← reg - 1`            |
| `07`   | `MOVA`   | `#n`       | `A ← n`                    |
| `08`   | `MOVB`   | `#n`       | `B ← n`                    |
| `09`   | `JMP`    | address    | `PC ← address`             |
| `0A`   | `JMPZ`   | address    | `PC ← address` if `A = 0`  |
| `FF`   | `.END`   |            | end of the program         |

Data lines are written `ADDRESS [VALUE]`. `.DATA` opens a data section and `.CODE n` moves on to the
address `n`. Writing `A` sets the zero indicator, writing `B` does not.
-/

namespace Breadboard.Edu1

open Breadboard.Action

/-- The position of the program counter among the registers. -/
def pc : Nat := 0

/-- The position of the first accumulator. -/
def a : Nat := 1

/-- The position of the second accumulator. -/
def b : Nat := 2

/-- Registers in the order of declaration. -/
def registers : List Register :=
  [{ name := "PC", label := "Program Counter", kind := .programCounter, format := .unsigned,
     size := 1, rank := 0 },
   { name := "A", label := "A Register", kind := .accumulator, format := .signed, size := 1,
     rank := 1, status := .auto },
   { name := "B", label := "B Register", kind := .accumulator, format := .signed, size := 1,
     rank := 2 }]

/-- The only indicator tells whether `A` is zero. -/
def indicators : List Indicator := [{ name := "Z", label := "Zero", kind := .zero, rank := 0 }]

/-- Register `A` is encoded as 0 and `B` as 1. -/
def decodeRegister : Decoder
  | "A" => .ok 0
  | "B" => .ok 1
  | text => .error (.invalidRegister text)

/-- Operands are register names, addresses and immediate values. Register names come first, so that
`A` and `B` never read as labels. -/
def modes : List AddressingMode :=
  [{ name := "reg", pattern := [[.choice ["A", "B"]]], size := 1, decode := decodeRegister },
   { name := "absolute", pattern := [[.number .decimal], [.label]], size := 1,
     decode := Numeral.decimal },
   { name := "immediate",
     pattern := [[.literal "#", .number { NumberShape.decimal with signed := true }]], size := 1,
     decode := Numeral.decimal }]

/-- The position of the mode for register names. -/
def registerMode : Fin modes.length := ⟨0, by decide⟩

/-- The position of the mode for addresses. -/
def absoluteMode : Fin modes.length := ⟨1, by decide⟩

/-- The position of the mode for immediate values. -/
def immediateMode : Fin modes.length := ⟨2, by decide⟩

/-- The register that an operand names: `A` for zero, `B` for anything else. -/
def target (o : Operand) : Nat := if o.value = 0 then a else b

/-- The address that an operand gives. -/
def address (o : Operand) : Int := Word.unsigned o.value 1

/-- The register takes the byte at the address. -/
def load (register : Nat) (o : Operand) : Action Unit := do
  setRegister register (← loadSigned (address o) 1)

/-- The byte at the address takes the register. -/
def store (register : Nat) (o : Operand) : Action Unit := do
  put (address o) 1 (← getRegister register)

/-- The register named takes the sum of both accumulators. -/
def add (o : Operand) : Action Unit := do
  setRegister (target o) ((← getRegister a) + (← getRegister b))

/-- The register named counts down. -/
def decrement (o : Operand) : Action Unit := do
  setRegister (target o) ((← getRegister (target o)) - 1)

/-- Execution goes on at the address. -/
def jump (o : Operand) : Action Unit := setRegister pc (address o)

/-- An instruction that needs its operand. -/
def withOperand (opcode : Int) (mnemonic : String) (mode : Fin modes.length)
    (act : Operand → Action Unit) : Instruction modes.length :=
  { opcode, mnemonic, mode := some mode,
    behaviour := fun operand => Operand.require mnemonic operand >>= act }

/-- The instruction table. -/
def instructions : List (Instruction modes.length) :=
  [withOperand 0x01 "LDA" absoluteMode (load a),
   withOperand 0x02 "LDB" absoluteMode (load b),
   withOperand 0x03 "STA" absoluteMode (store a),
   withOperand 0x04 "STB" absoluteMode (store b),
   withOperand 0x05 "ADD" registerMode add,
   withOperand 0x06 "DEC" registerMode decrement,
   withOperand 0x07 "MOVA" immediateMode fun o => setRegister a o.value,
   withOperand 0x08 "MOVB" immediateMode fun o => setRegister b o.value,
   withOperand 0x09 "JMP" absoluteMode jump,
   { opcode := 0x0A, mnemonic := "JMPZ", mode := some absoluteMode,
     behaviour := fun operand => do
       if (← getRegister a) = 0 then jump (← Operand.require "JMPZ" operand) },
   { opcode := 0xFF, mnemonic := ".END", behaviour := fun _ => finish }]

/-- The name of the architecture. -/
def name : String := "edu1"

/-- The tables of the architecture. -/
def draft : Draft where
  name := name
  registers := registers
  indicators := indicators
  modes := modes
  instructions := instructions
  data := [{ pattern := [[.number .decimal]], size := 1, decode := Numeral.decimal }]
  sections :=
    [{ name := ".DATA", isData := true },
     { name := ".CODE", origin := some Numeral.decimal }]
  rules := { dataAddress := some Numeral.decimal }

/-- The architecture. -/
def architecture : Architecture := { draft with pc := pc }

/-- The tables pass all checks. -/
theorem build_draft : draft.build = .ok architecture := rfl

end Breadboard.Edu1
