import Breadboard.Architecture.Draft
import Breadboard.Mos6502.Opcode

/-!
# What the instructions of the 6502 do

Each entry of the opcode table as an action on registers and memory. Memory holds two-byte numbers
high byte first, so a pointer is read that way too. The stack pointer is a two-byte register; a push
writes before it counts down, a pull counts up before it reads. Decimal mode is not modelled:
turning it on sets its indicator and then fails.
-/

namespace Breadboard.Mos6502

open Breadboard.Action

/-! ## Registers -/

/-- The position of the program counter among the registers. -/
def pc : Nat := 0

/-- The position of the stack pointer. -/
def sp : Nat := 1

/-- The position of the status register. -/
def psr : Nat := 5

/-- The positions of the registers that instructions name. -/
def Reg.position : Reg → Nat
  | .a => 2
  | .x => 3
  | .y => 4

/-- The position of the indicator for decimal mode. -/
def decimalIndicator : Nat := 3

/-- The low byte of `v`. -/
def lowByte (v : Int) : Nat := (Word.unsigned v 1).toNat

/-- A register as an unsigned byte. -/
def getByte (reg : Reg) : Action Nat := do
  return lowByte (← getRegister reg.position)

/-- Writes a register that an instruction names. -/
def setReg (reg : Reg) (v : Int) : Action Unit := setRegister reg.position v

/-- Carry as a number. -/
def getCarry : Action Nat := do
  return (← getFlag .carry).toNat

/-! ## Operands -/

/-- The name of a way of addressing that has no address. -/
def Addressing.describe : Addressing → String
  | .implied => "Implied"
  | .accumulator => "Accumulator"
  | .immediate => "Immediate"
  | _ => "Memory"

/-- The address that an operand points to, before it is cut off to two bytes. -/
def targetAddress (addressing : Addressing) (o : Operand) : Action Int :=
  match addressing with
  | .zeroPage | .absolute => pure o.unsigned
  | .zeroPageX | .absoluteX => do return o.unsigned + (← getByte .x)
  | .zeroPageY | .absoluteY => do return o.unsigned + (← getByte .y)
  | .indirect => loadUnsigned o.unsigned 2
  | .indirectX => do loadUnsigned (Word.unsigned (o.unsigned + (← getByte .x)) 1) 2
  | .indirectY => do return (← loadUnsigned o.unsigned 2) + (← getByte .y)
  | other => fail (.unimplemented s!"{other.describe} effective address")

/-- The address of an operand in memory. -/
def effectiveAddress (addressing : Addressing) (o : Operand) : Action Int := do
  return Word.unsigned (← targetAddress addressing o) 2

/-- The signed byte that an operand gives. -/
def readOperand (addressing : Addressing) (o : Operand) : Action Int :=
  match addressing with
  | .accumulator => getRegister Reg.a.position
  | .immediate => pure (Word.signed o.value o.size)
  | other => do loadSigned (← effectiveAddress other o) 1

/-- Puts a byte where the operand is. -/
def writeOperand (addressing : Addressing) (o : Operand) (v : Int) : Action Unit :=
  match addressing with
  | .accumulator => setReg .a v
  | other => do put (← effectiveAddress other o) 1 v

/-- Puts a result where the operand is and sets zero and negative from it. -/
def writeResult (addressing : Addressing) (o : Operand) (v : Int) : Action Unit := do
  let v := Word.signed v 1
  writeOperand addressing o v
  setSigns v

/-! ## The stack -/

/-- Pushes a byte: writes at the stack pointer, which then counts down. -/
def push (v : Int) : Action Unit := do
  let top ← getRegister sp
  put top 1 v
  setRegister sp (top - 1)

/-- Pulls a byte: the stack pointer counts up, and the byte above its old value is read. -/
def pull : Action Int := do
  let top := (← getRegister sp) + 1
  setRegister sp top
  loadUnsigned top 1

/-- Pulls an address, low byte first. -/
def pullAddress : Action Int := do
  let low ← pull
  let high ← pull
  return high * 256 + low

/-! ## Arithmetic -/

/-- Adds a byte and carry to the accumulator. Overflow tells that the sign of the result differs
from the sign of both summands. -/
def addWithCarry (value : Nat) : Action Unit := do
  let a ← getByte .a
  let result := a + value + (← getCarry)
  setFlag .carry (255 < result)
  setFlag .overflow
    (a.testBit 7 != result.testBit 7 && value.testBit 7 != result.testBit 7)
  setReg .a result

/-- Compares two unsigned bytes as a subtraction whose result is dropped. -/
def compareBytes (left right : Nat) : Action Unit := do
  setFlag .zero (left == right)
  setFlag .carry (right ≤ left)
  setFlag .negative (Word.signed ((left : Int) - right) 1 < 0)

/-- The bitwise operation on two bytes. -/
def Logic.apply : Logic → Nat → Nat → Nat
  | .and, v, w => v &&& w
  | .or, v, w => v ||| w
  | .xor, v, w => v ^^^ w

/-- The bit of `v` that a shift moves into carry. -/
def Shift.carryOut : Shift → Nat → Bool
  | .left, v | .rotateLeft, v => v.testBit 7
  | .right, v | .rotateRight, v => v.testBit 0

/-- The shifted byte, before it is cut off to eight bits, when `carry` was carry before the
shift. -/
def Shift.apply : Shift → (v carry : Nat) → Nat
  | .left, v, _ => v * 2
  | .right, v, _ => v / 2
  | .rotateLeft, v, carry => v * 2 + carry
  | .rotateRight, v, carry => v / 2 + carry * 128

/-! ## Instructions -/

/-- Carries out an entry of the opcode table. -/
def Entry.behaviour (e : Entry) (operand : Option Operand) : Action Unit :=
  let need : Action Operand := Operand.require e.mnemonic operand
  match e.operation with
  | .add => do addWithCarry (lowByte (← readOperand e.addressing (← need)))
  | .subtract => do
    addWithCarry (Word.onesComplement (← readOperand e.addressing (← need)) 1).toNat
  | .logic op => do
    let value := lowByte (← readOperand e.addressing (← need))
    setReg .a (op.apply (← getByte .a) value)
  | .shift op => do
    let o ← need
    let value := lowByte (← readOperand e.addressing o)
    let carry ← getCarry
    setFlag .carry (op.carryOut value)
    writeResult e.addressing o (op.apply value carry)
  | .testBits => do
    let value := lowByte (← readOperand e.addressing (← need))
    let a ← getByte .a
    setFlag .zero (a &&& value == 0)
    setFlag .negative (value.testBit 7)
    setFlag .overflow (value.testBit 6)
  | .branch kind expected => do
    let o ← need
    if (← getFlag kind) = expected then
      setRegister pc ((← getRegister pc) + Word.signed o.value o.size)
  | .brk => fail (.halted "BRK called")
  | .compare reg => do
    let value := lowByte (← readOperand e.addressing (← need))
    compareBytes (← getByte reg) value
  | .count delta => do
    let o ← need
    writeResult e.addressing o ((← readOperand e.addressing o) + delta)
  | .setFlag kind on => setFlag kind on
  | .setDecimal => do
    -- the indicator stays set although the instruction fails
    edit (.indicator decimalIndicator true) (fail (.unimplemented "decimal mode"))
  | .jump => do setRegister pc (← effectiveAddress e.addressing (← need))
  | .call => do
    let target ← effectiveAddress e.addressing (← need)
    -- the address pushed is that of the last byte of the call, so a return adds one
    let link := (← getRegister pc) - 1
    push (link / 256)
    push link
    setRegister pc target
  | .ret => do setRegister pc ((← pullAddress) + 1)
  | .returnFromInterrupt => do
    setRegister psr (← pull)
    setRegister pc (← pullAddress)
  | .load reg => do setReg reg (← readOperand e.addressing (← need))
  | .store reg => do
    let value ← getRegister reg.position
    writeOperand e.addressing (← need) value
  | .transfer source target => do setReg target (← getRegister source.position)
  | .step reg delta => do setReg reg ((← getRegister reg.position) + delta)
  | .stackFromX => do setRegister sp (256 + (← getByte .x))
  | .stackToX => do setReg .x (← getRegister sp)
  | .pushAccumulator => do push (← getRegister Reg.a.position)
  | .pullAccumulator => do setReg .a (← pull)
  | .pushStatus => do push (← getRegister psr)
  | .pullStatus => do setRegister psr (← pull)
  | .nop => pure ()
  | .finish => finish

end Breadboard.Mos6502
