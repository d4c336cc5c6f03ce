import Breadboard.Architecture.Draft

/-!
# Instructions as micro-steps

A small vocabulary from which the instructions of an architecture can be put together without
writing an action by hand. The steps of an instruction are carried out in order, and the first that
fails ends the instruction.
-/

namespace Breadboard

/-- One step of an instruction. Registers are given by position. -/
inductive MicroStep where
  /-- The register takes the operand. -/
  | load (register : Nat)
  /-- The register takes the word at the address that the operand gives. -/
  | read (register : Nat)
  /-- The word at the address that the operand gives takes the register. -/
  | write (register : Nat)
  /-- The register changes by an amount. -/
  | add (register : Nat) (amount : Int)
  /-- Execution goes on at the address that the operand gives. -/
  | jump
  /-- Execution goes on at the distance that the operand gives, if the indicator is as expected. -/
  | branch (kind : IndicatorKind) (expected : Bool)
  /-- All indicators of a kind are set or cleared. -/
  | flag (kind : IndicatorKind) (on : Bool)
  /-- The program ends. -/
  | finish
  /-- The instruction stops the machine. -/
  | halt (reason : String)
  /-- The instruction needs something that is not modelled. -/
  | unimplemented (what : String)
  deriving DecidableEq, Repr

open Breadboard.Action

/-- Carries out one step of the instruction `mnemonic`, on an architecture whose program counter is
at position `pc` and whose words have `word` bytes. -/
def MicroStep.act (pc word : Nat) (mnemonic : String) (operand : Option Operand) :
    MicroStep → Action Unit
  | .load r => do setRegister r (← Operand.require mnemonic operand).value
  | .read r => do
    setRegister r (← loadSigned (← Operand.require mnemonic operand).unsigned word)
  | .write r => do
    put (← Operand.require mnemonic operand).unsigned word (← getRegister r)
  | .add r amount => do setRegister r ((← getRegister r) + amount)
  | .jump => do setRegister pc (← Operand.require mnemonic operand).unsigned
  | .branch kind expected => do
    let o ← Operand.require mnemonic operand
    if (← getFlag kind) = expected then setRegister pc ((← getRegister pc) + o.value)
  | .flag kind on => setFlag kind on
  | .finish => Action.finish
  | .halt reason => fail (.halted reason)
  | .unimplemented what => fail (.unimplemented what)

/-- Carries out the steps of an instruction in order. Errors name it in upper case. -/
def MicroStep.behaviour (pc word : Nat) (mnemonic : String) (steps : List MicroStep)
    (operand : Option Operand) : Action Unit :=
  steps.forM (MicroStep.act pc word (Text.upper mnemonic) operand)

end Breadboard
