import Breadboard.Proofs.Mos6502.Addressing

/-!
# What an operation of the 6502 may do

An operation may write memory at one of few places or not at all (`Operation.target`), and it may
make only certain changes to the register file (`Operation.MayEdit`): the stack pointer is left to
the operations of the stack, and the indicators that no result sets are left to the operations that
name them or write the status register. `within_behaviour` says that every operation keeps to this.
-/

namespace Breadboard

/-- The indicator tells of no result, but of how the processor works. -/
def IndicatorKind.isMode : IndicatorKind → Bool
  | .interruptDisable | .decimal | .brk | .unused => true
  | _ => false

namespace Mos6502

open Breadboard.Action

variable {operand : Option Operand}

/-! ## Permissions -/

/-- What an operation writes in memory. -/
inductive Target where
  | nothing
  /-- The operand, unless it is the accumulator. -/
  | operand
  /-- The byte at the stack pointer. -/
  | top
  /-- The byte at the stack pointer and the one below it. -/
  | link
  deriving DecidableEq, Repr

def Operation.target : Operation → Target
  | .shift _ | .count _ | .store _ => .operand
  | .pushAccumulator | .pushStatus => .top
  | .call => .link
  | _ => .nothing

/-- The operation writes the stack pointer. -/
def Operation.movesStack : Operation → Bool
  | .call | .ret | .returnFromInterrupt | .stackFromX | .pushAccumulator | .pullAccumulator
  | .pushStatus | .pullStatus => true
  | _ => false

/-- The operation sets an indicator that tells of no result. -/
def Operation.setsModes : Operation → Bool
  | .setFlag kind _ => kind.isMode
  | .setDecimal | .returnFromInterrupt | .pullStatus => true
  | _ => false

/-- The changes to the register file that an operation may make. -/
def Operation.MayEdit (op : Operation) : Cpu.Edit → Prop
  | .register i _ => (i = sp → op.movesStack = true) ∧ (i = psr → op.setsModes = true)
  | .indicator _ _ => op.setsModes = true
  | .flag kind _ => kind.isMode = true → op.setsModes = true
  | .signs _ => True
  | .ended _ => op = .finish
  | .reset => False

section Registers

variable (op : Operation) (v : Int)

theorem mayEdit_pc : op.MayEdit (.register pc v) := ⟨nofun, nofun⟩

/-- The registers that instructions name are no matter of permission. -/
theorem mayEdit_reg (reg : Reg) : op.MayEdit (.register reg.position v) := by
  cases reg <;> exact ⟨nofun, nofun⟩

variable {op}

theorem mayEdit_sp (h : op.movesStack = true) : op.MayEdit (.register sp v) :=
  ⟨fun _ => h, nofun⟩

theorem mayEdit_psr (h : op.setsModes = true) : op.MayEdit (.register psr v) :=
  ⟨nofun, fun _ => h⟩

end Registers

/-! ## Parts of operations -/

section Within

variable {edits : Cpu.Edit → Prop} {stores : Prop}

theorem within_require (mnemonic : String) :
    (Operand.require mnemonic operand).Within edits stores := by
  cases operand <;> trivial

theorem within_writeOperand (a : Addressing) (o : Operand) (v : Int)
    (hedits : edits (.register Reg.a.position v)) (hstores : stores) :
    (writeOperand a o v).Within edits stores := by
  cases a with
  | accumulator => exact ⟨hedits, trivial⟩
  | _ => exact ((reads_effectiveAddress _ o).within _ _).bind fun _ => ⟨hstores, trivial⟩

theorem within_writeResult (a : Addressing) (o : Operand) (v : Int)
    (hedits : ∀ v, edits (.register Reg.a.position v)) (hsigns : ∀ v, edits (.signs v))
    (hstores : stores) : (writeResult a o v).Within edits stores :=
  (within_writeOperand a o _ (hedits _) hstores).bind fun _ => ⟨hsigns _, trivial⟩

variable (hedits : ∀ v, edits (.register sp v))
include hedits

theorem within_push (hstores : stores) (v : Int) : (push v).Within edits stores :=
  fun _ => ⟨hstores, hedits _, trivial⟩

theorem within_pull : pull.Within edits stores := fun _ => ⟨hedits _, fun _ => trivial⟩

theorem within_pullAddress : pullAddress.Within edits stores :=
  (within_pull hedits).bind fun _ => (within_pull hedits).bind fun _ => trivial

end Within

/-! ## Operations -/

/-- An operation does nothing but what it may do. -/
theorem within_behaviour (e : Entry) (operand : Option Operand) :
    (e.behaviour operand).Within e.operation.MayEdit (e.operation.target ≠ .nothing) := by
  obtain ⟨opcode, mnemonic, a, op⟩ := e
  have hpc := mayEdit_pc op
  have hreg (reg : Reg) (v : Int) := mayEdit_reg op v reg
  have hneed {f : Operand → Action Unit}
      (hf : ∀ o, (f o).Within op.MayEdit (op.target ≠ .nothing)) :
      (Operand.require mnemonic operand >>= f).Within op.MayEdit (op.target ≠ .nothing) :=
    (within_require mnemonic).bind hf
  have hread (o : Operand) {f : Int → Action Unit}
      (hf : ∀ v, (f v).Within op.MayEdit (op.target ≠ .nothing)) :
      (readOperand a o >>= f).Within op.MayEdit (op.target ≠ .nothing) :=
    ((reads_readOperand a o).within _ _).bind hf
  have haddress (o : Operand) {f : Int → Action Unit}
      (hf : ∀ v, (f v).Within op.MayEdit (op.target ≠ .nothing)) :
      (effectiveAddress a o >>= f).Within op.MayEdit (op.target ≠ .nothing) :=
    ((reads_effectiveAddress a o).within _ _).bind hf
  cases op with
  | add | subtract =>
    exact hneed fun o => hread o fun _ _ _ => ⟨nofun, nofun, hreg .a _, trivial⟩
  | logic op => exact hneed fun o => hread o fun _ _ => ⟨hreg .a _, trivial⟩
  | testBits | compare reg =>
    exact hneed fun o => hread o fun _ _ => ⟨nofun, nofun, nofun, trivial⟩
  | load reg => exact hneed fun o => hread o fun _ => ⟨hreg reg _, trivial⟩
  | shift op =>
    refine hneed fun o => hread o fun v carry => ⟨nofun, ?_⟩
    exact within_writeResult a o _ (hreg .a) (fun _ => trivial) nofun
  | count delta =>
    refine hneed fun o => hread o fun v => ?_
    exact within_writeResult a o _ (hreg .a) (fun _ => trivial) nofun
  | store reg => exact fun v => hneed fun o => within_writeOperand a o v (hreg .a v) nofun
  | branch kind expected =>
    refine hneed fun o on => ?_
    show (if on = expected then getRegister pc >>= fun v =>
      setRegister pc (v + Word.signed o.value o.size) else pure ()).Within _ _
    split
    · exact fun _ => ⟨hpc _, trivial⟩
    · trivial
  | jump => exact hneed fun o => haddress o fun _ => ⟨hpc _, trivial⟩
  | call =>
    refine hneed fun o => haddress o fun target pc => ?_
    have hpush (v : Int) :
        (push v).Within Operation.call.MayEdit (Operation.call.target ≠ .nothing) :=
      within_push (mayEdit_sp · rfl) nofun v
    exact (hpush _).bind fun _ => (hpush _).bind fun _ => ⟨hpc _, trivial⟩
  | ret => exact (within_pullAddress (mayEdit_sp · rfl)).bind fun _ => ⟨hpc _, trivial⟩
  | returnFromInterrupt =>
    refine (within_pull (mayEdit_sp · rfl)).bind fun _ => ⟨mayEdit_psr _ rfl, ?_⟩
    exact (within_pullAddress (mayEdit_sp · rfl)).bind fun _ => ⟨hpc _, trivial⟩
  | brk | nop => trivial
  | setFlag kind on => exact ⟨id, trivial⟩
  | setDecimal => exact ⟨rfl, trivial⟩
  | transfer source target => exact fun _ => ⟨hreg target _, trivial⟩
  | step reg delta => exact fun _ => ⟨hreg reg _, trivial⟩
  | stackFromX => exact fun _ => ⟨mayEdit_sp _ rfl, trivial⟩
  | stackToX => exact fun _ => ⟨hreg .x _, trivial⟩
  | pushAccumulator | pushStatus => exact fun _ => within_push (mayEdit_sp · rfl) nofun _
  | pullAccumulator =>
    exact (within_pull (mayEdit_sp · rfl)).bind fun _ => ⟨hreg .a _, trivial⟩
  | pullStatus =>
    exact (within_pull (mayEdit_sp · rfl)).bind fun _ => ⟨mayEdit_psr _ rfl, trivial⟩
  | finish => exact ⟨rfl, trivial⟩

end Mos6502

end Breadboard
