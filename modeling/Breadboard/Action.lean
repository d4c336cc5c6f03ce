import Breadboard.Machine

/-!
# Actions

What an instruction does is written as an action: a sequence of the effects that an instruction may
have, each of which may depend on what was read before. The effects are the interface that the
specification gives to the callback of an instruction (section 4.4, step 5): it reads and writes
registers, flags and memory, sets the end latch, and may fail, which aborts the step. `run_bind` says
that running two actions in sequence is running them one after the other, up to a failure.

An architecture may be any tables whose instructions are actions, and this is what the statements
about all architectures range over. Other code could also go on after memory refused an access, tell
two indicators of one kind apart, read the end latch, ask for the size of memory or zero it without
a write, or reach for the devices. To read and write registers, flags and memory none of this is
needed, and no instruction of the two architectures does it. Not every statement would hold for such
code: no panel hears of memory that is zeroed without a write. An action has no other way to look at
a machine, so neither the devices nor the journal can influence it.
-/

namespace Breadboard

/-! ## Failures -/

/-- Why an instruction fails. -/
inductive ExecError where
  /-- No instruction has the opcode fetched. -/
  | invalidOpcode (address opcode : Int)
  /-- An access went past memory. -/
  | memory (e : BoundsError)
  /-- The instruction needs an operand and has none. -/
  | missingOperand (mnemonic : String)
  /-- The instruction needs something that is not modelled. -/
  | unimplemented (what : String)
  /-- The instruction stops the machine. -/
  | halted (reason : String)
  deriving DecidableEq, Repr

/-- A number in base sixteen with at least `count` digits; a negative one as 64-bit two's
complement. -/
def hexText (v : Int) (count : Nat) : String :=
  String.ofList (Text.padded count (Text.hexDigits (v % Word.modulus 8).toNat))

/-- The text of the error. -/
def ExecError.message : ExecError → String
  | .invalidOpcode address opcode =>
    s!"address 0x{hexText address 1}: invalid opcode 0x{hexText opcode 2}"
  | .memory e => e.message
  | .missingOperand mnemonic => s!"{mnemonic}: operand missing"
  | .unimplemented what => s!"{what} not implemented"
  | .halted reason => s!"execution halted: {reason}"

/-! ## Actions and how they run -/

/-- Effects in sequence, with a result. There is one constructor for each thing that the callback of
an instruction is documented to do; an access that memory refuses ends the action. -/
inductive Action (α : Type) : Type where
  | done (result : α)
  | fail (e : ExecError)
  /-- Reads a register. -/
  | register (position : Nat) (next : Int → Action α)
  /-- Reads the first indicator of a kind. -/
  | flag (kind : IndicatorKind) (next : Bool → Action α)
  /-- Changes the register file. -/
  | edit (change : Cpu.Edit) (next : Action α)
  /-- Reads an unsigned number from memory. -/
  | load (address : Int) (length : Nat) (next : Int → Action α)
  /-- Writes a number to memory. -/
  | store (address : Int) (length : Nat) (value : Int) (next : Action α)

namespace Action

variable {α β : Type}

/-- Goes on with `f` where the action is done. -/
def bind (f : α → Action β) : Action α → Action β
  | .done a => f a
  | .fail e => .fail e
  | .register i k => .register i fun v => (k v).bind f
  | .flag kind k => .flag kind fun on => (k on).bind f
  | .edit change k => .edit change (k.bind f)
  | .load a n k => .load a n fun v => (k v).bind f
  | .store a n v k => .store a n v (k.bind f)

instance : Monad Action where
  pure := .done
  bind x f := x.bind f

/-- Carries the action out. A failure keeps the changes made before it. -/
def run : Action α → Machine → Except ExecError α × Machine
  | .done a, m => (.ok a, m)
  | .fail e, m => (.error e, m)
  | .register i k, m => (k (m.cpu.register i)).run m
  | .flag kind k, m => (k (m.cpu.flag kind)).run m
  | .edit change k, m => k.run (m.edit change)
  | .load a n k, m =>
    match m.memory.readUnsigned a n with
    | .error e => (.error (.memory e), m)
    | .ok v => (k v).run m
  | .store a n v k, m =>
    match m.write a n v with
    | (.error e, m) => (.error (.memory e), m)
    | (.ok (), m) => k.run m

/-! ## Single effects -/

/-- Reads a register. -/
def getRegister (i : Nat) : Action Int := .register i .done

/-- Writes a register. -/
def setRegister (i : Nat) (v : Int) : Action Unit := .edit (.register i v) (.done ())

/-- Reads the first indicator of a kind. -/
def getFlag (kind : IndicatorKind) : Action Bool := .flag kind .done

/-- Sets every indicator of a kind. -/
def setFlag (kind : IndicatorKind) (on : Bool) : Action Unit := .edit (.flag kind on) (.done ())

/-- Sets the zero and negative indicators from `v`. -/
def setSigns (v : Int) : Action Unit := .edit (.signs v) (.done ())

/-- Sets the end latch. -/
def finish : Action Unit := .edit (.ended true) (.done ())

/-- Reads an unsigned number from memory. -/
def loadUnsigned (address : Int) (length : Nat) : Action Int := .load address length .done

/-- Reads a signed number from memory. -/
def loadSigned (address : Int) (length : Nat) : Action Int :=
  .load address length fun v => .done (Word.signed v length)

/-- Writes a number to memory. -/
def put (address : Int) (length : Nat) (v : Int) : Action Unit := .store address length v (.done ())

/-- In sequence, the second action goes on where the first one ended, unless the first one
failed. -/
theorem run_bind (f : α → Action β) (x : Action α) (m : Machine) :
    (x.bind f).run m =
      match x.run m with
      | (.ok a, m) => (f a).run m
      | (.error e, m) => (.error e, m) := by
  induction x generalizing m with
  | done a => rfl
  | fail e => rfl
  | register i k ih => exact ih _ m
  | flag kind k ih => exact ih _ m
  | edit change k ih => exact ih _
  | load a n k ih =>
    simp only [bind, run]
    split
    · rfl
    · exact ih _ m
  | store a n v k ih =>
    simp only [bind, run]
    split
    · rfl
    · exact ih _

end Action

end Breadboard
