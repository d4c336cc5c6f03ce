import Breadboard.Machine
import Breadboard.Numeral

/-!
# Program lines

What a source line turned out to be, with the problems found on it so far. A line carries its bytes
as an opcode followed by its operand, or as a data value; `length_bytes` says that a line whose
opcode is known has as many bytes as it occupies, whatever its operand resolves to.
-/

namespace Breadboard

/-- Why a line is refused. -/
inductive LineError where
  /-- The line is neither a directive nor an instruction, data or label. -/
  | invalidMnemonic (word : String)
  /-- No addressing mode accepts the operand. -/
  | operandNotRecognized (text : String)
  /-- No instruction of that name has that kind of operand. -/
  | operandMismatch (mnemonic : String)
  | operandMissing (name : String)
  | noOperandExpected (name : String)
  | unexpectedToken (text : String)
  /-- The label was defined before, at the line `first`. -/
  | duplicateLabel (name : String) (first : Nat)
  | unknownLabel (name : String)
  /-- The distance to the label does not fit the operand. -/
  | branchOutOfRange (name : String)
  /-- The address of the label does not fit the operand. -/
  | labelTooWide (name : String) (size : Nat)
  /-- Some byte of the line would lie outside memory. -/
  | addressOutOfRange (address : Int) (size : Nat)
  /-- The text of a value is malformed. -/
  | value (e : ValueError)
  /-- The line separates several operands. -/
  | multipleOperands (mnemonic : String)
  deriving DecidableEq, Repr

/-- The text of the error. -/
def LineError.message : LineError → String
  | .invalidMnemonic word => s!"Invalid mnemonic {word}"
  | .operandNotRecognized text => s!"{text}: operand type not recognized"
  | .operandMismatch mnemonic => s!"{mnemonic}: operand type does not match"
  | .operandMissing name => s!"{name}: operand missing"
  | .noOperandExpected name => s!"{name}: no operand expected"
  | .unexpectedToken text => s!"{text}: unexpected token"
  | .duplicateLabel name first => s!"{name}: duplicate label (first defined at line {first})"
  | .unknownLabel name => s!"{name}: unknown label"
  | .branchOutOfRange name => s!"{name}: branch out of range"
  | .labelTooWide name size => s!"{name}: address does not fit in {size} byte(s)"
  | .addressOutOfRange address size => s!"{size} byte(s) at address {address}: address out of range"
  | .value e => e.message
  | .multipleOperands mnemonic => s!"{mnemonic}: multiple operands not supported"

/-- An operand as written in the source. -/
structure SourceOperand where
  text : String
  /-- The position of the addressing mode in which the operand is encoded. -/
  mode : Nat
  /-- The label that the operand names, if it names one. -/
  label : Option String := none
  /-- The value to be encoded, zero until a label is resolved. -/
  value : Int := 0
  /-- The width of the encoding in bytes. -/
  size : Nat
  deriving DecidableEq, Repr

/-- An instruction as written in the source. -/
structure CodeLine where
  /-- The mnemonic in upper case. -/
  mnemonic : String
  /-- The width of the opcode in bytes. -/
  size : Nat
  /-- A label is encoded as the distance from the next instruction. -/
  relative : Bool
  operand : Option SourceOperand := none
  /-- The opcode, if there is an instruction of that name with that kind of operand. -/
  opcode : Option Int := none
  deriving DecidableEq, Repr

/-- What a line turned out to be. -/
inductive LineBody where
  | directive (name : String)
  | data (keyword : String) (size : Nat) (value : Int)
  | code (code : CodeLine)
  | label
  | unknown
  deriving DecidableEq, Repr

/-- A line of a program. -/
structure Line where
  number : Nat
  text : String
  body : LineBody := .unknown
  /-- The label that the line defines. -/
  label : Option String := none
  /-- The address of the line; a directive has its origin here, if it gives one. -/
  address : Option Int := none
  /-- The operand as written, empty if there is none. -/
  argument : String := ""
  errors : List LineError := []
  deriving DecidableEq, Repr

/-- A number to be stored in a field of memory. -/
structure MemoryWrite where
  address : Int
  length : Nat
  value : Int
  deriving DecidableEq, Repr

/-- The number of bytes of opcode and operand. -/
def CodeLine.footprint (c : CodeLine) : Nat := c.size + c.operand.elim 0 (·.size)

namespace Line

/-- The line is an instruction. -/
def isCode (l : Line) : Bool :=
  match l.body with
  | .code _ => true
  | _ => false

/-- The line is a label of its own. -/
def isLabel (l : Line) : Bool :=
  match l.body with
  | .label => true
  | _ => false

/-- The number of bytes that the line occupies in memory. -/
def footprint (l : Line) : Nat :=
  match l.body with
  | .code c => c.footprint
  | .data _ size _ => size
  | _ => 0

/-- Adds a problem found on the line. -/
def report (l : Line) (e : LineError) : Line := { l with errors := l.errors ++ [e] }

/-- The bytes of the line: a data value, or the opcode followed by the operand. -/
def bytes (l : Line) : List UInt8 :=
  match l.body with
  | .data _ size value => Word.toBytes value size
  | .code { opcode := some opcode, size, operand, .. } =>
    Word.toBytes opcode size ++ operand.elim [] fun o => Word.toBytes o.value o.size
  | _ => []

/-- The fields that the line stores in memory, in order. -/
def writes (l : Line) : List MemoryWrite :=
  match l.address, l.body with
  | some address, .data _ size value => [⟨address, size, value⟩]
  | some address, .code { opcode := some opcode, size, operand, .. } =>
    ⟨address, size, opcode⟩ :: operand.elim [] fun o => [⟨address + size, o.size, o.value⟩]
  | _, _ => []

/-- A line without an instruction that misses its opcode has as many bytes as it occupies. -/
theorem length_bytes {l : Line} (h : ∀ c, l.body = .code c → c.opcode.isSome) :
    l.bytes.length = l.footprint := by
  cases hb : l.body with
  | code c =>
    obtain ⟨opcode, ho⟩ := Option.isSome_iff_exists.1 (h c hb)
    obtain ⟨mnemonic, size, relative, operand, opcode'⟩ := c
    subst ho
    cases operand <;> simp [bytes, footprint, hb, CodeLine.footprint]
  | data keyword size value => simp [bytes, footprint, hb]
  | directive name => simp [bytes, footprint, hb]
  | label => simp [bytes, footprint, hb]
  | unknown => simp [bytes, footprint, hb]

end Line

end Breadboard
