import Breadboard.Word

/-!
# Registers and indicators

What a register file is made of: registers that hold a number in a field of some bytes, and
indicators that are one bit each. An indicator has a rank, and a register of the kind `status` shows
at bit `r` the indicator of rank `r`.
-/

namespace Breadboard

/-- The part that a register plays. -/
inductive RegisterKind where
  | programCounter
  | stackPointer
  | accumulator
  | index
  | general
  | status
  deriving DecidableEq, Repr

/-- How the bytes of a register are read. -/
inductive NumberFormat where
  | signed
  | unsigned
  deriving DecidableEq, Repr

/-- What remains of `v` in a field of `width` bytes. -/
def NumberFormat.fit : NumberFormat → Int → Nat → Int
  | .signed, v, width => Word.signed v width
  | .unsigned, v, width => Word.unsigned v width

/-- Whether writing a register sets the zero and negative indicators. -/
inductive StatusUpdate where
  | manual
  | auto
  deriving DecidableEq, Repr

/-- The condition that an indicator reports. -/
inductive IndicatorKind where
  | zero
  | negative
  | carry
  | overflow
  | interruptDisable
  | decimal
  | brk
  | unused
  deriving DecidableEq, Repr

/-- The description of a register. -/
structure Register where
  name : String
  label : String := ""
  kind : RegisterKind
  format : NumberFormat
  size : Nat
  rank : Nat
  status : StatusUpdate := .manual
  deriving DecidableEq, Repr

/-- The description of an indicator. -/
structure Indicator where
  name : String
  label : String := ""
  kind : IndicatorKind
  rank : Nat
  deriving DecidableEq, Repr

/-- A register and the number it holds. -/
structure RegisterCell extends Register where
  value : Int := 0
  deriving DecidableEq, Repr

/-- An indicator and whether it is set. -/
structure IndicatorCell extends Indicator where
  value : Bool := false
  deriving DecidableEq, Repr

/-- The register holding what remains of `v` in its field. -/
def RegisterCell.put (r : RegisterCell) (v : Int) : RegisterCell :=
  { r with value := r.format.fit v r.size }

/-- A status register with the bit at `rank` set to `on`; any other register is unchanged. -/
def RegisterCell.withStatusBit (r : RegisterCell) (rank : Nat) (on : Bool) : RegisterCell :=
  if r.kind = .status then r.put (Word.withBit r.value rank on) else r

end Breadboard
