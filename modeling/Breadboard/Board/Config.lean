import Breadboard.Device.Descriptor
import Breadboard.Numeral

/-!
# What a board is built from

The architecture by name, the size of memory and the devices in the order in which they are created.
-/

namespace Breadboard

/-- A memory size: a number of bytes, or all that an architecture can address. -/
inductive MemorySize where
  | bytes (count : Nat)
  | max
  deriving DecidableEq, Repr

/-- The text is not a memory size. -/
structure MemorySizeError where
  text : String
  deriving DecidableEq, Repr

/-- The text of the error. -/
def MemorySizeError.message (e : MemorySizeError) : String :=
  s!"invalid memory size `{e.text}`: expected a byte count or `max`"

namespace MemorySize

/-- The number of bytes for addresses of `addressSize` bytes. Sizes fit eight bytes. -/
def resolve (addressSize : Nat) : MemorySize → Nat
  | .bytes count => count
  | .max => if addressSize < 8 then Word.modulus addressSize else Word.modulus 8 - 1

/-- The size as text. -/
def text : MemorySize → String
  | .bytes count => s!"{count}"
  | .max => "max"

/-- Reads `max`, in any case, or a number of bytes. -/
def parse (text : String) : Except MemorySizeError MemorySize :=
  if Text.sameName text "max" then .ok .max
  else
    match Numeral.count? text.toList with
    | some count => .ok (.bytes count)
    | none => .error ⟨text⟩

end MemorySize

/-- The description of a board. -/
structure BoardConfig where
  architecture : String
  memory : MemorySize := .max
  devices : List Descriptor := []
  deriving DecidableEq, Repr

/-- The number of steps after which a run gives up unless told otherwise. -/
def defaultMaxSteps : Nat := 100000

end Breadboard
