/-!
# Events

What an observer of a machine sees, in the order in which it happens.
-/

namespace Breadboard

/-- One observable change. -/
inductive Event where
  /-- An instruction is about to be fetched from the address `pc`. -/
  | fetch (pc : Int)
  /-- The register at this position now holds `value`. -/
  | register (position : Nat) (value : Int)
  /-- The indicator at this position changed to `value`. -/
  | indicator (position : Nat) (value : Bool)
  /-- The bytes of a window were delivered to a probe of the controller at this position. -/
  | delivery (controller : Nat) (window : String) (base : Int) (size : Nat) (bytes : List UInt8)
  /-- A range of memory was written. -/
  | memory (address : Int) (length : Nat)
  deriving DecidableEq, Repr

end Breadboard
