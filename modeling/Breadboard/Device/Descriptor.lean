import Breadboard.Text.Blank

/-!
# Device descriptors

A device is asked for by a text of the form `NAME:PARAM:PARAM`. Blanks around the name and around
each parameter do not count, and the name must not be empty. `DeviceError` also holds what can go
wrong later, when the device is created or its window is placed.
-/

namespace Breadboard

/-- Why a device cannot be had. -/
inductive DeviceError where
  /-- No device has that name. -/
  | unknown (name : String)
  /-- The device cannot use a parameter. -/
  | invalidParameter (device reason : String)
  /-- An input window does not lie inside memory. -/
  | windowOutside (window : String) (base : Int) (size memory : Nat)
  deriving DecidableEq, Repr

/-- The text of the error. -/
def DeviceError.message : DeviceError → String
  | .unknown name => s!"unknown device `{name}`"
  | .invalidParameter device reason => s!"device `{device}`: {reason}"
  | .windowOutside window base size memory =>
    s!"input window `{window}` at {base} (+{size}) lies outside memory of {memory} bytes"

/-- A request for a device: its name and its parameters. -/
structure Descriptor where
  name : String
  params : List String
  deriving DecidableEq, Repr

/-- Reads `NAME:PARAM:PARAM`. -/
def Descriptor.parse (text : String) : Except DeviceError Descriptor :=
  match (Text.splitWhere (· == ':') text.toList).map (String.ofList ∘ Text.trim) with
  | [] => .error (.unknown text)
  | name :: params => if name = "" then .error (.unknown text) else .ok { name, params }

end Breadboard
