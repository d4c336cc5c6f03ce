import Breadboard.Edu1
import Breadboard.Mos6502

/-!
# What is available by name

The architectures and the devices that a board can be built from.
-/

namespace Breadboard.Catalog

/-- The architectures, sorted by name. -/
def architectures : List Architecture := [Mos6502.architecture, Edu1.architecture]

/-- The names of the architectures. -/
def architectureNames : List String := architectures.map (·.name)

/-- The architecture called `name`. -/
def architecture? (name : String) : Option Architecture := architectures.find? (·.name = name)

/-- The names of the devices. -/
def deviceNames : List String := [Panel.deviceName]

end Breadboard.Catalog
