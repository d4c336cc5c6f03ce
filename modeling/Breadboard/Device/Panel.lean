import Breadboard.Device.Descriptor
import Breadboard.Numeral

/-!
# The lamp panel

A row of lamps that shows the bits of some bytes of memory. The panel keeps the bytes last delivered
to it, as many as its lamps need, and starts dark. Lamps are counted from the right: lamp 0 is the
lowest bit of the last byte. `length_lamps` says that there are as many lamps as asked for.
-/

namespace Breadboard

/-- A panel of `count` lamps over the window at `address`. -/
structure Panel where
  /-- The position among the devices of its controller. -/
  rank : Nat
  count : Nat
  address : Int
  /-- The bytes last delivered, if any were. -/
  delivered : Option (List UInt8) := none
  deriving DecidableEq, Repr

namespace Panel

/-- The name by which a panel is asked for. -/
def deviceName : String := "Led display"

/-- The number of bytes whose bits the lamps show. -/
def size (p : Panel) : Nat := (p.count + 7) / 8

/-- The bytes that the lamps show: all zero before the first delivery. -/
def bytes (p : Panel) : List UInt8 := p.delivered.getD (List.replicate p.size 0)

/-- Whether lamp `i` of `count` lamps over `bytes` is on. -/
def lampOf (count : Nat) (bytes : List UInt8) (i : Nat) : Bool :=
  i < count && ((bytes.reverse[i / 8]?.getD 0).toNat.testBit (i % 8))

/-- Whether lamp `i` is on. -/
def lamp (p : Panel) (i : Nat) : Bool := lampOf p.count p.bytes i

/-- The lamps, lamp 0 first. -/
def lamps (p : Panel) : List Bool := (List.range p.count).map p.lamp

/-- The number that the bytes write. -/
def value (p : Panel) : Int := Word.ofBytes p.bytes

/-- The lamps from the highest to lamp 0, then the address and the value in base sixteen and ten. -/
def render (p : Panel) : String :=
  let row := p.lamps.reverse.map fun on => if on then '*' else '.'
  let width := p.bytes.length
  s!"{String.ofList row} @{p.address} x{Word.hex p.value width} {Word.decimal p.value width}"

/-- The panel after a delivery. -/
def receive (p : Panel) (bytes : List UInt8) : Panel := { p with delivered := some bytes }

/-- The decimal number given as parameter `index`, which `what` names. -/
def parameter (d : Descriptor) (index : Nat) (what : String) : Except DeviceError Int :=
  match d.params[index]? with
  | none => .error (.invalidParameter d.name s!"missing {what}")
  | some text =>
    match Numeral.int? 10 text.toList with
    | some v => .ok v
    | none => .error (.invalidParameter d.name s!"{what} `{text}` is not a decimal number")

/-- The panel that `d` asks for: its first parameter is the number of lamps, its second the address
of the window. -/
def create (rank : Nat) (d : Descriptor) : Except DeviceError Panel :=
  match parameter d 0 "lamp count" with
  | .error e => .error e
  | .ok count =>
    match parameter d 1 "address" with
    | .error e => .error e
    | .ok address =>
      if count ≤ 0 then .error (.invalidParameter d.name s!"lamp count {count} must be positive")
      else if address < 0 then .error (.invalidParameter d.name s!"address {address} is negative")
      else .ok { rank, count := count.toNat, address }

@[simp] theorem length_lamps (p : Panel) : p.lamps.length = p.count := by
  simp [lamps]

end Panel

end Breadboard
