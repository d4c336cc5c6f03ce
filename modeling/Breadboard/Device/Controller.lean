import Breadboard.Device.Panel
import Breadboard.Memory

/-!
# Input windows and their controller

A controller listens to ranges of memory, its windows. After a successful write it delivers to every
window that the write touched, in the order of declaration, the whole contents of the window. A
window feeds a panel, or a probe that only reports what it was given. The devices of a controller
are its panels; `devices_attach` says that attaching one adds it at the end, with the next rank.
-/

namespace Breadboard

/-! ## Windows and listeners -/

/-- A range of memory that a controller listens to. -/
structure Window where
  name : String
  base : Int
  size : Nat
  deriving DecidableEq, Repr

/-- The window and the range of `length` bytes at `address` have a byte in common. Ranges longer
than the greatest number touch nothing. -/
def Window.overlaps (w : Window) (address : Int) (length : Nat) : Bool :=
  0 < length && 0 < w.size && Word.inRange length && Word.inRange w.size &&
    address < w.base + w.size && w.base < address + length

/-- The window lies inside a memory of `size` bytes. -/
def Window.inside (w : Window) (size : Nat) : Bool :=
  0 ≤ w.base && w.base.toNat + w.size ≤ size

/-- What listens to a window. -/
inductive Listener where
  | probe (window : Window)
  | panel (panel : Panel)
  deriving DecidableEq, Repr

/-- The window that is listened to; a panel listens to the bytes that its lamps need. -/
def Listener.window : Listener → Window
  | .probe window => window
  | .panel p => ⟨"LED", p.address, p.size⟩

/-- The panel that listens, if it is one. -/
def Listener.panel? : Listener → Option Panel
  | .probe _ => none
  | .panel p => some p

/-- The listener after the bytes of its window were delivered. -/
def Listener.receive (bytes : List UInt8) : Listener → Listener
  | .probe window => .probe window
  | .panel p => .panel (p.receive bytes)

/-- What a window was given. -/
structure Delivery where
  listener : Listener
  bytes : List UInt8
  deriving DecidableEq, Repr

/-- Listeners in the order of declaration. -/
structure Controller where
  listeners : List Listener := []
  deriving DecidableEq, Repr

namespace Controller

/-! ## What a controller holds -/

/-- The devices in the order of creation. -/
def devices (c : Controller) : List Panel := c.listeners.filterMap Listener.panel?

/-- The windows in the order of declaration. -/
def windows (c : Controller) : List Window := c.listeners.map Listener.window

/-- Adds a window with a probe. -/
def addProbe (c : Controller) (w : Window) : Controller :=
  { c with listeners := c.listeners ++ [.probe w] }

/-! ## Delivering writes -/

/-- The bytes to be delivered to `listener` after a write of `length` bytes at `address` to `m`:
those of its window, if the write touches the window and the window lies inside memory. -/
def delivery? (m : Memory) (address : Int) (length : Nat) (listener : Listener) :
    Option (List UInt8) :=
  let w := listener.window
  if w.overlaps address length && w.inside m.size then some (m.slice w.base.toNat w.size) else none

/-- What a write of `length` bytes at `address` to `m` delivers, in order. -/
def deliveries (c : Controller) (m : Memory) (address : Int) (length : Nat) : List Delivery :=
  c.listeners.filterMap fun listener =>
    (delivery? m address length listener).map fun bytes => ⟨listener, bytes⟩

/-- The controller after it made those deliveries. -/
def deliver (c : Controller) (m : Memory) (address : Int) (length : Nat) : Controller :=
  { c with
    listeners := c.listeners.map fun listener =>
      match delivery? m address length listener with
      | some bytes => listener.receive bytes
      | none => listener }

/-! ## Attaching devices -/

/-- Creates the device that `d` asks for and attaches it. -/
def attach (c : Controller) (d : Descriptor) : Except DeviceError Controller :=
  if d.name = Panel.deviceName then
    (Panel.create c.devices.length d).map fun p => { c with listeners := c.listeners ++ [.panel p] }
  else .error (.unknown d.name)

/-- Attaches the devices that `ds` ask for, in order, up to the first that is refused. -/
def attachAll (c : Controller) : List Descriptor → Except DeviceError Controller
  | [] => .ok c
  | d :: ds =>
    match c.attach d with
    | .error e => .error e
    | .ok next => next.attachAll ds

/-- Every window lies inside a memory of `size` bytes; the first that does not is reported. -/
def checkWindows (c : Controller) (size : Nat) : Except DeviceError Unit :=
  match c.windows.find? (! ·.inside size) with
  | some w => .error (.windowOutside w.name w.base w.size size)
  | none => .ok ()

/-- Removes all devices and windows. -/
def detachAll (_ : Controller) : Controller := {}

/-- A device that is attached comes last, and its rank is the number of devices before it. -/
theorem devices_attach {c c' : Controller} {d : Descriptor}
    (h : c.attach d = .ok c') :
    ∃ p, Panel.create c.devices.length d = .ok p ∧ c'.devices = c.devices ++ [p] := by
  unfold attach at h
  split at h
  · cases hp : Panel.create c.devices.length d with
    | error e => simp [hp, Except.map] at h
    | ok p =>
      simp only [hp, Except.map, Except.ok.injEq] at h
      exact ⟨p, rfl, by simp [← h, devices, Listener.panel?]⟩
  · simp at h

end Controller

end Breadboard
