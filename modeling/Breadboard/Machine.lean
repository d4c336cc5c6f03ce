import Breadboard.Cpu
import Breadboard.Device.Controller

/-!
# The machine

A register file, a memory and the controllers that listen to it, together with the journal of all
events since it was last read. A write to memory first fills the cells, then feeds the controllers
in the order in which they were attached, and only then enters the journal; a refused write does
none of this. Nothing of the register file or of memory depends on a controller (`cpu_store`,
`memory_store`).
-/

namespace Breadboard

/-- The state that a processor works on. -/
structure Machine where
  cpu : Cpu := {}
  memory : Memory
  controllers : List Controller := []
  /-- The events not read yet, newest first. -/
  journal : List Event := []
  deriving DecidableEq, Repr

namespace Machine

/-! ## The journal -/

/-- Enters an event into the journal. -/
def record (m : Machine) (e : Event) : Machine := { m with journal := e :: m.journal }

/-- Enters events into the journal, oldest first. -/
def recordAll (m : Machine) (es : List Event) : Machine :=
  { m with journal := es.reverseAux m.journal }

/-- The events not read yet, oldest first. -/
def events (m : Machine) : List Event := m.journal.reverse

/-- The machine with an empty journal. -/
def forget (m : Machine) : Machine := { m with journal := [] }

/-! ## Changing the register file -/

/-- Takes over a register file and the events that led to it. -/
def adopt (m : Machine) (t : Traced) : Machine :=
  { m with cpu := t.cpu }.recordAll t.events

/-- Changes the register file. -/
def edit (m : Machine) (e : Cpu.Edit) : Machine := m.adopt (m.cpu.edit e)

/-- Changes the register file by edits in order. -/
def edits (m : Machine) (es : List Cpu.Edit) : Machine := m.adopt (m.cpu.edits es)

/-! ## Writing memory -/

/-- The deliveries that a probe reports, as events of the controller at position `i`. -/
def probeEvents (i : Nat) (deliveries : List Delivery) : List Event :=
  deliveries.filterMap fun d =>
    match d.listener with
    | .probe w => some (.delivery i w.name w.base w.size d.bytes)
    | .panel _ => none

/-- Feeds the controllers after a write of `length` bytes at `address`. -/
def feed (m : Machine) (address : Int) (length : Nat) : Machine :=
  let events := (m.controllers.zipIdx.map fun (c, i) =>
    probeEvents i (c.deliveries m.memory address length)).flatten
  let fed : Machine :=
    { m with controllers := m.controllers.map (·.deliver m.memory address length) }
  fed.recordAll events

/-- Puts `bytes` into the cells from `start` on, which exist, and tells everyone. -/
def store (m : Machine) (start : Nat) (bytes : List UInt8) : Machine :=
  let written := { m with memory := m.memory.overlay start bytes }
  (written.feed start bytes.length).record (.memory start bytes.length)

/-- Writes the low `length` bytes of `v` at `address`, most significant first. -/
def write (m : Machine) (address : Int) (length : Nat) (v : Int) :
    Except BoundsError Unit × Machine :=
  match m.memory.locate address length with
  | .error e => (.error e, m)
  | .ok start => (.ok (), m.store start (Word.toBytes v length))

/-- Writes bytes one by one from `address` on, up to the first that is refused. -/
def poke (m : Machine) (address : Int) : List UInt8 → Except BoundsError Unit × Machine
  | [] => (.ok (), m)
  | b :: bytes =>
    match m.write address 1 b.toNat with
    | (.error e, m) => (.error e, m)
    | (.ok (), m) => poke m (address + 1) bytes

/-- Zeroes memory. Nobody is told. -/
def clearMemory (m : Machine) : Machine := { m with memory := m.memory.cleared }

/-! ## Controllers -/

/-- Changes the controller at position `i`. -/
def setController (m : Machine) (i : Nat) (c : Controller) : Machine :=
  { m with controllers := m.controllers.set i c }

/-- Removes the devices and windows of all controllers. -/
def detachAll (m : Machine) : Machine :=
  { m with controllers := m.controllers.map Controller.detachAll }

/-- The devices of all controllers. -/
def devices (m : Machine) : List Panel := m.controllers.flatMap Controller.devices

@[simp] theorem cpu_store (m : Machine) (start : Nat) (bytes : List UInt8) :
    (m.store start bytes).cpu = m.cpu := rfl

@[simp] theorem memory_store (m : Machine) (start : Nat) (bytes : List UInt8) :
    (m.store start bytes).memory = m.memory.overlay start bytes := rfl

end Machine

end Breadboard
