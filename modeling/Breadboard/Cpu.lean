import Breadboard.Cpu.Register
import Breadboard.Event

/-!
# The register file

A `Cpu` holds the registers and indicators of a processor and the latch that marks the end of a
program. Registers and indicators are changed by the edits of this module alone, and every edit
gives, together with the new state, the events that an observer sees, oldest first.

Two views of the indicators are kept in step. Changing an indicator changes the bit of its rank in
every status register, and writing a status register sets every indicator from the bit of its rank.
A write of a register that updates the status automatically also sets the zero and negative
indicators from the number stored.
-/

namespace Breadboard

/-- Registers, indicators and the end latch. -/
structure Cpu where
  registers : List RegisterCell := []
  indicators : List IndicatorCell := []
  ended : Bool := false
  deriving DecidableEq, Repr

/-- A register file and the events that led to it, oldest first. -/
structure Traced where
  cpu : Cpu
  events : List Event := []
  deriving DecidableEq, Repr

/-- Goes on with `f`, after the events so far. -/
def Traced.andThen (t : Traced) (f : Cpu → Traced) : Traced :=
  let next := f t.cpu
  ⟨next.cpu, t.events ++ next.events⟩

namespace Cpu

/-! ## Looking -/

/-- All registers zero and all indicators clear. -/
def fresh (registers : List Register) (indicators : List Indicator) : Cpu :=
  { registers := registers.map fun r => { r with },
    indicators := indicators.map fun i => { i with } }

/-- The number in the register at position `i`, and zero where there is no register. -/
def register (cpu : Cpu) (i : Nat) : Int :=
  (cpu.registers[i]?.map (·.value)).getD 0

/-- The state of the first indicator of `kind`; clear if there is none. -/
def flag (cpu : Cpu) (kind : IndicatorKind) : Bool :=
  ((cpu.indicators.find? (·.kind = kind)).map (·.value)).getD false

/-- The position of the first register called `name`, in any case. -/
def findRegister? (cpu : Cpu) (name : String) : Option Nat :=
  cpu.registers.findIdx? fun r => Text.sameName r.name name

/-- The position of the first indicator called `name`, in any case. -/
def findIndicator? (cpu : Cpu) (name : String) : Option Nat :=
  cpu.indicators.findIdx? fun i => Text.sameName i.name name

/-- The positions of the indicators of `kind`. -/
def positionsOf (cpu : Cpu) (kind : IndicatorKind) : List Nat :=
  (List.range cpu.indicators.length).filter fun i =>
    (cpu.indicators[i]?.map (·.kind)) = some kind

/-- The events that tell the number in each status register. -/
def statusEvents (cpu : Cpu) : List Event :=
  cpu.registers.zipIdx.filterMap fun (r, i) =>
    if r.kind = .status then some (.register i r.value) else none

/-! ## Changing -/

/-- Sets one indicator, and its bit in every status register. Nothing happens if it has the value
already. -/
def setIndicator (cpu : Cpu) (i : Nat) (on : Bool) : Traced :=
  match cpu.indicators[i]? with
  | none => ⟨cpu, []⟩
  | some indicator =>
    if indicator.value = on then ⟨cpu, []⟩
    else
      let next :=
        { cpu with
          indicators := cpu.indicators.set i { indicator with value := on }
          registers := cpu.registers.map (·.withStatusBit indicator.rank on) }
      ⟨next, next.statusEvents ++ [.indicator i on]⟩

/-- Sets every indicator of `kind`, in order. -/
def setFlag (cpu : Cpu) (kind : IndicatorKind) (on : Bool) : Traced :=
  (cpu.positionsOf kind).foldl (fun t i => t.andThen (·.setIndicator i on)) ⟨cpu, []⟩

/-- Sets every indicator from the bit of its rank in `status`. -/
def showStatus (cpu : Cpu) (status : Int) : Traced :=
  { cpu :=
      { cpu with
        indicators := cpu.indicators.map fun i => { i with value := Word.bit status i.rank } },
    events := cpu.indicators.zipIdx.filterMap fun (indicator, i) =>
      let on := Word.bit status indicator.rank
      if indicator.value = on then none else some (.indicator i on) }

/-- Sets the zero indicators from `v`. -/
def setZero (cpu : Cpu) (v : Int) : Traced := cpu.setFlag .zero (v == 0)

/-- Sets the negative indicators from `v`. -/
def setNegative (cpu : Cpu) (v : Int) : Traced := cpu.setFlag .negative (v < 0)

/-- Sets the zero and then the negative indicators from `v`. -/
def setSigns (cpu : Cpu) (v : Int) : Traced := (cpu.setZero v).andThen (·.setNegative v)

/-- Stores what remains of `v` in the field of a register. A status register then sets the
indicators, and a register that updates the status automatically sets zero and negative. -/
def setRegister (cpu : Cpu) (i : Nat) (v : Int) : Traced :=
  match cpu.registers[i]? with
  | none => ⟨cpu, []⟩
  | some register =>
    let stored := register.put v
    let written : Traced :=
      ⟨{ cpu with registers := cpu.registers.set i stored }, [.register i stored.value]⟩
    let shown :=
      if register.kind = .status then written.andThen (·.showStatus stored.value) else written
    if register.status = .auto then shown.andThen (·.setSigns stored.value) else shown

/-- Sets or clears the end latch, which no event tells. -/
def setEnded (cpu : Cpu) (on : Bool) : Cpu := { cpu with ended := on }

/-- Zeroes every register in order, then clears every indicator, then the end latch. -/
def reset (cpu : Cpu) : Traced :=
  let zeroed := (List.range cpu.registers.length).foldl
    (fun t i => t.andThen (·.setRegister i 0)) (⟨cpu, []⟩ : Traced)
  let cleared := (List.range cpu.indicators.length).foldl
    (fun t i => t.andThen (·.setIndicator i false)) zeroed
  ⟨cleared.cpu.setEnded false, cleared.events⟩

/-! ## Edits as data -/

/-- One change to a register file. -/
inductive Edit where
  | register (position : Nat) (value : Int)
  | indicator (position : Nat) (on : Bool)
  | flag (kind : IndicatorKind) (on : Bool)
  | signs (value : Int)
  | ended (on : Bool)
  | reset
  deriving DecidableEq, Repr

/-- Carries out one change. -/
def edit (cpu : Cpu) : Edit → Traced
  | .register i v => cpu.setRegister i v
  | .indicator i on => cpu.setIndicator i on
  | .flag kind on => cpu.setFlag kind on
  | .signs v => cpu.setSigns v
  | .ended on => ⟨cpu.setEnded on, []⟩
  | .reset => cpu.reset

/-- Carries out changes in order. -/
def edits (cpu : Cpu) (changes : List Edit) : Traced :=
  changes.foldl (fun t change => t.andThen (·.edit change)) ⟨cpu, []⟩

end Cpu

end Breadboard
