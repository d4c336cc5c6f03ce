import Breadboard.Cpu
import Breadboard.Proofs.Word

/-!
# What the edits of a register file keep

Every edit is a sequence of single steps: a register is written, all indicators are set from a
status register, one indicator is set, or the end latch changes. A property that each kind of step
keeps is kept by every edit (`edit_induct`) and by every sequence of edits (`edits_induct`). No edit
changes what registers and indicators there are (`tables_edit`). A step on an indicator leaves every
register alone that is not a status register, so a register that was written holds what was stored
(`getElem?_registers_setRegister`).
-/

namespace Breadboard

/-! ## Sequences of steps -/

@[simp] theorem Traced.cpu_andThen (t : Traced) (f : Cpu → Traced) :
    (t.andThen f).cpu = (f t.cpu).cpu := rfl

/-- What every step of a sequence keeps, the sequence keeps. -/
theorem Traced.foldl_andThen_induct {α : Type} {P : Cpu → Prop} {f : α → Cpu → Traced}
    (hstep : ∀ a cpu, P cpu → P (f a cpu).cpu) (as : List α) {t : Traced} (h : P t.cpu) :
    P (as.foldl (fun t a => t.andThen (f a)) t).cpu := by
  induction as generalizing t with
  | nil => exact h
  | cons a as ih => exact ih (hstep a t.cpu h)

namespace Cpu

section Induction

variable {P : Cpu → Prop}

theorem setFlag_induct (hind : ∀ cpu i on, P cpu → P (cpu.setIndicator i on).cpu)
    {cpu : Cpu} (kind : IndicatorKind) (on : Bool) (h : P cpu) : P (cpu.setFlag kind on).cpu :=
  Traced.foldl_andThen_induct (f := fun i cpu => cpu.setIndicator i on)
    (fun i cpu => hind cpu i on) (cpu.positionsOf kind) h

theorem setSigns_induct (hind : ∀ cpu i on, P cpu → P (cpu.setIndicator i on).cpu)
    {cpu : Cpu} (v : Int) (h : P cpu) : P (cpu.setSigns v).cpu :=
  setFlag_induct hind .negative (v < 0) (setFlag_induct hind .zero (v == 0) h)

/-- What writing a register, setting an indicator and changing the end latch keep, every edit
keeps. -/
theorem edit_induct (hreg : ∀ cpu i v, P cpu → P (cpu.setRegister i v).cpu)
    (hind : ∀ cpu i on, P cpu → P (cpu.setIndicator i on).cpu)
    (hend : ∀ cpu on, P cpu → P (cpu.setEnded on))
    {cpu : Cpu} (change : Edit) (h : P cpu) : P (cpu.edit change).cpu := by
  cases change with
  | register i v => exact hreg cpu i v h
  | indicator i on => exact hind cpu i on h
  | flag kind on => exact setFlag_induct hind kind on h
  | signs v => exact setSigns_induct hind v h
  | ended on => exact hend cpu on h
  | reset =>
    -- a reset zeroes the registers one by one, then clears the indicators one by one
    have hzeroed := Traced.foldl_andThen_induct (f := fun i cpu => cpu.setRegister i 0)
      (fun i cpu => hreg cpu i 0) (List.range cpu.registers.length) (t := ⟨cpu, []⟩) h
    have hcleared := Traced.foldl_andThen_induct (f := fun i cpu => cpu.setIndicator i false)
      (fun i cpu => hind cpu i false) (List.range cpu.indicators.length) hzeroed
    exact hend _ false hcleared

/-- What every single edit keeps, a sequence of edits keeps. -/
theorem edits_induct (hstep : ∀ change cpu, P cpu → P (cpu.edit change).cpu)
    {cpu : Cpu} (changes : List Edit) (h : P cpu) : P (cpu.edits changes).cpu :=
  Traced.foldl_andThen_induct (f := fun change cpu => cpu.edit change) hstep changes h

end Induction

/-! ## What registers and indicators there are -/

/-- The descriptions of the registers and indicators, without what they hold. -/
def tables (cpu : Cpu) : List Register × List Indicator :=
  (cpu.registers.map (·.toRegister), cpu.indicators.map (·.toIndicator))

section Tables

variable {registers : List Register} {indicators : List Indicator} {cpu : Cpu}

/-- The descriptions stand at the positions of the registers. -/
theorem register_of_tables (h : cpu.tables = (registers, indicators)) (i : Nat) :
    registers[i]? = (cpu.registers[i]?).map (·.toRegister) := by
  have hregisters : cpu.registers.map (·.toRegister) = registers := congrArg Prod.fst h
  rw [← hregisters, List.getElem?_map]

/-- The descriptions stand at the positions of the indicators. -/
theorem indicator_of_tables (h : cpu.tables = (registers, indicators)) (i : Nat) :
    indicators[i]? = (cpu.indicators[i]?).map (·.toIndicator) := by
  have hindicators : cpu.indicators.map (·.toIndicator) = indicators := congrArg Prod.snd h
  rw [← hindicators, List.getElem?_map]

end Tables

/-- A fresh register file has the registers and indicators asked for. -/
@[simp] theorem tables_fresh (registers : List Register) (indicators : List Indicator) :
    (fresh registers indicators).tables = (registers, indicators) := by
  simp [tables, fresh, Function.comp_def]

theorem toRegister_withStatusBit (r : RegisterCell) (rank : Nat) (on : Bool) :
    (r.withStatusBit rank on).toRegister = r.toRegister := by
  rw [RegisterCell.withStatusBit]
  split <;> rfl

/-- Replacing a cell by one with the same description keeps the descriptions. -/
theorem map_set_of_getElem? {α β : Type} {f : α → β} {l : List α} {i : Nat} {a b : α}
    (h : l[i]? = some a) (hf : f b = f a) : (l.set i b).map f = l.map f := by
  apply List.ext_getElem?
  intro j
  rw [List.getElem?_map, List.getElem?_map, List.getElem?_set]
  split
  next hij =>
    obtain ⟨hi, -⟩ := List.getElem?_eq_some_iff.1 h
    rw [if_pos hi, ← hij, h, Option.map_some, Option.map_some, hf]
  next => rfl

@[simp] theorem tables_setIndicator (cpu : Cpu) (i : Nat) (on : Bool) :
    (cpu.setIndicator i on).cpu.tables = cpu.tables := by
  rw [setIndicator]
  split
  · rfl
  next indicator hi =>
    split
    · rfl
    -- registers are rebuilt and one indicator is replaced, with the same descriptions
    · have hreg : (cpu.registers.map (·.withStatusBit indicator.rank on)).map (·.toRegister) =
          cpu.registers.map (·.toRegister) := by
        rw [List.map_map]
        exact List.map_congr_left fun r _ => toRegister_withStatusBit r indicator.rank on
      have hind := map_set_of_getElem? (f := IndicatorCell.toIndicator)
        (b := { indicator with value := on }) hi rfl
      exact Prod.ext hreg hind

@[simp] theorem tables_setSigns (cpu : Cpu) (v : Int) : (cpu.setSigns v).cpu.tables = cpu.tables :=
  setSigns_induct (P := fun c => c.tables = cpu.tables)
    (fun c i on h => by rw [tables_setIndicator, h]) v rfl

@[simp] theorem tables_showStatus (cpu : Cpu) (status : Int) :
    (cpu.showStatus status).cpu.tables = cpu.tables := by
  simp [tables, showStatus, Function.comp_def]

@[simp] theorem tables_setRegister (cpu : Cpu) (i : Nat) (v : Int) :
    (cpu.setRegister i v).cpu.tables = cpu.tables := by
  rw [setRegister]
  -- after the write the register may set indicators, which keeps the tables too
  split
  · rfl
  next register hi =>
    have hwritten : ({ cpu with registers := cpu.registers.set i (register.put v) } : Cpu).tables =
        cpu.tables :=
      Prod.ext (map_set_of_getElem? (b := register.put v) hi rfl) rfl
    dsimp only
    split
    · split <;> simp [hwritten]
    · split <;> simp [hwritten]

/-- No edit changes what registers and indicators there are. -/
@[simp] theorem tables_edit (cpu : Cpu) (change : Edit) :
    (cpu.edit change).cpu.tables = cpu.tables :=
  edit_induct (P := fun c => c.tables = cpu.tables)
    (fun c i v h => by rw [tables_setRegister, h])
    (fun c i on h => by rw [tables_setIndicator, h])
    (fun _ _ h => h) change rfl

@[simp] theorem tables_edits (cpu : Cpu) (changes : List Edit) :
    (cpu.edits changes).cpu.tables = cpu.tables :=
  edits_induct (P := fun c => c.tables = cpu.tables)
    (fun change c h => by rw [tables_edit, h]) changes rfl

/-! ## What a register holds -/

/-- A register that is not a status register does not depend on the indicators. -/
theorem getElem?_registers_setIndicator {cpu : Cpu} {j : Nat} {r : RegisterCell}
    (h : cpu.registers[j]? = some r) (hk : r.kind ≠ .status) (i : Nat) (on : Bool) :
    (cpu.setIndicator i on).cpu.registers[j]? = some r := by
  rw [setIndicator]
  split
  · exact h
  · split
    · exact h
    · simp [h, RegisterCell.withStatusBit, hk]

theorem getElem?_registers_setSigns {cpu : Cpu} {j : Nat} {r : RegisterCell}
    (h : cpu.registers[j]? = some r) (hk : r.kind ≠ .status) (v : Int) :
    (cpu.setSigns v).cpu.registers[j]? = some r :=
  setSigns_induct (P := fun c => c.registers[j]? = some r)
    (fun _ i on hc => getElem?_registers_setIndicator hc hk i on) v h

/-- A register that is not a status register holds what was stored in it last. -/
theorem getElem?_registers_setRegister {cpu : Cpu} {i : Nat} {r : RegisterCell}
    (h : cpu.registers[i]? = some r) (hk : r.kind ≠ .status) (v : Int) :
    (cpu.setRegister i v).cpu.registers[i]? = some (r.put v) := by
  obtain ⟨hi, -⟩ := List.getElem?_eq_some_iff.1 h
  have hset : (cpu.registers.set i (r.put v))[i]? = some (r.put v) := by
    rw [List.getElem?_set_self hi]
  rw [setRegister]
  simp only [h, if_neg hk]
  -- the signs of the value may be shown afterwards
  split
  · have hput : (r.put v).kind ≠ .status := hk
    exact getElem?_registers_setSigns hset hput _
  · exact hset

/-- Writing a register that is no status register and does not update the status changes that
register alone, and tells of nothing else. -/
theorem setRegister_of_manual {cpu : Cpu} {i : Nat} {r : RegisterCell}
    (h : cpu.registers[i]? = some r) (hk : r.kind ≠ .status) (hs : r.status ≠ .auto) (v : Int) :
    cpu.setRegister i v =
      ⟨{ cpu with registers := cpu.registers.set i (r.put v) }, [.register i (r.put v).value]⟩ := by
  rw [setRegister]
  simp only [h, if_neg hk, if_neg hs]

end Cpu

end Breadboard
