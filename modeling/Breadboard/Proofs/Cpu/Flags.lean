import Breadboard.Proofs.Cpu.Frame

/-!
# What the indicators show after an edit

Setting the indicators of a kind sets all of them and no others (`indicators_setFlag`). So a look at
an indicator of that kind, if there is one, finds what was set (`flag_setFlag_self`), and a look at
another kind finds what was there before (`flag_setFlag_of_ne`). A register that updates the status
shows the sign of what it stores on the zero and negative indicators (`flag_setRegister_zero`,
`flag_setRegister_negative`) and leaves the others alone (`flag_setRegister_of_ne`).
-/

namespace Breadboard.Cpu

variable {cpu : Cpu} {kind kind' : IndicatorKind}

/-! ## Setting the indicators of a kind -/

/-- All indicators of the kind are set, and no others. -/
theorem indicators_setFlag (cpu : Cpu) (kind : IndicatorKind) (on : Bool) :
    (cpu.setFlag kind on).cpu.indicators =
      cpu.indicators.map fun a => if a.kind = kind then { a with value := on } else a := by
  apply List.ext_getElem?
  intro j
  rw [setFlag, getElem?_indicators_foldl, List.getElem?_map]
  have hposition : j ∈ cpu.positionsOf kind ↔ (cpu.indicators[j]?).map (·.kind) = some kind := by
    have htables : cpu.tables = (cpu.tables.1, cpu.tables.2) := rfl
    rw [mem_positionsOf htables, KindAt, tables, List.getElem?_map, Option.map_map]
    rfl
  cases hj : cpu.indicators[j]? with
  | none => simp
  | some a =>
    rw [hj] at hposition
    simp only [hposition, Option.map_some, Option.some.injEq]
    split <;> rfl

/-- Some indicator is of the kind. -/
def HasKind (cpu : Cpu) (kind : IndicatorKind) : Prop := ∃ d ∈ cpu.tables.2, d.kind = kind

theorem flag_setFlag_self (h : cpu.HasKind kind) (on : Bool) :
    (cpu.setFlag kind on).cpu.flag kind = on := by
  obtain ⟨d, hd, hkind⟩ := h
  obtain ⟨a, ha, rfl⟩ := List.mem_map.1 hd
  rw [flag, indicators_setFlag]
  cases hfind : List.find? (·.kind = kind) (cpu.indicators.map fun a =>
      if a.kind = kind then { a with value := on } else a) with
  | none =>
    -- the indicator of the kind is still there
    have hnone := List.find?_eq_none.1 hfind _ (List.mem_map_of_mem ha)
    simp [hkind] at hnone
  | some b =>
    obtain ⟨a', -, rfl⟩ := List.mem_map.1 (List.mem_of_find?_eq_some hfind)
    have hb := List.find?_some hfind
    by_cases ha' : a'.kind = kind
    · simp [ha']
    · simp [ha'] at hb

theorem flag_setFlag_of_ne (h : kind' ≠ kind) (on : Bool) :
    (cpu.setFlag kind on).cpu.flag kind' = cpu.flag kind' := by
  have hkept (a : IndicatorCell) :
      decide ((if a.kind = kind then { a with value := on } else a).kind = kind') =
        decide (a.kind = kind') := by
    split <;> rfl
  rw [flag, flag, indicators_setFlag, List.find?_map]
  simp only [Function.comp_def, hkept]
  cases hfind : cpu.indicators.find? (·.kind = kind') with
  | none => rfl
  | some a =>
    have ha : a.kind = kind' := by simpa using List.find?_some hfind
    have hne : a.kind ≠ kind := ha ▸ h
    simp only [Option.map_some, if_neg hne]

/-! ## Showing the sign of a number -/

theorem HasKind.setFlag (h : cpu.HasKind kind) (kind' : IndicatorKind) (on : Bool) :
    (cpu.setFlag kind' on).cpu.HasKind kind := by
  have htables : (cpu.setFlag kind' on).cpu.tables = cpu.tables := tables_edit cpu (.flag kind' on)
  rwa [HasKind, htables]

theorem flag_setSigns_zero (h : cpu.HasKind .zero) (v : Int) :
    (cpu.setSigns v).cpu.flag .zero = (v == 0) :=
  (flag_setFlag_of_ne (by decide) _).trans (flag_setFlag_self h _)

theorem flag_setSigns_negative (h : cpu.HasKind .negative) (v : Int) :
    (cpu.setSigns v).cpu.flag .negative = decide (v < 0) :=
  flag_setFlag_self (h.setFlag .zero _) _

theorem flag_setSigns_of_ne (hzero : kind ≠ .zero) (hnegative : kind ≠ .negative) (v : Int) :
    (cpu.setSigns v).cpu.flag kind = cpu.flag kind :=
  (flag_setFlag_of_ne hnegative _).trans (flag_setFlag_of_ne hzero _)

section Auto

variable {i : Nat} {r : RegisterCell} (hr : cpu.registers[i]? = some r) (hk : r.kind ≠ .status)
  (hs : r.status = .auto) (v : Int)
include hr hk hs

/-- A register that updates the status is stored, and then the sign of what it stores is shown. -/
theorem cpu_setRegister_of_auto : (cpu.setRegister i v).cpu =
    (setSigns { cpu with registers := cpu.registers.set i (r.put v) } (r.put v).value).cpu := by
  rw [setRegister]
  simp only [hr, if_neg hk, if_pos hs]
  rfl

theorem flag_setRegister_zero (h : cpu.HasKind .zero) :
    (cpu.setRegister i v).cpu.flag .zero = ((r.put v).value == 0) := by
  have hkept : HasKind { cpu with registers := cpu.registers.set i (r.put v) } .zero := h
  rw [cpu_setRegister_of_auto hr hk hs]
  exact flag_setSigns_zero hkept _

theorem flag_setRegister_negative (h : cpu.HasKind .negative) :
    (cpu.setRegister i v).cpu.flag .negative = decide ((r.put v).value < 0) := by
  have hkept : HasKind { cpu with registers := cpu.registers.set i (r.put v) } .negative := h
  rw [cpu_setRegister_of_auto hr hk hs]
  exact flag_setSigns_negative hkept _

theorem flag_setRegister_of_ne (hzero : kind ≠ .zero) (hnegative : kind ≠ .negative) :
    (cpu.setRegister i v).cpu.flag kind = cpu.flag kind := by
  rw [cpu_setRegister_of_auto hr hk hs]
  exact flag_setSigns_of_ne hzero hnegative _

end Auto

end Breadboard.Cpu
