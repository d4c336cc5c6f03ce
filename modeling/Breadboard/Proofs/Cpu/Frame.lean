import Breadboard.Proofs.Cpu.Bits
import Breadboard.Proofs.Cpu.Events

/-!
# What an edit leaves alone

Edits reach each other's registers and indicators: a status register shows on the indicators, and
some registers set zero and negative. Still every edit has its limits. A register that is not a
status register is only changed by writing it or by a reset (`getElem?_registers_edit`). An
indicator that is neither zero nor negative is only changed by setting it, by writing a status
register or by a reset (`getElem?_indicators_edit`). The end latch is only changed by setting it or
by a reset (`ended_edit`).
-/

namespace Breadboard.Cpu

variable {cpu : Cpu}

/-! ## Registers -/

/-- The edit writes the register at position `k`. -/
def Edit.Writes (k : Nat) : Edit → Prop
  | .register i _ => i = k
  | .reset => True
  | _ => False

section Registers

variable {k : Nat} {r : RegisterCell}

/-- Writing another register leaves a register alone that is not a status register. -/
theorem getElem?_registers_setRegister_of_ne (h : cpu.registers[k]? = some r)
    (hk : r.kind ≠ .status) {i : Nat} (hi : i ≠ k) (v : Int) :
    (cpu.setRegister i v).cpu.registers[k]? = some r := by
  rw [setRegister]
  split
  · exact h
  next written _ =>
    have hset : (cpu.registers.set i (written.put v))[k]? = some r := by
      rwa [List.getElem?_set_ne hi]
    -- showing the status moves indicators only
    have hshown : (if written.kind = .status then
        (cpu.writeCell i (written.put v)).andThen (·.showStatus (written.put v).value)
        else cpu.writeCell i (written.put v)).cpu.registers[k]? = some r := by
      split
      · exact hset
      · exact hset
    dsimp only
    split
    · exact getElem?_registers_setSigns hshown hk _
    · exact hshown

/-- A register that is not a status register is only changed by writing it. -/
theorem getElem?_registers_edit (h : cpu.registers[k]? = some r) (hk : r.kind ≠ .status)
    {change : Edit} (hchange : ¬ change.Writes k) :
    (cpu.edit change).cpu.registers[k]? = some r := by
  cases change with
  | register i v => exact getElem?_registers_setRegister_of_ne h hk hchange v
  | indicator i on => exact getElem?_registers_setIndicator h hk i on
  | flag kind on =>
    exact setFlag_induct (P := fun c => c.registers[k]? = some r)
      (fun _ i on hc => getElem?_registers_setIndicator hc hk i on) kind on h
  | signs v => exact getElem?_registers_setSigns h hk v
  | ended on => exact h
  | reset => exact (hchange trivial).elim

end Registers

/-! ## Indicators -/

/-- The edit sets the indicators of a kind, other than by showing the sign of a number. -/
def Edit.Sets (registers : List Register) (kind : IndicatorKind) : Edit → Prop
  | .register i _ => StatusAt registers i
  | .indicator _ _ => True
  | .flag kind' _ => kind' = kind
  | .reset => True
  | _ => False

section Indicators

variable {j : Nat} {a : IndicatorCell}

/-- Setting indicators one after another sets these and no others. -/
theorem getElem?_indicators_foldl (ps : List Nat) (on : Bool) (t : Traced) (j : Nat) :
    (ps.foldl (fun t i => t.andThen (·.setIndicator i on)) t).cpu.indicators[j]? =
      if j ∈ ps then (t.cpu.indicators[j]?).map fun a => { a with value := on }
      else t.cpu.indicators[j]? := by
  induction ps generalizing t with
  | nil => rfl
  | cons p ps ih =>
    rw [List.foldl_cons, ih, Traced.cpu_andThen, getElem?_indicators_setIndicator]
    by_cases hp : j = p
    · subst hp
      by_cases hps : j ∈ ps
      · simp [hps, Function.comp_def]
      · simp [hps]
    · simp [hp]

theorem getElem?_indicators_setFlag (h : cpu.indicators[j]? = some a) {kind : IndicatorKind}
    (hkind : a.kind ≠ kind) (on : Bool) : (cpu.setFlag kind on).cpu.indicators[j]? = some a := by
  have hnot : j ∉ cpu.positionsOf kind := by
    intro hmem
    obtain ⟨-, hat⟩ := List.mem_filter.1 hmem
    rw [decide_eq_true_eq, h] at hat
    exact hkind (Option.some.inj hat)
  rw [setFlag, getElem?_indicators_foldl, if_neg hnot]
  exact h

theorem getElem?_indicators_setSigns (h : cpu.indicators[j]? = some a) (hzero : a.kind ≠ .zero)
    (hnegative : a.kind ≠ .negative) (v : Int) :
    (cpu.setSigns v).cpu.indicators[j]? = some a :=
  getElem?_indicators_setFlag (getElem?_indicators_setFlag h hzero (v == 0)) hnegative (v < 0)

/-- Writing a register that is not a status register shows at most the sign of the number. -/
theorem getElem?_indicators_setRegister (h : cpu.indicators[j]? = some a) (hzero : a.kind ≠ .zero)
    (hnegative : a.kind ≠ .negative) {i : Nat}
    (hi : ∀ r, cpu.registers[i]? = some r → r.kind ≠ .status) (v : Int) :
    (cpu.setRegister i v).cpu.indicators[j]? = some a := by
  rw [setRegister]
  split
  · exact h
  next r hr =>
    dsimp only
    rw [if_neg (hi r hr)]
    split
    · rw [Traced.cpu_andThen]
      apply getElem?_indicators_setSigns _ hzero hnegative
      exact h
    · exact h

/-- An indicator that is neither zero nor negative is only changed by setting it. -/
theorem getElem?_indicators_edit {registers : List Register} {indicators : List Indicator}
    (ht : cpu.tables = (registers, indicators)) (h : cpu.indicators[j]? = some a)
    (hzero : a.kind ≠ .zero) (hnegative : a.kind ≠ .negative) {change : Edit}
    (hchange : ¬ change.Sets registers a.kind) :
    (cpu.edit change).cpu.indicators[j]? = some a := by
  cases change with
  | register i v =>
    apply getElem?_indicators_setRegister h hzero hnegative
    intro r hr hstatus
    exact hchange ((statusAt_iff ht hr).2 hstatus)
  | indicator i on => exact (hchange trivial).elim
  | flag kind on => exact getElem?_indicators_setFlag h (fun heq => hchange heq.symm) on
  | signs v => exact getElem?_indicators_setSigns h hzero hnegative v
  | ended on => exact h
  | reset => exact (hchange trivial).elim

end Indicators

/-! ## The end latch -/

/-- The edit sets the end latch. -/
def Edit.Latches : Edit → Prop
  | .ended _ => True
  | .reset => True
  | _ => False

theorem ended_setIndicator (cpu : Cpu) (i : Nat) (on : Bool) :
    (cpu.setIndicator i on).cpu.ended = cpu.ended := by
  rw [setIndicator]
  split
  · rfl
  · split <;> rfl

theorem ended_setFlag (cpu : Cpu) (kind : IndicatorKind) (on : Bool) :
    (cpu.setFlag kind on).cpu.ended = cpu.ended :=
  setFlag_induct (P := fun c => c.ended = cpu.ended)
    (fun c i on hc => (ended_setIndicator c i on).trans hc) kind on rfl

theorem ended_setSigns (cpu : Cpu) (v : Int) : (cpu.setSigns v).cpu.ended = cpu.ended :=
  (ended_setFlag _ .negative (v < 0)).trans (ended_setFlag cpu .zero (v == 0))

theorem ended_setRegister (cpu : Cpu) (i : Nat) (v : Int) :
    (cpu.setRegister i v).cpu.ended = cpu.ended := by
  rw [setRegister]
  split
  · rfl
  · dsimp only
    split
    · split
      · exact ended_setSigns _ _
      · exact ended_setSigns _ _
    · split <;> rfl

/-- The end latch is only changed by setting it. -/
theorem ended_edit {change : Edit} (hchange : ¬ change.Latches) :
    (cpu.edit change).cpu.ended = cpu.ended := by
  cases change with
  | register i v => exact ended_setRegister cpu i v
  | indicator i on => exact ended_setIndicator cpu i on
  | flag kind on => exact ended_setFlag cpu kind on
  | signs v => exact ended_setSigns cpu v
  | ended on => exact (hchange trivial).elim
  | reset => exact (hchange trivial).elim

end Breadboard.Cpu
