import Breadboard.Processor
import Breadboard.Proofs.Cpu

/-!
# A reset forgets the past

Resetting a register file writes its registers one by one and then clears its indicators one by one.
A write may set indicators, which may change status registers that were written before, so the
outcome is not simply zero everywhere. It is the same outcome for all register files with the same
registers and indicators, though (`cpu_reset_congr`): two of them are compared step by step, and
what was written in both agrees (`Settled`). The indicators may differ until a status register is
written, which sets them all.
-/

namespace Breadboard

/-- What every step of a sequence keeps of two register files, the sequence keeps. -/
theorem Traced.foldl_andThen_induct₂ {α : Type} {R : Cpu → Cpu → Prop} {f : α → Cpu → Traced}
    (hstep : ∀ a cpu cpu', R cpu cpu' → R (f a cpu).cpu (f a cpu').cpu) (as : List α)
    {t t' : Traced} (h : R t.cpu t'.cpu) :
    R (as.foldl (fun t a => t.andThen (f a)) t).cpu
      (as.foldl (fun t a => t.andThen (f a)) t').cpu := by
  induction as generalizing t t' with
  | nil => exact h
  | cons a as ih => exact ih (hstep a t.cpu t'.cpu h)

namespace Cpu

variable {cpu cpu' : Cpu}

/-! ## Register files with the same tables -/

theorem map_toRegister_eq (h : cpu.tables = cpu'.tables) :
    cpu.registers.map (·.toRegister) = cpu'.registers.map (·.toRegister) := congrArg Prod.fst h

theorem map_toIndicator_eq (h : cpu.tables = cpu'.tables) :
    cpu.indicators.map (·.toIndicator) = cpu'.indicators.map (·.toIndicator) := congrArg Prod.snd h

theorem toRegister_getElem? (h : cpu.tables = cpu'.tables) (i : Nat) :
    (cpu.registers[i]?).map (·.toRegister) = (cpu'.registers[i]?).map (·.toRegister) := by
  rw [← List.getElem?_map, ← List.getElem?_map, map_toRegister_eq h]

theorem toIndicator_getElem? (h : cpu.tables = cpu'.tables) (i : Nat) :
    (cpu.indicators[i]?).map (·.toIndicator) = (cpu'.indicators[i]?).map (·.toIndicator) := by
  rw [← List.getElem?_map, ← List.getElem?_map, map_toIndicator_eq h]

theorem length_registers_eq (h : cpu.tables = cpu'.tables) :
    cpu.registers.length = cpu'.registers.length := by
  simpa using congrArg List.length (map_toRegister_eq h)

theorem length_indicators_eq (h : cpu.tables = cpu'.tables) :
    cpu.indicators.length = cpu'.indicators.length := by
  simpa using congrArg List.length (map_toIndicator_eq h)

/-- Which indicators are of a kind does not depend on whether they are set. -/
theorem positionsOf_eq (h : cpu.tables = cpu'.tables) (kind : IndicatorKind) :
    cpu.positionsOf kind = cpu'.positionsOf kind := by
  rw [positionsOf, positionsOf, length_indicators_eq h]
  apply List.filter_congr
  intro i _
  have hkind := congrArg (Option.map (·.kind)) (toIndicator_getElem? h i)
  rw [Option.map_map, Option.map_map] at hkind
  exact congrArg (fun k => decide (k = some kind)) hkind

/-! ## Indicators and registers one by one -/

/-- After an indicator was set it has the new value, and the others have the values they had. -/
theorem getElem?_indicators_setIndicator (cpu : Cpu) (i j : Nat) (on : Bool) :
    (cpu.setIndicator i on).cpu.indicators[j]? =
      if j = i then (cpu.indicators[i]?).map fun a => { a with value := on }
      else cpu.indicators[j]? := by
  rw [setIndicator]
  split
  next hnone =>
    split
    next hj => rw [hj, hnone, Option.map_none]
    next => rfl
  next a ha =>
    split
    next hsame =>
      -- nothing changes, since the indicator has the value already
      split
      next hj =>
        subst hj
        rw [ha, Option.map_some, ← hsame]
      next => rfl
    next =>
      obtain ⟨hi, -⟩ := List.getElem?_eq_some_iff.1 ha
      dsimp only
      rw [List.getElem?_set]
      by_cases hj : j = i
      · rw [if_pos hj.symm, if_pos hj, if_pos hi, ha, Option.map_some]
      · rw [if_neg (Ne.symm hj), if_neg hj]

/-- What setting an indicator does to a register depends on that indicator and that register
only. -/
theorem getElem?_registers_setIndicator_congr {i k : Nat} (on : Bool)
    (hi : cpu.indicators[i]? = cpu'.indicators[i]?) (hk : cpu.registers[k]? = cpu'.registers[k]?) :
    (cpu.setIndicator i on).cpu.registers[k]? = (cpu'.setIndicator i on).cpu.registers[k]? := by
  rw [setIndicator, setIndicator, ← hi]
  cases cpu.indicators[i]? with
  | none => exact hk
  | some a =>
    by_cases hsame : a.value = on
    · simpa [hsame] using hk
    · simp [hsame, hk]

/-- Where there is no status register, setting an indicator changes nothing. -/
theorem getElem?_registers_setIndicator_of_forall {k : Nat}
    (hk : ∀ r, cpu.registers[k]? = some r → r.kind ≠ .status) (i : Nat) (on : Bool) :
    (cpu.setIndicator i on).cpu.registers[k]? = cpu.registers[k]? := by
  cases hr : cpu.registers[k]? with
  | none =>
    have hdesc := toRegister_getElem? (tables_setIndicator cpu i on) k
    rwa [hr, Option.map_none, Option.map_eq_none_iff] at hdesc
  | some r => exact getElem?_registers_setIndicator hr (hk r hr) i on

/-! ## What was written agrees -/

/-- The first `k` registers agree. The indicators agree as well, or else no status register is among
those `k` registers, and the first `j` indicators agree. -/
structure Settled (k j : Nat) (cpu cpu' : Cpu) : Prop where
  tables_eq : cpu.tables = cpu'.tables
  registers_eq : ∀ i, i < k → cpu.registers[i]? = cpu'.registers[i]?
  indicators_eq : cpu.indicators = cpu'.indicators ∨
    (∀ i, i < k → ∀ r, cpu.registers[i]? = some r → r.kind ≠ .status) ∧
      ∀ i, i < j → cpu.indicators[i]? = cpu'.indicators[i]?

variable {k j : Nat}

/-- Setting an indicator keeps what agrees, and the indicator that was set agrees afterwards. -/
theorem Settled.setIndicator (h : Settled k j cpu cpu') {j' : Nat} (i : Nat) (on : Bool)
    (hj : j' ≤ j ∨ j' = j + 1 ∧ i = j) :
    Settled k j' (cpu.setIndicator i on).cpu (cpu'.setIndicator i on).cpu := by
  have htables : (cpu.setIndicator i on).cpu.tables = (cpu'.setIndicator i on).cpu.tables := by
    rw [tables_setIndicator, tables_setIndicator, h.tables_eq]
  rcases h.indicators_eq with hall | ⟨hstatus, hsome⟩
  · -- all indicators agree, so both files take the same branch
    have hi : cpu.indicators[i]? = cpu'.indicators[i]? := by rw [hall]
    refine ⟨htables, ?_, Or.inl ?_⟩
    · intro p hp
      exact getElem?_registers_setIndicator_congr on hi (h.registers_eq p hp)
    · apply List.ext_getElem?
      intro p
      rw [getElem?_indicators_setIndicator, getElem?_indicators_setIndicator, hall]
  · -- without a status register the registers do not follow the indicators
    have hkept : ∀ p, p < k →
        (cpu.setIndicator i on).cpu.registers[p]? = cpu.registers[p]? := by
      intro p hp
      exact getElem?_registers_setIndicator_of_forall (hstatus p hp) i on
    have hkept' : ∀ p, p < k →
        (cpu'.setIndicator i on).cpu.registers[p]? = cpu'.registers[p]? := by
      intro p hp
      have hp' := hstatus p hp
      rw [h.registers_eq p hp] at hp'
      exact getElem?_registers_setIndicator_of_forall hp' i on
    refine ⟨htables, ?_, Or.inr ⟨?_, ?_⟩⟩
    · intro p hp
      rw [hkept p hp, hkept' p hp, h.registers_eq p hp]
    · intro p hp r hr
      rw [hkept p hp] at hr
      exact hstatus p hp r hr
    · intro p hp
      rw [getElem?_indicators_setIndicator, getElem?_indicators_setIndicator]
      by_cases hpi : p = i
      · -- the descriptions agree, and so does the value just given
        rw [if_pos hpi, if_pos hpi]
        have hdesc := congrArg
          (Option.map fun d : Indicator => ({ d with value := on } : IndicatorCell))
          (toIndicator_getElem? h.tables_eq i)
        rwa [Option.map_map, Option.map_map] at hdesc
      · rw [if_neg hpi, if_neg hpi]
        apply hsome
        omega

theorem Settled.setFlag (h : Settled k 0 cpu cpu') (kind : IndicatorKind) (on : Bool) :
    Settled k 0 (cpu.setFlag kind on).cpu (cpu'.setFlag kind on).cpu := by
  rw [Cpu.setFlag, Cpu.setFlag, positionsOf_eq h.tables_eq kind]
  exact Traced.foldl_andThen_induct₂ (f := fun i cpu => cpu.setIndicator i on)
    (fun i _ _ hc => hc.setIndicator i on (Or.inl (Nat.le_refl 0))) _ h

theorem Settled.setSigns (h : Settled k 0 cpu cpu') (v : Int) :
    Settled k 0 (cpu.setSigns v).cpu (cpu'.setSigns v).cpu :=
  (h.setFlag .zero (v == 0)).setFlag .negative (v < 0)

/-- One more register agrees, and either it is not a status register or the indicators agree. -/
theorem Settled.succ (h : Settled k 0 cpu cpu') (hk : cpu.registers[k]? = cpu'.registers[k]?)
    (hstatus : cpu.indicators = cpu'.indicators ∨
      ∀ r, cpu.registers[k]? = some r → r.kind ≠ .status) : Settled (k + 1) 0 cpu cpu' := by
  refine ⟨h.tables_eq, ?_, ?_⟩
  · intro i hi
    rcases Nat.lt_succ_iff_lt_or_eq.1 hi with hlt | rfl
    · exact h.registers_eq i hlt
    · exact hk
  · rcases h.indicators_eq with hall | ⟨hbefore, -⟩
    · exact Or.inl hall
    · refine hstatus.imp_right fun hnew => ⟨?_, by omega⟩
      intro i hi
      rcases Nat.lt_succ_iff_lt_or_eq.1 hi with hlt | rfl
      · exact hbefore i hlt
      · exact hnew

/-- What a register holds after a write depends on its description only. -/
theorem put_congr {r r' : RegisterCell} (h : r.toRegister = r'.toRegister) (v : Int) :
    r.put v = r'.put v := by
  have hput : ∀ q : RegisterCell,
      q.put v = ⟨q.toRegister, q.toRegister.format.fit v q.toRegister.size⟩ := fun _ => rfl
  rw [hput, hput, h]

/-- Setting the indicators from one status makes all of them agree. -/
theorem indicators_showStatus_congr (h : cpu.tables = cpu'.tables) (status : Int) :
    (cpu.showStatus status).cpu.indicators = (cpu'.showStatus status).cpu.indicators := by
  have hshow : ∀ c : Cpu, (c.showStatus status).cpu.indicators =
      (c.indicators.map (·.toIndicator)).map fun d =>
        ({ d with value := Word.bit status d.rank } : IndicatorCell) := by
    intro c
    rw [List.map_map]
    rfl
  rw [hshow, hshow, map_toIndicator_eq h]

theorem Settled.showStatus (h : Settled k 0 cpu cpu') (status : Int) :
    Settled k 0 (cpu.showStatus status).cpu (cpu'.showStatus status).cpu := by
  refine ⟨?_, h.registers_eq, Or.inl (indicators_showStatus_congr h.tables_eq status)⟩
  rw [tables_showStatus, tables_showStatus, h.tables_eq]

/-- The file after `stored` was put in place of register `k`, and after the indicators were set from
it if it is a status register. -/
def stored (cpu : Cpu) (k : Nat) (stored : RegisterCell) : Cpu :=
  let written := { cpu with registers := cpu.registers.set k stored }
  if stored.kind = .status then (written.showStatus stored.value).cpu else written

/-- A write stores, and then shows the signs if the register asks for it. -/
theorem cpu_setRegister {r : RegisterCell} (hr : cpu.registers[k]? = some r) (v : Int) :
    (cpu.setRegister k v).cpu =
      if r.status = .auto then ((cpu.stored k (r.put v)).setSigns (r.put v).value).cpu
      else cpu.stored k (r.put v) := by
  have hkind : (r.put v).kind = r.kind := rfl
  rw [Cpu.setRegister, hr, stored, hkind]
  dsimp only
  split
  · split <;> rfl
  · split <;> rfl

/-- The cell just stored agrees. If it is that of a status register, all indicators agree from then
on. -/
theorem Settled.stored (h : Settled k 0 cpu cpu') {r r' : RegisterCell}
    (hr : cpu.registers[k]? = some r) (hr' : cpu'.registers[k]? = some r')
    (hsame : r.toRegister = r'.toRegister) (v : Int) :
    Settled (k + 1) 0 (cpu.stored k (r.put v)) (cpu'.stored k (r.put v)) := by
  obtain ⟨hk, -⟩ := List.getElem?_eq_some_iff.1 hr
  obtain ⟨hk', -⟩ := List.getElem?_eq_some_iff.1 hr'
  -- the write itself keeps what agrees before position `k`
  have hwritten : Settled k 0 { cpu with registers := cpu.registers.set k (r.put v) }
      { cpu' with registers := cpu'.registers.set k (r.put v) } := by
    refine ⟨?_, ?_, ?_⟩
    · have hleft := map_set_of_getElem? (f := RegisterCell.toRegister) (b := r.put v) hr rfl
      have hright := map_set_of_getElem? (f := RegisterCell.toRegister) (b := r.put v) hr' hsame
      rw [tables, tables, hleft, hright]
      exact h.tables_eq
    · intro i hi
      rw [List.getElem?_set_ne (by omega), List.getElem?_set_ne (by omega)]
      exact h.registers_eq i hi
    · rcases h.indicators_eq with hall | ⟨hstatus, hsome⟩
      · exact Or.inl hall
      · refine Or.inr ⟨?_, hsome⟩
        intro i hi q hq
        rw [List.getElem?_set_ne (by omega)] at hq
        exact hstatus i hi q hq
  have hcell : (cpu.registers.set k (r.put v))[k]? = (cpu'.registers.set k (r.put v))[k]? := by
    rw [List.getElem?_set_self hk, List.getElem?_set_self hk']
  rw [Cpu.stored, Cpu.stored]
  split
  next =>
    have hall := indicators_showStatus_congr hwritten.tables_eq (r.put v).value
    exact (hwritten.showStatus (r.put v).value).succ hcell (Or.inl hall)
  next hother =>
    refine hwritten.succ hcell (Or.inr fun q hq => ?_)
    rw [List.getElem?_set_self hk] at hq
    obtain rfl := Option.some.inj hq
    exact hother

/-- A register that was just written agrees. -/
theorem Settled.setRegister (h : Settled k 0 cpu cpu') (v : Int) :
    Settled (k + 1) 0 (cpu.setRegister k v).cpu (cpu'.setRegister k v).cpu := by
  have hdesc := toRegister_getElem? h.tables_eq k
  cases hr : cpu.registers[k]? with
  | none =>
    rw [hr, Option.map_none, eq_comm, Option.map_eq_none_iff] at hdesc
    rw [Cpu.setRegister, Cpu.setRegister, hr, hdesc]
    apply h.succ
    · rw [hr, hdesc]
    · exact Or.inr fun r hsome => by simp [hr] at hsome
  | some r =>
    rw [hr, Option.map_some, eq_comm, Option.map_eq_some_iff] at hdesc
    obtain ⟨r', hr', hsame⟩ := hdesc
    have hauto : r'.status = r.status := congrArg Register.status hsame
    have hstored := h.stored hr hr' hsame.symm v
    rw [cpu_setRegister hr, cpu_setRegister hr', put_congr hsame, hauto]
    split
    · exact hstored.setSigns _
    · exact hstored

/-! ## Resets -/

/-- After the first `n` registers were written, they agree. -/
theorem Settled.setRegisters (h : cpu.tables = cpu'.tables) (n : Nat) (v : Int) :
    Settled n 0
      ((List.range n).foldl (fun t i => t.andThen (·.setRegister i v)) (⟨cpu, []⟩ : Traced)).cpu
      ((List.range n).foldl (fun t i => t.andThen (·.setRegister i v))
        (⟨cpu', []⟩ : Traced)).cpu := by
  induction n with
  | zero => exact ⟨h, by omega, Or.inr ⟨by omega, by omega⟩⟩
  | succ n ih =>
    rw [List.range_succ, List.foldl_append, List.foldl_append]
    exact ih.setRegister v

/-- After the first `n` indicators were set as well, they agree unless all indicators do. -/
theorem Settled.setIndicators {t t' : Traced} (h : Settled k 0 t.cpu t'.cpu) (n : Nat) (on : Bool) :
    Settled k n
      ((List.range n).foldl (fun t i => t.andThen (·.setIndicator i on)) t).cpu
      ((List.range n).foldl (fun t i => t.andThen (·.setIndicator i on)) t').cpu := by
  induction n with
  | zero => exact h
  | succ n ih =>
    rw [List.range_succ, List.foldl_append, List.foldl_append]
    exact ih.setIndicator n on (Or.inr ⟨rfl, rfl⟩)

/-- Where all registers and all indicators were written, nothing is left to differ. -/
theorem Settled.eq (h : Settled k j cpu cpu') (hk : cpu.registers.length ≤ k)
    (hj : cpu.indicators.length ≤ j) :
    cpu.registers = cpu'.registers ∧ cpu.indicators = cpu'.indicators := by
  have hregisters := length_registers_eq h.tables_eq
  have hindicators := length_indicators_eq h.tables_eq
  constructor
  · apply List.ext_getElem?
    intro i
    rcases Nat.lt_or_ge i k with hi | hi
    · exact h.registers_eq i hi
    · rw [List.getElem?_eq_none (by omega), List.getElem?_eq_none (by omega)]
  · rcases h.indicators_eq with hall | ⟨-, hsome⟩
    · exact hall
    · apply List.ext_getElem?
      intro i
      rcases Nat.lt_or_ge i j with hi | hi
      · exact hsome i hi
      · rw [List.getElem?_eq_none (by omega), List.getElem?_eq_none (by omega)]

/-- A reset leaves the same register file whatever the registers and indicators held. -/
theorem cpu_reset_congr (h : cpu.tables = cpu'.tables) : cpu.reset.cpu = cpu'.reset.cpu := by
  have hzeroed := Settled.setRegisters h cpu.registers.length 0
  have hcleared := hzeroed.setIndicators cpu.indicators.length false
  have hreset : Settled cpu.registers.length cpu.indicators.length cpu.reset.cpu
      cpu'.reset.cpu := by
    rw [Cpu.reset, Cpu.reset, ← length_registers_eq h, ← length_indicators_eq h]
    exact ⟨hcleared.tables_eq, hcleared.registers_eq, hcleared.indicators_eq⟩
  -- a reset keeps the tables, so no register and no indicator was left out
  have htables : cpu.reset.cpu.tables = cpu.tables := tables_edit cpu .reset
  obtain ⟨hregisters, hindicators⟩ := hreset.eq (Nat.le_of_eq (length_registers_eq htables))
    (Nat.le_of_eq (length_indicators_eq htables))
  calc cpu.reset.cpu = ⟨cpu.reset.cpu.registers, cpu.reset.cpu.indicators, false⟩ := rfl
    _ = ⟨cpu'.reset.cpu.registers, cpu'.reset.cpu.indicators, false⟩ := by
      rw [hregisters, hindicators]
    _ = cpu'.reset.cpu := rfl

end Cpu

/-! ## The processor -/

namespace Architecture

variable (arch : Architecture) {m m' : Machine}

@[simp] theorem tables_reset (m : Machine) : (arch.reset m).cpu.tables = m.cpu.tables := by
  have hcpu : (arch.reset m).cpu = ((m.cpu.edit .reset).cpu.edits arch.onReset).cpu := rfl
  rw [hcpu, Cpu.tables_edits, Cpu.tables_edit]

/-- A reset of the processor forgets the register file, and the changes that the architecture asks
for are made to the same file every time. -/
theorem cpu_reset_eq_of_tables (h : m.cpu.tables = m'.cpu.tables) :
    (arch.reset m).cpu = (arch.reset m').cpu := by
  have hcpu : ∀ m : Machine, (arch.reset m).cpu = (m.cpu.reset.cpu.edits arch.onReset).cpu :=
    fun _ => rfl
  rw [hcpu, hcpu, Cpu.cpu_reset_congr h]

end Architecture

end Breadboard
