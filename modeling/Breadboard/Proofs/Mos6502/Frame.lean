import Breadboard.Proofs.Mos6502.Step

/-!
# What a step of the 6502 leaves alone

A step that succeeds changes little besides what its instruction is for. Memory changes at the
effective address, or where the stack is, or not at all (`written_of_behaviour`). The stack pointer,
the end latch and the indicators that tell of no result change under a few instructions only:
although a result that goes to a register also sets indicators, and an indicator that is set also
changes the status register, neither of them reaches these. `Frame` lists all this, and
`frame_of_step` says that every step keeps to it.
-/

namespace Breadboard.Mos6502

open Breadboard.Action

variable {e : Entry} {operand : Option Operand} {a : Addressing} {o : Operand} {m m' : Machine}

/-! ## The register file -/

section Edits

variable {op : Operation} {change : Cpu.Edit}

theorem not_writes_of_mayEdit (h : op.movesStack = false) (hchange : op.MayEdit change) :
    ¬ change.Writes sp := by
  cases change with
  | register i v =>
    intro hi
    rw [hchange.1 hi] at h
    contradiction
  | reset => exact hchange.elim
  | _ => exact id

theorem not_latches_of_mayEdit (h : op ≠ .finish) (hchange : op.MayEdit change) :
    ¬ change.Latches := by
  cases change with
  | ended on => exact fun _ => h hchange
  | reset => exact hchange.elim
  | _ => exact id

/-- The status register is the only one of its kind. -/
theorem eq_psr_of_statusAt {i : Nat} (h : Cpu.StatusAt registers i) : i = psr := by
  have hall : ∀ i < registers.length, Cpu.StatusAt registers i → i = psr := by decide
  exact hall i h.lt h

theorem not_sets_of_mayEdit (h : op.setsModes = false) {kind : IndicatorKind}
    (hkind : kind.isMode = true) (hchange : op.MayEdit change) :
    ¬ change.Sets registers kind := by
  intro hsets
  have hmodes : op.setsModes = true := by
    cases change with
    | register i v => exact hchange.2 (eq_psr_of_statusAt hsets)
    | indicator i on => exact hchange
    | flag kind' on =>
      obtain rfl : kind' = kind := hsets
      exact hchange hkind
    | reset => exact hchange.elim
    | signs v => exact hsets.elim
    | ended on => exact hsets.elim
  rw [h] at hmodes
  contradiction

end Edits

section Behaviour

variable {r : Except ExecError Unit} (hrun : (e.behaviour operand).run m = (r, m'))
include hrun

/-- What the effects of an operation keep, its behaviour keeps. -/
theorem kept_of_behaviour {P : Machine → Prop}
    (hedit : ∀ {m} change, e.operation.MayEdit change → P m → P (m.edit change))
    (hstore : ∀ {m start bytes}, e.operation.target ≠ .nothing → P m → P (m.store start bytes))
    (hm : P m) : P m' := by
  have hkept := (within_behaviour e operand).run hedit hstore hm
  rwa [hrun] at hkept

theorem size_of_behaviour : m'.memory.size = m.memory.size :=
  kept_of_behaviour (P := fun m' => m'.memory.size = m.memory.size) hrun (fun _ _ hsize => hsize)
    (fun _ hsize => (Memory.size_overlay _ _ _).trans hsize) rfl

theorem memory_of_target_nothing (h : e.operation.target = .nothing) : m'.memory = m.memory :=
  kept_of_behaviour (P := fun m' => m'.memory = m.memory) hrun (fun _ _ hmemory => hmemory)
    (fun hstores _ => (hstores h).elim) rfl

theorem ended_of_behaviour (h : e.operation ≠ .finish) : m'.cpu.ended = m.cpu.ended :=
  kept_of_behaviour (P := fun m' => m'.cpu.ended = m.cpu.ended) hrun
    (fun _ hchange hended => (Cpu.ended_edit (not_latches_of_mayEdit h hchange)).trans hended)
    (fun _ hended => hended) rfl

variable (htables : m.cpu.tables = (registers, indicators))
include htables

theorem register_sp_of_behaviour (h : e.operation.movesStack = false) :
    m'.cpu.register sp = m.cpu.register sp := by
  have hkept := register_of_within htables rfl (by decide)
    ((within_behaviour e operand).mono (fun _ => not_writes_of_mayEdit h) id)
  rwa [hrun] at hkept

theorem indicator_of_behaviour (h : e.operation.setsModes = false) {j : Nat} {light : IndicatorCell}
    (hlight : m.cpu.indicators[j]? = some light) (hkind : light.kind.isMode = true) :
    m'.cpu.indicators[j]? = some light := by
  have hzero : light.kind ≠ .zero := by
    intro heq
    simp [heq, IndicatorKind.isMode] at hkind
  have hnegative : light.kind ≠ .negative := by
    intro heq
    simp [heq, IndicatorKind.isMode] at hkind
  -- the tables have to stay too: they say which register is the status register
  have hkept : m'.cpu.tables = (registers, indicators) ∧ m'.cpu.indicators[j]? = some light :=
    kept_of_behaviour (P := fun m' => m'.cpu.tables = (registers, indicators) ∧
      m'.cpu.indicators[j]? = some light) hrun
      (fun change hchange ⟨ht, hc⟩ => ⟨(Cpu.tables_edit _ change).trans ht,
        Cpu.getElem?_indicators_edit ht hc hzero hnegative (not_sets_of_mayEdit h hkind hchange)⟩)
      (fun _ hc => hc) ⟨htables, hlight⟩
  exact hkept.2

end Behaviour

/-! ## Memory -/

/-- How memory changes from `m` to `m'` under an instruction that succeeds. -/
def Target.Written (a : Addressing) (operand : Option Operand) (m m' : Machine) : Target → Prop
  | .nothing => m'.memory = m.memory
  | .operand => (a = .accumulator ∧ m'.memory = m.memory) ∨ a ≠ .accumulator ∧
      ∃ o address v, operand = some o ∧ (effectiveAddress a o).run m = (.ok address, m) ∧
        m'.memory = m.memory.overlay address.toNat (Word.toBytes v 1)
  | .top => ∃ v, 0 ≤ m.cpu.register sp ∧
      m'.memory = m.memory.overlay (m.cpu.register sp).toNat (Word.toBytes v 1)
  | .link => ∃ high low, 0 ≤ m.cpu.register sp ∧
      m'.memory = (m.memory.overlay (m.cpu.register sp).toNat (Word.toBytes high 1)).overlay
        (Word.unsigned (m.cpu.register sp - 1) 2).toNat (Word.toBytes low 1)

/-- It does not matter to what was written where the program counter was. -/
theorem Target.Written.congr {t : Target} {m₁ : Machine} (h : t.Written a operand m₁ m')
    (hsame : SameOperands m m₁) (hpointer : m₁.cpu.register sp = m.cpu.register sp) :
    t.Written a operand m m' := by
  have hmemory := hsame.memory
  cases t with
  | nothing => exact Eq.trans h hmemory
  | operand =>
    obtain ⟨ha, hkept⟩ | ⟨ha, o, address, v, ho, haddress, hput⟩ := h
    · exact .inl ⟨ha, hkept.trans hmemory⟩
    · rw [hmemory] at hput
      exact .inr ⟨ha, o, address, v, ho, run_effectiveAddress_congr hsame.symm haddress, hput⟩
  | top =>
    obtain ⟨v, hlow, hput⟩ := h
    rw [hpointer] at hlow hput
    rw [hmemory] at hput
    exact ⟨v, hlow, hput⟩
  | link =>
    obtain ⟨high, low, hlow, hput⟩ := h
    rw [hpointer] at hlow hput
    rw [hmemory] at hput
    exact ⟨high, low, hlow, hput⟩

/-- An operand is written where it would be found in any machine that agrees on where it is. -/
theorem written_of_writeOperand {m₁ : Machine} (ha : a.isWritable = true)
    (hsame : SameOperands m m₁) {v : Int} (hrun : (writeOperand a o v).run m₁ = (.ok (), m')) :
    Target.operand.Written a (some o) m m' := by
  rcases Addressing.isWritable_iff.1 ha with rfl | hmemory
  · obtain ⟨-, rfl⟩ := Prod.mk.inj hrun
    exact .inl ⟨rfl, hsame.memory⟩
  · obtain ⟨address, haddress, rfl⟩ := exists_store_of_writeOperand hmemory hrun
    have haccumulator : a ≠ .accumulator := by
      rintro rfl
      contradiction
    refine .inr ⟨haccumulator, o, address, v, rfl,
      run_effectiveAddress_congr hsame.symm haddress, ?_⟩
    rw [Machine.memory_store, hsame.memory]

/-- A push that succeeds writes the cell at the stack pointer. -/
theorem eq_of_run_push {v : Int} (hrun : (push v).run m = (.ok (), m')) :
    0 ≤ m.cpu.register sp ∧ m' = (m.store (m.cpu.register sp).toNat (Word.toBytes v 1)).edit
      (.register sp (m.cpu.register sp - 1)) := by
  rw [push_eq, Action.run] at hrun
  by_cases hin : m.memory.Contains (m.cpu.register sp) 1
  · rw [run_store_of_contains hin] at hrun
    exact ⟨hin.1, (Prod.mk.inj hrun).2.symm⟩
  · rw [run_store_of_not_contains hin] at hrun
    simp at hrun

/-- The second push of a call goes where the first one left the stack pointer. -/
theorem written_of_callFrom (htables : m.cpu.tables = (registers, indicators)) {link target : Int}
    (hrun : (callFrom link target).run m = (.ok (), m')) :
    Target.link.Written a operand m m' := by
  obtain ⟨u₁, m₁, hhigh, hrest⟩ := run_bind_eq_ok_iff.1 hrun
  obtain ⟨u₂, m₂, hlow, hgo⟩ := run_bind_eq_ok_iff.1 hrest
  obtain ⟨hfits, rfl⟩ := eq_of_run_push hhigh
  obtain ⟨-, rfl⟩ := eq_of_run_push hlow
  obtain ⟨-, rfl⟩ := Prod.mk.inj hgo
  refine ⟨link / 256, link, hfits, ?_⟩
  rw [← register_sp_setRegister htables (m.cpu.register sp - 1)]
  rfl

theorem target_of_pulls {op : Operation} (h : 0 < op.pulls) : op.target = .nothing := by
  cases op with
  | ret | returnFromInterrupt | pullAccumulator | pullStatus => rfl
  | _ => contradiction

theorem Course.written {x : Action Unit} (h : Course e operand x)
    (htables : m.cpu.tables = (registers, indicators)) (hwrites : e.operation.target ≠ .nothing)
    (hrun : x.run m = (.ok (), m')) : e.operation.target.Written e.addressing operand m m' := by
  cases h with
  | plain htarget => exact (hwrites htarget).elim
  | read htarget => exact (hwrites htarget).elim
  | update htarget ha hf hspares =>
    obtain ⟨v, m₁, hread, hrest⟩ := run_bind_eq_ok_iff.1 hrun
    obtain rfl := (reads_readOperand _ _).eq_of_run hread
    obtain ⟨w, m₂, hf', hresult⟩ := run_bind_eq_ok_iff.1 hrest
    obtain ⟨u, m₃, hwrite, hsigns⟩ := run_bind_eq_ok_iff.1 hresult
    obtain ⟨-, rfl⟩ := Prod.mk.inj hsigns
    have hsame := sameOperands_of_within htables (hspares v)
    rw [hf'] at hsame
    have hwritten : Target.operand.Written e.addressing (some _) m₁ m₃ :=
      written_of_writeOperand ha hsame hwrite
    rw [htarget]
    exact hwritten
  | write htarget ha =>
    rw [htarget]
    exact written_of_writeOperand ha ⟨rfl, rfl, rfl⟩ hrun
  | jump hop => simp [hop, Operation.target] at hwrites
  | push htarget =>
    obtain ⟨hlow, rfl⟩ := eq_of_run_push hrun
    rw [htarget]
    exact ⟨_, hlow, rfl⟩
  | call hop ha =>
    obtain ⟨target, m₁, haddress, hrest⟩ := run_bind_eq_ok_iff.1 hrun
    obtain rfl := (reads_effectiveAddress _ _).eq_of_run haddress
    rw [hop]
    exact written_of_callFrom htables hrest
  | pull h => exact (hwrites (target_of_pulls h)).elim
  | halt hop => simp [hop, Operation.target] at hwrites
  | decimal hop => simp [hop, Operation.target] at hwrites

/-- A behaviour that succeeds writes its target and nothing else. -/
theorem written_of_behaviour (hcourse : Course e operand (e.behaviour operand))
    (htables : m.cpu.tables = (registers, indicators))
    (hrun : (e.behaviour operand).run m = (.ok (), m')) :
    e.operation.target.Written e.addressing operand m m' := by
  by_cases hwrites : e.operation.target = .nothing
  · rw [hwrites]
    exact memory_of_target_nothing hrun hwrites
  · exact hcourse.written htables hwrites hrun

/-! ## Steps -/

/-- The instructions that write their operand, unless it is the accumulator. -/
def storing : List String := ["STA", "STX", "STY", "ASL", "LSR", "ROL", "ROR", "INC", "DEC"]

/-- The instructions that move the stack pointer. -/
def stacking : List String := ["JSR", "RTS", "RTI", "PHA", "PHP", "PLA", "PLP", "TXS"]

/-- The instructions that set or clear indicators that tell of no result. -/
def switching : List String := ["CLI", "SEI", "CLD", "PLP", "RTI"]

/-- What a step at `e` that succeeds may change on the way from `m` to `m'`. -/
structure Frame (e : Entry) (m m' : Machine) : Prop where
  size : m'.memory.size = m.memory.size
  /-- An instruction that writes its operand changes one byte. -/
  operand : e.mnemonic ∈ storing → e.addressing ≠ .accumulator → ∃ o address,
    e.operandAt m = some o ∧ (effectiveAddress e.addressing o).run m = (.ok address, m) ∧
      0 ≤ address ∧ address < 65536 ∧
      ∀ i : Nat, (i : Int) ≠ address → m'.memory.cell i = m.memory.cell i
  top : e.mnemonic ∈ ["PHA", "PHP"] → ∀ i : Nat, (i : Int) ≠ m.cpu.register sp →
    m'.memory.cell i = m.memory.cell i
  link : e.mnemonic = "JSR" → ∀ i : Nat, (i : Int) ≠ m.cpu.register sp →
    (i : Int) ≠ Word.unsigned (m.cpu.register sp - 1) 2 → m'.memory.cell i = m.memory.cell i
  nothing : e.mnemonic ∉ storing ∨ e.addressing = .accumulator →
    e.mnemonic ∉ ["PHA", "PHP", "JSR"] → m'.memory = m.memory
  stack : e.mnemonic ∉ stacking → m'.cpu.register sp = m.cpu.register sp
  ended : e.mnemonic ≠ "END" → m'.cpu.ended = m.cpu.ended
  modes : e.mnemonic ∉ switching → ∀ (j : Nat) (light : IndicatorCell),
    m.cpu.indicators[j]? = some light →
      light.kind ∈ [.interruptDisable, .decimal, .brk, .unused] →
        m'.cpu.indicators[j]? = some light

section Table

-- the table has more entries than the default depth lets an evaluation go through
set_option maxRecDepth 1000

theorem target_of_mem_storing : ∀ e ∈ opcodes, e.mnemonic ∈ storing →
    e.operation.target = .operand := by
  decide

theorem target_of_push : ∀ e ∈ opcodes, e.mnemonic ∈ ["PHA", "PHP"] →
    e.operation.target = .top := by
  decide

theorem target_of_call : ∀ e ∈ opcodes, e.mnemonic = "JSR" → e.operation.target = .link := by
  decide

theorem target_eq_nothing : ∀ e ∈ opcodes, e.mnemonic ∉ storing →
    e.mnemonic ∉ ["PHA", "PHP", "JSR"] → e.operation.target = .nothing := by
  decide

theorem movesStack_eq_false : ∀ e ∈ opcodes, e.mnemonic ∉ stacking →
    e.operation.movesStack = false := by
  decide

theorem setsModes_eq_false : ∀ e ∈ opcodes, e.mnemonic ∉ switching →
    e.operation = .setDecimal ∨ e.operation.setsModes = false := by
  decide

theorem operation_ne_finish : ∀ e ∈ opcodes, e.mnemonic ≠ "END" → e.operation ≠ .finish := by
  decide

end Table

/-- One byte put down changes no other cell. -/
theorem cell_overlay_byte (memory : Memory) {address : Int} (hlow : 0 ≤ address) (v : Int) {i : Nat}
    (hi : (i : Int) ≠ address) :
    (memory.overlay address.toNat (Word.toBytes v 1)).cell i = memory.cell i := by
  apply Memory.cell_overlay_of_outside
  rw [Word.length_toBytes]
  omega

section Step

variable {ended : Bool} (htables : m.cpu.tables = (registers, indicators))
  (hstep : architecture.step m = (.ok ended, m'))
include htables hstep

/-- A step that succeeds writes the target of its instruction, where that was before the step. -/
theorem written_of_step (hat : e.At m) :
    e.operation.target.Written e.addressing (e.operandAt m) m m' := by
  obtain ⟨opened, hmoved, hrun⟩ := run_of_step_eq_ok htables hat hstep
  have hwritten := written_of_behaviour hat.course (hmoved.tables.trans htables) hrun
  exact hwritten.congr hmoved.sameOperands (hmoved.register (by decide))

/-- In a machine with the registers of the 6502 and any memory, a step that succeeds finds an
instruction at the program counter and keeps to the frame of that instruction. -/
theorem frame_of_step : (∃ e : Entry, e.At m) ∧ ∀ e : Entry, e.At m → Frame e m m' := by
  refine ⟨exists_at_of_step_eq_ok hstep, fun e hat => ?_⟩
  obtain ⟨opened, hmoved, hrun⟩ := run_of_step_eq_ok htables hat hstep
  have hopened := hmoved.tables.trans htables
  have hwritten := written_of_step htables hstep hat
  constructor
  case size => rw [size_of_behaviour hrun, hmoved.memory]
  case operand =>
    intro hname hmemory
    rw [target_of_mem_storing e hat.mem hname] at hwritten
    obtain ⟨haccumulator, -⟩ | ⟨-, o, address, v, ho, haddress, hput⟩ := hwritten
    · exact (hmemory haccumulator).elim
    · obtain ⟨hlow, hhigh⟩ := effectiveAddress_mem haddress
      refine ⟨o, address, ho, haddress, hlow, hhigh, fun i hi => ?_⟩
      rw [hput, cell_overlay_byte _ hlow v hi]
  case top =>
    intro hname i hi
    rw [target_of_push e hat.mem hname] at hwritten
    obtain ⟨v, hlow, hput⟩ := hwritten
    rw [hput, cell_overlay_byte _ hlow v hi]
  case link =>
    intro hname i hi hi'
    rw [target_of_call e hat.mem hname] at hwritten
    obtain ⟨high, low, hlow, hput⟩ := hwritten
    have hbelow := Word.unsigned_nonneg (m.cpu.register sp - 1) (w := 2) (by decide)
    rw [hput, cell_overlay_byte _ hbelow low hi', cell_overlay_byte _ hlow high hi]
  case nothing =>
    intro hname hpush
    by_cases hstores : e.mnemonic ∈ storing
    · have haccumulator := hname.resolve_left (not_not_intro hstores)
      rw [target_of_mem_storing e hat.mem hstores] at hwritten
      obtain ⟨-, hmemory⟩ | ⟨hmemory, -⟩ := hwritten
      · exact hmemory
      · exact (hmemory haccumulator).elim
    · rw [target_eq_nothing e hat.mem hstores hpush] at hwritten
      exact hwritten
  case stack =>
    intro hname
    rw [register_sp_of_behaviour hrun hopened (movesStack_eq_false e hat.mem hname),
      hmoved.register (by decide)]
  case ended =>
    intro hname
    rw [ended_of_behaviour hrun (operation_ne_finish e hat.mem hname), hmoved.ended]
  case modes =>
    intro hname j light hlight hkind
    have hmode : light.kind.isMode = true := by
      revert hkind
      cases light.kind <;> decide
    rw [← hmoved.indicators] at hlight
    rcases setsModes_eq_false e hat.mem hname with hdecimal | hmodes
    · rw [behaviour_of_decimal hdecimal] at hrun
      simp [Action.run] at hrun
    · exact indicator_of_behaviour hrun hopened hmodes hlight hmode

end Step

/-- The last of four bytes is counted up. -/
theorem frame_of_step_inc :
    let m : Machine := { cpu := architecture.freshCpu, memory := ⟨#[0xE6, 0x03, 0xEA, 0x07]⟩ }
    ∃ m', architecture.step m = (.ok false, m') ∧
      Frame ⟨0xE6, "INC", .zeroPage, .count 1⟩ m m' ∧ m'.memory.cell 3 = 0x08 := by
  intro m
  have hat : (⟨0xE6, "INC", .zeroPage, .count 1⟩ : Entry).At m :=
    ⟨by decide, by decide⟩
  have hsucceeds : (architecture.step m).1 = .ok false := by decide
  have hcell : (architecture.step m).2.memory.cell 3 = 0x08 := by decide
  cases hstep : architecture.step m with
  | mk result m' =>
    rw [hstep] at hsucceeds hcell
    obtain rfl : result = _ := hsucceeds
    obtain ⟨-, hframe⟩ := frame_of_step (by decide) hstep
    exact ⟨m', rfl, hframe _ hat, hcell⟩

end Breadboard.Mos6502
