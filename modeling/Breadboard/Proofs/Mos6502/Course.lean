import Breadboard.Proofs.Cpu.Frame
import Breadboard.Proofs.Mos6502.Effects
import Breadboard.Proofs.Mos6502.Stack

/-!
# How operations of the 6502 run

The operations take few courses (`Course`): most of them only work on registers, or read their
operand first, or read and write it, or write it, or push. Each course says where a failure can come
from. With its operand an operation never fails by itself, but for the two that are made to fail
(`Course.unfailing`). If one of the short courses fails, then the machine is as it was
(`Course.eq_of_run_error`): where an operand is read and written, the write does not fail once the
read succeeded (`exists_run_update`). In 64 KiB of memory the short courses succeed
(`Course.exists_run`), a call succeeds (`exists_run_callFrom`), and an operation that pulls fails
exactly if the stack pointer comes to the last cell (`pulls_behaviour`).
-/

namespace Breadboard.Mos6502

open Breadboard.Action

variable {α β : Type} {e : Entry} {operand : Option Operand} {a : Addressing} {o : Operand}
  {m m' : Machine}

/-! ## Registers of the machine -/

/-- The registers of the tables are there. -/
theorem exists_register (h : m.cpu.tables = (registers, indicators)) {i : Nat} {r : Register}
    (hr : registers[i]? = some r) : ∃ cell : RegisterCell, m.cpu.registers[i]? = some cell ∧
      cell.toRegister = r := by
  rw [Cpu.register_of_tables h] at hr
  exact Option.map_eq_some_iff.1 hr

/-- A register that is not a status register is kept by an edit that does not write it. -/
theorem register_edit (h : m.cpu.tables = (registers, indicators)) {i : Nat} {r : Register}
    (hr : registers[i]? = some r) (hkind : r.kind ≠ .status) {change : Cpu.Edit}
    (hchange : ¬ change.Writes i) : (m.edit change).cpu.register i = m.cpu.register i := by
  obtain ⟨cell, hcell, rfl⟩ := exists_register h hr
  have hkept : (m.edit change).cpu.registers[i]? = some cell :=
    Cpu.getElem?_registers_edit hcell hkind hchange
  rw [Cpu.register, Cpu.register, hkept, hcell]

theorem register_of_within (h : m.cpu.tables = (registers, indicators)) {i : Nat} {r : Register}
    (hr : registers[i]? = some r) (hkind : r.kind ≠ .status) {x : Action α} {stores : Prop}
    (hx : x.Within (fun change => ¬ change.Writes i) stores) :
    (x.run m).2.cpu.register i = m.cpu.register i := by
  have hkept := hx.run
    (P := fun m' => m'.cpu.tables = (registers, indicators) ∧
      m'.cpu.register i = m.cpu.register i)
    (fun change hchange ⟨htables, hregister⟩ => ⟨(Cpu.tables_edit _ change).trans htables,
      (register_edit htables hr hkind hchange).trans hregister⟩)
    (fun _ hkept => hkept) ⟨h, rfl⟩
  exact hkept.2

/-- The edit leaves the index registers alone. -/
def SparesIndex (change : Cpu.Edit) : Prop :=
  ¬ change.Writes Reg.x.position ∧ ¬ change.Writes Reg.y.position

/-- Where the index registers are left alone and nothing is stored, operands stay where they are. -/
theorem sameOperands_of_within (h : m.cpu.tables = (registers, indicators)) {x : Action α}
    (hx : x.Within SparesIndex False) : SameOperands m (x.run m).2 := by
  constructor
  · exact hx.run (P := fun m' => m'.memory = m.memory) (fun _ _ hmemory => hmemory)
      (fun hfalse => hfalse.elim) rfl
  · exact register_of_within h rfl (by decide) (hx.mono (fun _ hspares => hspares.1) id)
  · exact register_of_within h rfl (by decide) (hx.mono (fun _ hspares => hspares.2) id)

/-! ## Pulling -/

/-- How many bytes the operation pulls. -/
def Operation.pulls : Operation → Nat
  | .pullAccumulator | .pullStatus => 1
  | .ret => 2
  | .returnFromInterrupt => 3
  | _ => 0

/-- The action pulls `n` bytes. If the stack pointer comes to the last cell before the last pull,
then the next pull fails; otherwise all goes well. -/
def Pulls (n : Nat) (x : Action α) : Prop :=
  ∀ (s : Nat) (m : Machine), HasStack s m → s < 65536 →
    (s + n < 65536 → ∃ a m', x.run m = (.ok a, m') ∧ HasStack (s + n : Nat) m') ∧
    (65536 ≤ s + n → ∃ m', x.run m = (.error (.memory ⟨65536, 1, .pastEnd⟩), m'))

theorem Pulls.bind {n k : Nat} {x : Action α} {f : α → Action β} (hx : Pulls n x)
    (hf : ∀ a, Pulls k (f a)) : Pulls (n + k) (x >>= f) := by
  intro s m h hs
  obtain ⟨hok, hfail⟩ := hx s m h hs
  by_cases hfirst : s + n < 65536
  · obtain ⟨a, m₁, hrun, h₁⟩ := hok hfirst
    obtain ⟨hok', hfail'⟩ := hf a (s + n) m₁ h₁ hfirst
    constructor
    · intro hroom
      obtain ⟨b, m₂, hrun', h₂⟩ := hok' (by omega)
      rw [Nat.add_assoc] at h₂
      exact ⟨b, m₂, run_bind_eq_ok_iff.2 ⟨a, m₁, hrun, hrun'⟩, h₂⟩
    · intro hlast
      obtain ⟨m₂, hrun'⟩ := hfail' (by omega)
      exact ⟨m₂, run_bind_eq_error_iff.2 (.inr ⟨a, m₁, hrun, hrun'⟩)⟩
  · constructor
    · omega
    · intro _
      obtain ⟨m₁, hrun⟩ := hfail (by omega)
      exact ⟨m₁, run_bind_eq_error_iff.2 (.inl hrun)⟩

theorem pulls_done (b : β) : Pulls 0 (Action.done b) := by
  intro s m h hs
  constructor
  · exact fun _ => ⟨b, m, rfl, h⟩
  · omega

theorem pulls_pull : Pulls 1 pull := by
  intro s m h hs
  constructor
  · intro hroom
    obtain ⟨m', hrun, hpulled, -⟩ := h.after_pull (by omega)
    exact ⟨_, m', hrun, hpulled⟩
  · intro hlast
    obtain rfl : s = 65535 := by omega
    obtain ⟨m', hrun, -⟩ := h.after_pull_of_last
    exact ⟨m', hrun⟩

/-- Writing another register is no matter to the stack. -/
theorem HasStack.setRegister {t : Int} (h : HasStack t m) {i : Nat} (hi : i ≠ sp) (v : Int) :
    HasStack t (m.edit (.register i v)) := by
  have hpointer : (m.edit (.register i v)).cpu.register sp = m.cpu.register sp :=
    register_edit h.tables_eq rfl (by decide) hi
  refine ⟨?_, h.size_eq, hpointer.trans h.pointer⟩
  rw [← h.tables_eq]
  exact Cpu.tables_setRegister m.cpu i v

theorem pulls_setRegister {i : Nat} (hi : i ≠ sp) (v : Int) : Pulls 0 (setRegister i v) := by
  intro s m h hs
  constructor
  · exact fun _ => ⟨(), m.edit (.register i v), rfl, h.setRegister hi v⟩
  · omega

theorem pulls_pullAddress : Pulls 2 pullAddress :=
  pulls_pull.bind fun _ => pulls_pull.bind fun _ => pulls_done _

/-- An operation of the stack pulls what it is said to pull. -/
theorem pulls_behaviour (h : 0 < e.operation.pulls) :
    Pulls e.operation.pulls (e.behaviour operand) := by
  obtain ⟨opcode, mnemonic, a, op⟩ := e
  have hpc := pulls_setRegister (i := pc) (by decide)
  have hpsr := pulls_setRegister (i := psr) (by decide)
  cases op with
  | pullAccumulator => exact pulls_pull.bind (pulls_setRegister (i := Reg.a.position) (by decide))
  | pullStatus => exact pulls_pull.bind hpsr
  | ret => exact pulls_pullAddress.bind fun v => hpc (v + 1)
  | returnFromInterrupt =>
    exact pulls_pull.bind fun v => (hpsr v).bind fun _ => pulls_pullAddress.bind hpc
  | _ => contradiction

theorem unfailing_behaviour_of_pulls (h : 0 < e.operation.pulls) :
    (e.behaviour operand).Unfailing := by
  obtain ⟨opcode, mnemonic, a, op⟩ := e
  cases op with
  | pullAccumulator => exact fun _ _ => trivial
  | pullStatus => exact fun _ _ => trivial
  | ret => exact fun _ _ _ _ => trivial
  | returnFromInterrupt => exact fun _ _ _ _ _ _ => trivial
  | _ => contradiction

/-! ## Courses -/

/-- The ways of addressing that go with an operation. -/
def Operation.accepts : Operation → Addressing → Bool
  | .add, a | .subtract, a | .logic _, a | .testBits, a | .compare _, a | .load _, a
  | .branch _ _, a => a.isReadable
  | .shift _, a | .count _, a | .store _, a => a.isWritable
  | .jump, a => a.isMemory || a == .indirect
  | .call, a => a.isMemory
  | _, _ => true

theorem accepts_of_mem : ∀ e ∈ opcodes, e.operation.accepts e.addressing = true := by
  decide +kernel

/-- Pushes `link` as the address to return to, and goes to `target`. -/
def callFrom (link target : Int) : Action Unit := do
  push (link / 256)
  push link
  setRegister pc target

/-- How the behaviour of an entry goes about its operand. -/
inductive Course (e : Entry) : Option Operand → Action Unit → Prop
  /-- It works on registers only. -/
  | plain {operand : Option Operand} {x : Action Unit} (htarget : e.operation.target = .nothing)
    (hx : x.Sure) : Course e operand x
  /-- It reads the operand and then works on registers. -/
  | read {o : Operand} {f : Int → Action Unit} (htarget : e.operation.target = .nothing)
    (ha : e.addressing.isReadable = true) (hf : ∀ v, (f v).Sure) :
    Course e (some o) (readOperand e.addressing o >>= f)
  /-- It reads the operand and puts a result in its place. -/
  | update {o : Operand} {f : Int → Action Int} (htarget : e.operation.target = .operand)
    (ha : e.addressing.isWritable = true) (hf : ∀ v, (f v).Sure)
    (hspares : ∀ v, (f v).Within SparesIndex False) :
    Course e (some o) (readOperand e.addressing o >>= fun v => f v >>= writeResult e.addressing o)
  /-- It writes a register in the place of the operand. -/
  | write {o : Operand} {i : Nat} (htarget : e.operation.target = .operand)
    (ha : e.addressing.isWritable = true) :
    Course e (some o) (getRegister i >>= writeOperand e.addressing o)
  /-- It goes to the effective address. -/
  | jump {o : Operand} (hop : e.operation = .jump)
    (ha : e.addressing.isMemory = true ∨ e.addressing = .indirect) :
    Course e (some o) (effectiveAddress e.addressing o >>= setRegister pc)
  | push {operand : Option Operand} {i : Nat} (htarget : e.operation.target = .top) :
    Course e operand (getRegister i >>= push)
  | call {o : Operand} (hop : e.operation = .call) (ha : e.addressing.isMemory = true) :
    Course e (some o) (effectiveAddress e.addressing o >>= fun target =>
      getRegister pc >>= fun past => callFrom (past - 1) target)
  | pull {operand : Option Operand} (h : 0 < e.operation.pulls) :
    Course e operand (e.behaviour operand)
  | halt {operand : Option Operand} (hop : e.operation = .brk) :
    Course e operand (.fail (.halted "BRK called"))
  | decimal {operand : Option Operand} (hop : e.operation = .setDecimal) :
    Course e operand
      (.edit (.indicator decimalIndicator true) (.fail (.unimplemented "decimal mode")))

/-- Every behaviour takes its course, where there is an operand unless there should be none. -/
theorem course (haccepts : e.operation.accepts e.addressing = true)
    (hoperand : operand = none → e.addressing = .implied) :
    Course e operand (e.behaviour operand) := by
  -- an operation that does not go without an operand has one
  have hsome (h : e.operation.accepts .implied = false) : ∃ o, operand = some o := by
    cases operand with
    | none => simp [hoperand rfl, h] at haccepts
    | some o => exact ⟨o, rfl⟩
  obtain ⟨opcode, mnemonic, a, op⟩ := e
  cases op with
  | add | subtract =>
    obtain ⟨o, rfl⟩ := hsome rfl
    exact .read rfl haccepts fun _ _ _ => trivial
  | logic op | testBits | compare reg =>
    obtain ⟨o, rfl⟩ := hsome rfl
    exact .read rfl haccepts fun _ _ => trivial
  | load reg =>
    obtain ⟨o, rfl⟩ := hsome rfl
    exact .read rfl haccepts fun _ => trivial
  | shift op =>
    obtain ⟨o, rfl⟩ := hsome rfl
    let f (v : Int) : Action Int := do
      let carry ← getCarry
      setFlag .carry (op.carryOut (lowByte v))
      return op.apply (lowByte v) carry
    exact .update (f := f) rfl haccepts (fun _ _ => trivial) fun _ _ => ⟨⟨id, id⟩, trivial⟩
  | count delta =>
    obtain ⟨o, rfl⟩ := hsome rfl
    let f (v : Int) : Action Int := pure (v + delta)
    exact .update (f := f) rfl haccepts (fun _ => trivial) fun _ => trivial
  | store reg =>
    obtain ⟨o, rfl⟩ := hsome rfl
    exact .write rfl haccepts
  | branch kind expected =>
    obtain ⟨o, rfl⟩ := hsome rfl
    apply Course.plain rfl
    intro on
    show (if on = expected then getRegister pc >>= fun v =>
      setRegister pc (v + Word.signed o.value o.size) else pure ()).Sure
    split
    · exact fun _ => trivial
    · trivial
  | jump =>
    obtain ⟨o, rfl⟩ := hsome rfl
    exact .jump rfl (by simpa [Operation.accepts] using haccepts)
  | call =>
    obtain ⟨o, rfl⟩ := hsome rfl
    exact .call rfl haccepts
  | ret | returnFromInterrupt | pullAccumulator | pullStatus => exact .pull (Nat.zero_lt_succ _)
  | brk => exact .halt rfl
  | setDecimal => exact .decimal rfl
  | pushAccumulator | pushStatus => exact .push rfl
  | transfer source target | step reg delta => exact .plain rfl fun _ => trivial
  | stackFromX | stackToX => exact .plain rfl fun _ => trivial
  | setFlag kind on | nop | finish => exact .plain rfl trivial

/-! ## Failures on a course -/

theorem behaviour_of_brk (h : e.operation = .brk) :
    e.behaviour operand = .fail (.halted "BRK called") := by
  simp only [Entry.behaviour, h]

theorem behaviour_of_decimal (h : e.operation = .setDecimal) :
    e.behaviour operand =
      .edit (.indicator decimalIndicator true) (.fail (.unimplemented "decimal mode")) := by
  simp only [Entry.behaviour, h]

/-- Only the two operations that are made to fail do so by themselves. -/
theorem Course.unfailing {x : Action Unit} (h : Course e operand x) (hbrk : e.operation ≠ .brk)
    (hdecimal : e.operation ≠ .setDecimal) : x.Unfailing := by
  cases h with
  | plain htarget hx => exact hx.unfailing
  | read htarget ha hf => exact (unfailing_readOperand ha _).bind fun v => (hf v).unfailing
  | update htarget ha hf hspares =>
    have hread := unfailing_readOperand (Addressing.isReadable_of_isWritable ha)
    refine (hread _).bind fun v => (hf v).unfailing.bind fun w => ?_
    exact (unfailing_writeOperand ha _ _).bind fun _ => trivial
  | write htarget ha => exact fun v => unfailing_writeOperand ha _ v
  | jump hop ha => exact (unfailing_effectiveAddress ha _).bind fun _ => trivial
  | push htarget => exact fun _ _ => trivial
  | call hop ha =>
    exact (unfailing_effectiveAddress (.inl ha) _).bind fun _ _ _ _ => trivial
  | pull hpulls => exact unfailing_behaviour_of_pulls hpulls
  | halt hop => exact (hbrk hop).elim
  | decimal hop => exact (hdecimal hop).elim

/-- Once the operand was read, a result can be put in its place. -/
theorem exists_run_update (htables : m.cpu.tables = (registers, indicators))
    (ha : a.isWritable = true) {f : Int → Action Int} (hf : ∀ v, (f v).Sure)
    (hspares : ∀ v, (f v).Within SparesIndex False) {v : Int}
    (hread : (readOperand a o).run m = (.ok v, m)) :
    ∃ m', (f v >>= writeResult a o).run m = (.ok (), m') := by
  obtain ⟨w, m₁, hrun⟩ := (hf v).exists_run m
  have hsame := sameOperands_of_within htables (hspares v)
  rw [hrun] at hsame
  obtain ⟨m₂, hwrite⟩ := exists_run_writeOperand ha hread hsame (Word.signed w 1)
  have hsigns : (setSigns (Word.signed w 1)).run m₂ =
      (.ok (), m₂.edit (.signs (Word.signed w 1))) := rfl
  have hresult : (writeResult a o w).run m₁ = (.ok (), m₂.edit (.signs (Word.signed w 1))) :=
    run_bind_eq_ok_iff.2 ⟨(), m₂, hwrite, hsigns⟩
  exact ⟨_, run_bind_eq_ok_iff.2 ⟨w, m₁, hrun, hresult⟩⟩

/-- A failure on a short course leaves the machine as it was. -/
theorem Course.eq_of_run_error {x : Action Unit} (h : Course e operand x)
    (htables : m.cpu.tables = (registers, indicators)) (hcall : e.operation ≠ .call)
    (hpulls : e.operation.pulls = 0) (hdecimal : e.operation ≠ .setDecimal) {err : ExecError}
    (hrun : x.run m = (.error err, m')) : m' = m := by
  cases h with
  | plain htarget hx => exact hx.atomic _ _ _ hrun
  | read htarget ha hf => exact (reads_readOperand _ _).atomic (fun v => (hf v).atomic) _ _ _ hrun
  | update htarget ha hf hspares =>
    rcases run_bind_eq_error_iff.1 hrun with hread | ⟨v, m₁, hread, hrest⟩
    · exact (reads_readOperand _ _).eq_of_run hread
    · obtain rfl := (reads_readOperand _ _).eq_of_run hread
      obtain ⟨m₂, hok⟩ := exists_run_update htables ha hf hspares hread
      simp [hok] at hrun hrest
  | write htarget ha => exact atomic_writeOperand _ _ _ _ _ _ hrun
  | jump hop ha =>
    exact (reads_effectiveAddress _ _).atomic (fun v => Sure.atomic (x := setRegister pc v) trivial)
      _ _ _ hrun
  | push htarget =>
    have hcount (top : Int) : (setRegister sp (top - 1)).Sure := trivial
    exact atomic_store (hcount _) _ _ _ hrun
  | call hop => exact (hcall hop).elim
  | pull h => omega
  | halt hop => exact (Prod.mk.inj hrun).2.symm
  | decimal hop => exact (hdecimal hop).elim

/-! ## In 64 KiB of memory -/

section Full

variable {t : Int} (h : HasStack t m)
include h

theorem exists_run_push (v : Int) : ∃ m', (push v).run m = (.ok (), m') := by
  obtain ⟨m', hrun, -⟩ := h.after_push v
  exact ⟨m', hrun⟩

theorem exists_run_callFrom (link target : Int) :
    ∃ m', (callFrom link target).run m = (.ok (), m') := by
  obtain ⟨m₁, hhigh, h₁, -⟩ := h.after_push (link / 256)
  obtain ⟨m₂, hlow, -⟩ := h₁.after_push link
  have hgo : (setRegister pc target).run m₂ = (.ok (), m₂.edit (.register pc target)) := rfl
  have hrest : (push link >>= fun _ => setRegister pc target).run m₁ =
      (.ok (), m₂.edit (.register pc target)) := run_bind_eq_ok_iff.2 ⟨(), m₂, hlow, hgo⟩
  exact ⟨_, run_bind_eq_ok_iff.2 ⟨(), m₁, hhigh, hrest⟩⟩

/-- The short courses and the call succeed, unless they jump through a pointer. -/
theorem Course.exists_run {x : Action Unit} (hx : Course e operand x)
    (ho : ∀ o, operand = some o → o.size = e.addressing.width)
    (hpulls : e.operation.pulls = 0) (hbrk : e.operation ≠ .brk)
    (hdecimal : e.operation ≠ .setDecimal) (hindirect : e.addressing ≠ .indirect) :
    ∃ m', x.run m = (.ok (), m') := by
  have haddress {o : Operand} (hmemory : e.addressing.isMemory = true)
      (hwidth : o.size = e.addressing.width) :=
    exists_run_effectiveAddress (o := o) h.size_eq hmemory hwidth
  have hread {o : Operand} (ha : e.addressing.isReadable = true)
      (hwidth : o.size = e.addressing.width) :=
    exists_run_readOperand (o := o) h.size_eq ha hwidth
  cases hx with
  | plain htarget hx =>
    obtain ⟨u, m', hrun⟩ := hx.exists_run m
    exact ⟨m', hrun⟩
  | read htarget ha hf =>
    obtain ⟨v, hv⟩ := hread ha (ho _ rfl)
    obtain ⟨u, m', hrun⟩ := (hf v).exists_run m
    exact ⟨m', run_bind_eq_ok_iff.2 ⟨v, m, hv, hrun⟩⟩
  | update htarget ha hf hspares =>
    obtain ⟨v, hv⟩ := hread (Addressing.isReadable_of_isWritable ha) (ho _ rfl)
    obtain ⟨m', hrun⟩ := exists_run_update h.tables_eq ha hf hspares hv
    exact ⟨m', run_bind_eq_ok_iff.2 ⟨v, m, hv, hrun⟩⟩
  | write htarget ha =>
    obtain ⟨v, hv⟩ := hread (Addressing.isReadable_of_isWritable ha) (ho _ rfl)
    exact exists_run_writeOperand ha hv ⟨rfl, rfl, rfl⟩ _
  | jump hop ha =>
    obtain ⟨target, htarget⟩ := haddress (ha.resolve_right hindirect) (ho _ rfl)
    exact ⟨_, run_bind_eq_ok_iff.2 ⟨target, m, htarget, rfl⟩⟩
  | push htarget => exact exists_run_push h _
  | call hop ha =>
    obtain ⟨target, htarget⟩ := haddress ha (ho _ rfl)
    obtain ⟨m', hrun⟩ := exists_run_callFrom h (m.cpu.register pc - 1) target
    exact ⟨m', run_bind_eq_ok_iff.2 ⟨target, m, htarget, hrun⟩⟩
  | pull hpull => omega
  | halt hop => exact (hbrk hop).elim
  | decimal hop => exact (hdecimal hop).elim

end Full

end Breadboard.Mos6502
