import Breadboard.Proofs.Cpu.StatusMirror
import Breadboard.Proofs.Mos6502.Step

/-!
# Calls and saved status nest

A call puts the address behind it on the stack, in two bytes that hold one less, and a return takes
it from there. Between them anything may happen to registers, indicators and memory, as long as the
stack pointer comes back and the bytes above it are kept (`Undisturbed`). So the addresses stay on
the stack in the order of the calls (`Stacked`): a call adds one (`Stacked.call`), a return goes to
the last one (`Stacked.ret`), and by induction any number of calls are undone by as many returns.
The status register is saved and restored in the same way, and with it the indicators, because they
are set from it (`after_pullStatus`). `calls_and_status_nest` says both.
-/

namespace Breadboard.Mos6502

open Breadboard.Action

variable {m m' m'' : Machine} {top p : Nat} {a : Int} {as : List Int}

/-! ## What is left alone -/

/-- From `m` to `m'` anything may happen, except that there are the same registers, indicators and
cells, that the stack pointer is where it was, and that the bytes above it up to `top` are kept. -/
structure Undisturbed (top : Nat) (m m' : Machine) : Prop where
  tables : m'.cpu.tables = m.cpu.tables
  size : m'.memory.size = m.memory.size
  pointer : m'.cpu.register sp = m.cpu.register sp
  kept : ∀ i : Nat, m.cpu.register sp < i → i ≤ top → m'.memory.cell i = m.memory.cell i

/-- The stack is left alone where nothing happens. -/
theorem Undisturbed.refl (top : Nat) (m : Machine) : Undisturbed top m m :=
  ⟨rfl, rfl, rfl, fun _ _ _ => rfl⟩

theorem Undisturbed.trans (h : Undisturbed top m m') (h' : Undisturbed top m' m'') :
    Undisturbed top m m'' := by
  refine ⟨h'.tables.trans h.tables, h'.size.trans h.size, h'.pointer.trans h.pointer, ?_⟩
  intro i hi htop
  exact (h'.kept i (by rwa [h.pointer]) htop).trans (h.kept i hi htop)

theorem HasStack.undisturbed {t : Int} (h : HasStack t m) (hleft : Undisturbed top m m') :
    HasStack t m' :=
  ⟨hleft.tables.trans h.tables_eq, hleft.size.trans h.size_eq, hleft.pointer.trans h.pointer⟩

/-- Moving the program counter is no matter to the stack. -/
theorem CounterMoved.undisturbed (h : CounterMoved m m') (top : Nat) : Undisturbed top m m' := by
  have hmemory := h.memory
  refine ⟨h.tables, ?_, h.register (by decide), ?_⟩
  · rw [hmemory]
  · intro i _ _
    rw [hmemory]

/-- Writing another register than the stack pointer is no matter to the stack. -/
theorem undisturbed_edit (h : m.cpu.tables = (registers, indicators)) {i : Nat} (hi : i ≠ sp)
    (v : Int) : Undisturbed top m (m.edit (.register i v)) :=
  ⟨Cpu.tables_edit m.cpu _, rfl, register_edit h rfl (by decide) hi, fun _ _ _ => rfl⟩

/-- What is placed above the stack does not disturb it. -/
theorem undisturbed_placed (h : m.cpu.tables = (registers, indicators)) {address : Nat}
    (habove : top < address) (bytes : List UInt8) :
    Undisturbed top m (placed m address bytes) := by
  have hset : Undisturbed top m (architecture.setPc m address) :=
    undisturbed_edit h (by decide) address
  refine ⟨hset.tables, Memory.size_overlay _ _ _, hset.pointer, fun i _ hi => ?_⟩
  exact Memory.cell_overlay_of_outside _ (.inl (by omega))

/-! ## Addresses on the stack -/

/-- The bytes above `p` up to `top` are return addresses, the first one lowest: each of them is
stored as the number below it, low byte first. -/
def Linked (memory : Memory) (top : Nat) : List Int → Nat → Prop
  | [], p => p = top
  | a :: as, p => memory.slice (p + 1) 1 = Word.toBytes (a - 1) 1 ∧
    memory.slice (p + 2) 1 = Word.toBytes ((a - 1) / 256) 1 ∧ Linked memory top as (p + 2)

/-- Each address takes two bytes. -/
theorem Linked.top_eq {memory : Memory} (h : Linked memory top as p) :
    top = p + 2 * as.length := by
  induction as generalizing p with
  | nil => exact h.symm
  | cons a as ih =>
    obtain ⟨-, -, hrest⟩ := h
    rw [ih hrest, List.length_cons]
    omega

/-- Memory that agrees on the bytes above `p` up to `top` has the same addresses there. -/
theorem Linked.congr {memory memory' : Memory} (h : Linked memory top as p)
    (hkept : ∀ i, p < i → i ≤ top → memory'.cell i = memory.cell i) :
    Linked memory' top as p := by
  induction as generalizing p with
  | nil => exact h
  | cons a as ih =>
    have htop := h.top_eq
    rw [List.length_cons] at htop
    obtain ⟨hlow, hhigh, hrest⟩ := h
    refine ⟨?_, ?_, ih hrest fun i hi => hkept i (by omega)⟩
    · rw [← hlow]
      exact Memory.slice_congr fun k _ => hkept _ (by omega) (by omega)
    · rw [← hhigh]
      exact Memory.slice_congr fun k _ => hkept _ (by omega) (by omega)

/-- The stack pointer is `p`, and above it are return addresses up to `top`. -/
structure Stacked (top : Nat) (as : List Int) (p : Nat) (m : Machine) : Prop where
  pointed : HasStack p m
  linked : Linked m.memory top as p

/-- The addresses stay on the stack as long as it is not disturbed. -/
theorem Stacked.undisturbed (h : Stacked top as p m) (htop : top < 65536)
    (hleft : Undisturbed top m m') : Stacked top as p m' := by
  have heq := h.linked.top_eq
  refine ⟨h.pointed.undisturbed hleft, h.linked.congr fun i hi => hleft.kept i ?_⟩
  rw [h.pointed.register_sp (by omega)]
  omega

/-! ## Calling and returning -/

/-- A call from `a - 1` puts `a` on the stack. -/
theorem Stacked.after_callFrom (h : Stacked top as (p + 2) m) (htop : top < 65536) (target : Int) :
    ∃ m', (callFrom (a - 1) target).run m = (.ok (), m') ∧ Stacked top (a :: as) p m' := by
  have heq := h.linked.top_eq
  obtain ⟨m₁, hpush, h₁, hhigh, hothers⟩ := h.pointed.after_push_succ (by omega) ((a - 1) / 256)
  obtain ⟨m₂, hpush', h₂, hlow, hothers'⟩ := h₁.after_push_succ (by omega) (a - 1)
  have hgo : (setRegister pc target).run m₂ = (.ok (), m₂.edit (.register pc target)) := rfl
  have hrest : (push (a - 1) >>= fun _ => setRegister pc target).run m₁ =
      (.ok (), m₂.edit (.register pc target)) := run_bind_eq_ok_iff.2 ⟨(), m₂, hpush', hgo⟩
  refine ⟨_, run_bind_eq_ok_iff.2 ⟨(), m₁, hpush, hrest⟩, h₂.setRegister (by decide) target,
    hlow, ?_, ?_⟩
  · -- the second push is below the first one
    rw [← hhigh]
    exact Memory.slice_congr fun k _ => hothers' _ (by omega)
  · apply h.linked.congr
    intro i hi _
    exact (hothers' i (by omega)).trans (hothers i (by omega))

/-- Adding one to the number that was stored gives the address again, in two bytes. -/
theorem unsigned_link (a : Int) :
    Word.unsigned (Word.unsigned ((a - 1) / 256) 1 * 256 + Word.unsigned (a - 1) 1 + 1) 2 =
      Word.unsigned a 2 := by
  show ((a - 1) / 256 % 256 * 256 + (a - 1) % 256 + 1) % 65536 = a % 65536
  omega

/-- The first address is pulled from the stack. -/
theorem Stacked.after_pullAddress (h : Stacked top (a :: as) p m) (htop : top < 65536) :
    ∃ m', pullAddress.run m =
        (.ok (Word.unsigned ((a - 1) / 256) 1 * 256 + Word.unsigned (a - 1) 1), m') ∧
      Stacked top as (p + 2) m' := by
  have heq := h.linked.top_eq
  rw [List.length_cons] at heq
  obtain ⟨hlow, hhigh, hrest⟩ := h.linked
  obtain ⟨m₁, hpull, h₁, hmemory⟩ := h.pointed.after_pull (by omega)
  obtain ⟨m₂, hpull', h₂, hmemory'⟩ := h₁.after_pull (by omega)
  rw [hlow, Word.ofBytes_toBytes _ (by decide)] at hpull
  rw [hmemory, hhigh, Word.ofBytes_toBytes _ (by decide)] at hpull'
  refine ⟨m₂, ?_, h₂, by rwa [hmemory', hmemory]⟩
  exact run_bind_eq_ok_iff.2 ⟨_, m₁, hpull, run_bind_eq_ok_iff.2 ⟨_, m₂, hpull', rfl⟩⟩

theorem addressing_of_call : ∀ e ∈ opcodes, e.operation = .call → e.addressing = .absolute := by
  decide +kernel

/-- A step at a call puts the address behind the call on the stack. -/
theorem Stacked.call (h : Stacked top as (p + 2) m) (htop : top < 65536) (hfaces : Faces .call m) :
    Succeeds m ∧
      Stacked top (Word.unsigned (architecture.pcOf m + 3) 2 :: as) p (architecture.step m).2 := by
  obtain ⟨e, hat, hop, hin⟩ := hfaces
  have habsolute := addressing_of_call e hat.mem hop
  obtain ⟨opened, hmoved, hpc, hstep⟩ := step_eq_ok_of_run h.pointed.tables_eq hat hin
  have hbehind : architecture.pcOf opened = Word.unsigned (architecture.pcOf m + 3) 2 := by
    have hwidth : e.addressing.width = 2 := by
      rw [habsolute]
      rfl
    rw [hpc, hwidth, behindOpcode, Word.unsigned_unsigned_add, Int.add_assoc]
    rfl
  have hopened := h.undisturbed htop (hmoved.undisturbed top)
  cases hoperand : e.operandAt m with
  | none =>
    rw [operandAt_eq_none_iff, habsolute] at hoperand
    contradiction
  | some o =>
    obtain ⟨opcode, mnemonic, addressing, op⟩ := e
    obtain rfl : op = .call := hop
    obtain rfl : addressing = .absolute := habsolute
    obtain ⟨m', hrun, hstacked⟩ :=
      hopened.after_callFrom (a := architecture.pcOf opened) htop (Word.unsigned o.unsigned 2)
    rw [hoperand] at hstep
    rw [hbehind] at hstacked
    rw [Succeeds, hstep m' hrun]
    exact ⟨⟨_, rfl⟩, hstacked⟩

/-- A step at a return goes to the first address on the stack. -/
theorem Stacked.ret (h : Stacked top (a :: as) p m) (htop : top < 65536) (hfaces : Faces .ret m) :
    Succeeds m ∧ architecture.pcOf (architecture.step m).2 = Word.unsigned a 2 ∧
      Stacked top as (p + 2) (architecture.step m).2 := by
  obtain ⟨e, hat, hop, hin⟩ := hfaces
  obtain ⟨opened, hmoved, -, hstep⟩ := step_eq_ok_of_run h.pointed.tables_eq hat hin
  obtain ⟨m₁, hpull, h₁⟩ :=
    (h.undisturbed htop (hmoved.undisturbed top)).after_pullAddress htop
  obtain ⟨opcode, mnemonic, addressing, op⟩ := e
  obtain rfl : op = .ret := hop
  rw [Succeeds, hstep _ (run_bind_eq_ok_iff.2 ⟨_, m₁, hpull, rfl⟩)]
  refine ⟨⟨_, rfl⟩, ?_, h₁.pointed.setRegister (by decide) _, h₁.linked⟩
  exact (pcOf_setPc h₁.pointed.tables_eq _).trans (unsigned_link a)

/-! ## Many calls and returns -/

/-- From `m` to `m'` the machines `ms` take a step each, in order, at an instruction of the
operation. Before, between and after these steps the stack is not disturbed. -/
inductive Visits (top : Nat) (op : Operation) : List Machine → Machine → Machine → Prop
  | idle {m m' : Machine} (h : Undisturbed top m m') : Visits top op [] m m'
  | step {m m' n : Machine} {ms : List Machine} (h : Undisturbed top m n) (hfaces : Faces op n)
    (hrest : Visits top op ms (architecture.step n).2 m') : Visits top op (n :: ms) m m'

/-- Calls put the addresses behind them on the stack, the last one first. -/
theorem Visits.calls {calls : List Machine} (h : Visits top .call calls m m')
    (hstacked : Stacked top as (p + 2 * calls.length) m) (htop : top < 65536) :
    (∀ c ∈ calls, Succeeds c) ∧
      Stacked top ((calls.map fun c => Word.unsigned (architecture.pcOf c + 3) 2).reverse ++ as) p
        m' := by
  induction h generalizing as with
  | idle hleft => exact ⟨by simp, hstacked.undisturbed htop hleft⟩
  | @step m m' c calls hleft hfaces _ ih =>
    have hat : Stacked top as (p + 2 * calls.length + 2) c := hstacked.undisturbed htop hleft
    obtain ⟨hcall, hcalled⟩ := hat.call htop hfaces
    obtain ⟨hsucceed, hall⟩ := ih hcalled
    refine ⟨List.forall_mem_cons.2 ⟨hcall, hsucceed⟩, ?_⟩
    rw [List.map_cons, List.reverse_cons, List.append_assoc]
    exact hall

/-- As many returns as there are addresses go to them in order, and leave none. -/
theorem Visits.returns {returns : List Machine} (h : Visits top .ret returns m m')
    (hstacked : Stacked top as p m) (hlength : returns.length = as.length) (htop : top < 65536) :
    (∀ r ∈ returns, Succeeds r) ∧
      returns.map (fun r => architecture.pcOf (architecture.step r).2) =
        as.map (Word.unsigned · 2) ∧
      Stacked top [] top m' := by
  induction h generalizing as p with
  | idle hleft =>
    obtain rfl : as = [] := List.length_eq_zero_iff.1 hlength.symm
    obtain rfl : p = top := hstacked.linked
    exact ⟨by simp, rfl, hstacked.undisturbed htop hleft⟩
  | step hleft hfaces _ ih =>
    cases as with
    | nil => simp at hlength
    | cons a as =>
      obtain ⟨hreturn, hpc, hreturned⟩ := (hstacked.undisturbed htop hleft).ret htop hfaces
      obtain ⟨hsucceed, hresume, hempty⟩ := ih hreturned (by simpa using hlength)
      refine ⟨List.forall_mem_cons.2 ⟨hreturn, hsucceed⟩, ?_, hempty⟩
      rw [List.map_cons, List.map_cons, hresume, hpc]

/-! ## Saving the status -/

/-- A step that saves the status puts the status register on the stack. -/
theorem after_pushStatus {s : Nat} (h : HasStack (s + 1 : Nat) m) (hs : s < 65535)
    (hfaces : Faces .pushStatus m) : ∃ m', architecture.step m = (.ok m'.cpu.ended, m') ∧
      HasStack s m' ∧ m'.memory.slice (s + 1) 1 = Word.toBytes (m.cpu.register psr) 1 := by
  obtain ⟨e, hat, hop, hin⟩ := hfaces
  obtain ⟨opened, hmoved, -, hstep⟩ := step_eq_ok_of_run h.tables_eq hat hin
  obtain ⟨opcode, mnemonic, addressing, op⟩ := e
  obtain rfl : op = .pushStatus := hop
  have hopened := h.undisturbed (hmoved.undisturbed 0)
  obtain ⟨m', hpush, h', hslice, -⟩ := hopened.after_push_succ hs (opened.cpu.register psr)
  rw [hmoved.register (by decide)] at hslice
  exact ⟨m', hstep m' hpush, h', hslice⟩

/-- The status register is one unsigned byte, and the indicators are set from it. -/
theorem setRegister_psr {cpu : Cpu} (h : cpu.tables = (registers, indicators)) (v : Int) :
    (cpu.setRegister psr v).cpu.register psr = Word.unsigned v 1 ∧
      (cpu.setRegister psr v).cpu.indicators =
        (cpu.showStatus (Word.unsigned v 1)).cpu.indicators := by
  have hdesc := Cpu.register_of_tables h psr
  obtain ⟨⟨_, value⟩, hr, rfl⟩ := Option.map_eq_some_iff.1 hdesc.symm
  obtain ⟨hlt, -⟩ := List.getElem?_eq_some_iff.1 hr
  rw [Cpu.setRegister]
  simp only [hr]
  constructor
  · show ((cpu.registers.set psr _)[psr]?.map (·.value)).getD 0 = _
    rw [List.getElem?_set_self hlt]
    rfl
  · rfl

/-- Setting the status register and the indicators to what the status register shows changes
nothing. -/
theorem status_of_mirrored {cpu : Cpu} (h : Cpu.Mirrored registers indicators cpu) :
    Word.unsigned (cpu.register psr) 1 = cpu.register psr ∧
      (cpu.showStatus (cpu.register psr)).cpu.indicators = cpu.indicators := by
  have hdesc := Cpu.register_of_tables h.tables_eq psr
  obtain ⟨⟨_, value⟩, hr, rfl⟩ := Option.map_eq_some_iff.1 hdesc.symm
  have hvalue : cpu.register psr = value := by
    rw [Cpu.register, hr]
    rfl
  have hmem := List.mem_of_getElem? hr
  rw [hvalue]
  exact ⟨h.stored _ hmem, h.indicators_showStatus hmem rfl⟩

/-- A step that restores the status finds it on the stack and sets the indicators from it. -/
theorem after_pullStatus {s : Nat} (h : HasStack s m) (hs : s < 65535) {v : Int}
    (hslice : m.memory.slice (s + 1) 1 = Word.toBytes v 1) (hfaces : Faces .pullStatus m) :
    ∃ m', architecture.step m = (.ok m'.cpu.ended, m') ∧ HasStack (s + 1 : Nat) m' ∧
      m'.cpu.register psr = Word.unsigned v 1 ∧
      m'.cpu.indicators = (m.cpu.showStatus (Word.unsigned v 1)).cpu.indicators := by
  obtain ⟨e, hat, hop, hin⟩ := hfaces
  obtain ⟨opened, hmoved, -, hstep⟩ := step_eq_ok_of_run h.tables_eq hat hin
  obtain ⟨opcode, mnemonic, addressing, op⟩ := e
  obtain rfl : op = .pullStatus := hop
  obtain ⟨m₁, hpull, h₁, -⟩ := (h.undisturbed (hmoved.undisturbed 0)).after_pull hs
  rw [hmoved.memory, hslice, Word.ofBytes_toBytes v (by decide)] at hpull
  obtain ⟨hpsr, hindicators⟩ := setRegister_psr h₁.tables_eq (Word.unsigned v 1)
  have hfit : Word.unsigned (Word.unsigned v 1) 1 = Word.unsigned v 1 := Word.fit_fit .unsigned v 1
  rw [hfit] at hpsr hindicators
  refine ⟨_, hstep _ (run_bind_eq_ok_iff.2 ⟨_, m₁, hpull, rfl⟩),
    h₁.setRegister (by decide) _, hpsr, hindicators.trans ?_⟩
  exact Cpu.indicators_showStatus_congr (h₁.tables_eq.trans h.tables_eq.symm) _

/-! ## Nesting -/

/-- Calls are undone by as many returns, in reverse order. -/
theorem HasStack.calls_nest {s : Nat} (h : HasStack s m) (hs : s < 65536)
    {calls returns : List Machine} (hroom : 2 * calls.length ≤ s)
    (hlength : returns.length = calls.length) (hcalls : Visits s .call calls m m')
    (hreturns : Visits s .ret returns m' m'') :
    (∀ n ∈ calls ++ returns, Succeeds n) ∧
      returns.map (fun r => architecture.pcOf (architecture.step r).2) =
        (calls.map fun c => Word.unsigned (architecture.pcOf c + 3) 2).reverse ∧
      m''.cpu.register sp = s := by
  obtain ⟨below, rfl⟩ := Nat.exists_eq_add_of_le' hroom
  have hnone : Stacked (below + 2 * calls.length) [] (below + 2 * calls.length) m := ⟨h, rfl⟩
  obtain ⟨hcall, hall⟩ := hcalls.calls hnone hs
  obtain ⟨hreturn, hresume, hempty⟩ := hreturns.returns hall (by simpa using hlength) hs
  refine ⟨?_, ?_, hempty.pointed.register_sp hs⟩
  · intro n hn
    exact (List.mem_append.1 hn).elim (hcall n) (hreturn n)
  · rw [hresume, List.append_nil, List.map_reverse, List.map_map]
    -- an address behind a call fits two bytes
    congr 1
    exact List.map_congr_left fun c _ => Word.fit_fit .unsigned _ 2

/-- A status that was saved is restored from the stack. -/
theorem HasStack.status_nests {s : Nat} (h : HasStack (s + 1 : Nat) m) (hs : s < 65535)
    (hcpu : Cpu.Mirrored registers indicators m.cpu) (hsave : Faces .pushStatus m)
    (hleft : Undisturbed (s + 1) (architecture.step m).2 m') (hrestore : Faces .pullStatus m') :
    Succeeds m ∧ Succeeds m' ∧
      (architecture.step m').2.cpu.register psr = m.cpu.register psr ∧
      (architecture.step m').2.cpu.indicators = m.cpu.indicators ∧
      (architecture.step m').2.cpu.register sp = (s + 1 : Nat) := by
  obtain ⟨saved, hstep, hsaved, hslice⟩ := after_pushStatus h hs hsave
  rw [hstep] at hleft
  have hkept : m'.memory.slice (s + 1) 1 = saved.memory.slice (s + 1) 1 := by
    apply Memory.slice_congr
    intro k hk
    apply hleft.kept
    · rw [hsaved.register_sp (by omega)]
      omega
    · omega
  have hback := hsaved.undisturbed hleft
  obtain ⟨restored, hstep', h', hpsr, hindicators⟩ :=
    after_pullStatus hback hs (hkept.trans hslice) hrestore
  obtain ⟨hstatus, hshown⟩ := status_of_mirrored hcpu
  have htables : m'.cpu.tables = m.cpu.tables := hback.tables_eq.trans h.tables_eq.symm
  rw [hstatus] at hpsr hindicators
  rw [Cpu.indicators_showStatus_congr htables, hshown] at hindicators
  rw [hstep']
  exact ⟨⟨_, by rw [hstep]⟩, ⟨_, by rw [hstep']⟩, hpsr, hindicators, h'.register_sp (by omega)⟩

/-- Take a register file of the 6502 that edits lead to, which shows its status register
(`Cpu.Mirrored.edits`), and all the memory that it can address, and let the stack pointer be `s`.

If there is room for them, any number of calls succeed, and as many returns after them, while the
stack is not disturbed in between. The returns go to the addresses behind the calls, modulo 65536
and in reverse order, and at the end the stack pointer is `s` again.

If there is room for it, the status is saved, and restored after anything that does not disturb the
stack. The status register and all indicators are then what they were, and the stack pointer too. -/
theorem calls_and_status_nest (hcpu : Cpu.Mirrored registers indicators m.cpu)
    (hsize : m.memory.size = 65536) {s : Nat} (hpointer : m.cpu.register sp = s)
    (hs : s ≤ 65535) :
    (∀ {calls returns : List Machine} {m₁ m' : Machine}, 2 * calls.length ≤ s →
      returns.length = calls.length → Visits s .call calls m m₁ → Visits s .ret returns m₁ m' →
        (∀ n ∈ calls ++ returns, Succeeds n) ∧
        returns.map (fun r => architecture.pcOf (architecture.step r).2) =
          (calls.map fun c => Word.unsigned (architecture.pcOf c + 3) 2).reverse ∧
        m'.cpu.register sp = s) ∧
    (∀ {m₁ : Machine}, 1 ≤ s → Faces .pushStatus m → Undisturbed s (architecture.step m).2 m₁ →
      Faces .pullStatus m₁ →
        Succeeds m ∧ Succeeds m₁ ∧
        (architecture.step m₁).2.cpu.register psr = m.cpu.register psr ∧
        (architecture.step m₁).2.cpu.indicators = m.cpu.indicators ∧
        (architecture.step m₁).2.cpu.register sp = s) := by
  have hstack : HasStack s m :=
    ⟨hcpu.tables_eq, hsize, by rw [hpointer, unsigned_natCast (by omega)]⟩
  constructor
  · intro calls returns m₁ m' hroom hlength hcalls hreturns
    exact hstack.calls_nest (by omega) hroom hlength hcalls hreturns
  · intro m₁ hroom hsave hleft hrestore
    obtain ⟨below, rfl⟩ := Nat.exists_eq_add_of_le' hroom
    exact hstack.status_nests (by omega) hcpu hsave hleft hrestore

/-! ## A program that calls and returns -/

/-- A machine after a reset. -/
def ready : Machine :=
  architecture.reset { cpu := architecture.freshCpu, memory := .zeroed 65536 }

theorem hasStack_ready : HasStack (511 : Nat) ready :=
  ⟨by decide, Memory.size_zeroed 65536, by decide⟩

/-- What is placed above the stack of the machine after a reset leaves a machine that the edits of
a fresh register file lead to. -/
theorem placed_ready {address : Nat} (habove : 511 < address) (bytes : List UInt8) :
    HasStack (511 : Nat) (placed ready address bytes) ∧
      Cpu.Mirrored registers indicators (placed ready address bytes).cpu := by
  have hL := Cpu.statusLayout_mos6502
  have hready : Cpu.Mirrored registers indicators ready.cpu :=
    ((Cpu.Mirrored.fresh).edit hL .reset).edits hL architecture.onReset
  exact ⟨hasStack_ready.undisturbed (undisturbed_placed hasStack_ready.tables_eq habove bytes),
    hready.edit hL (.register pc address)⟩

/-- Where there is a stack, a call can be placed. -/
theorem HasStack.faces_call {t : Int} (h : HasStack t m) {address : Nat}
    (hroom : address + 2 < 65536) (high low : UInt8) :
    Faces .call (placed m address [0x20, high, low]) :=
  faces_placed (e := ⟨0x20, "JSR", .absolute, .call⟩) h.tables_eq h.size_eq (by decide) rfl
    rfl hroom

/-- And so can a return. -/
theorem HasStack.faces_ret {t : Int} (h : HasStack t m) {address : Nat} (hroom : address < 65536) :
    Faces .ret (placed m address [0x60]) :=
  faces_placed (e := ⟨0x60, "RTS", .implied, .ret⟩) h.tables_eq h.size_eq (by decide) rfl rfl
    hroom

/-- The last three bytes of memory call an address where there is a call too. The first return goes
behind the inner call, where there is another return, and that one goes to the first byte of memory.
The status is saved, overwritten and restored. -/
theorem calls_and_status_nest_ready :
    let outer := placed ready 0xFFFD [0x20, 0x12, 0x34]
    let inner := placed (architecture.step outer).2 0x1234 [0x20, 0x20, 0x00]
    let fromInner := placed (architecture.step inner).2 0x2000 [0x60]
    let fromOuter := placed (architecture.step fromInner).2 0x1237 [0x60]
    let saving := placed ready 0x1000 [0x08]
    let restoring := placed ((architecture.step saving).2.edit (.register psr 0xFF)) 0x1001 [0x28]
    ((∀ n ∈ [outer, inner, fromInner, fromOuter], Succeeds n) ∧
      architecture.pcOf (architecture.step fromInner).2 = 0x1237 ∧
      architecture.pcOf (architecture.step fromOuter).2 = 0 ∧
      (architecture.step fromOuter).2.cpu.register sp = 511) ∧
    restoring.cpu.register psr = 255 ∧ (architecture.step restoring).2.cpu.register psr = 0 := by
  intro outer inner fromInner fromOuter saving restoring
  obtain ⟨htables, hsize, -⟩ := hasStack_ready
  constructor
  · obtain ⟨hstack, hmirrored⟩ := placed_ready (show 511 < 0xFFFD by decide) [0x20, 0x12, 0x34]
    have hcall : Faces .call outer := hasStack_ready.faces_call (by decide) _ _
    have hnone : Stacked 511 [] (507 + 2 + 2) outer := ⟨hstack, rfl⟩
    obtain ⟨-, hone⟩ := hnone.call (by decide) hcall
    have hcall' : Faces .call inner := hone.pointed.faces_call (by decide) _ _
    have hleft : Undisturbed 511 (architecture.step outer).2 inner :=
      undisturbed_placed hone.pointed.tables_eq (by decide) _
    obtain ⟨-, htwo⟩ := (hone.undisturbed (by decide) hleft).call (by decide) hcall'
    have hret : Faces .ret fromInner := htwo.pointed.faces_ret (by decide)
    have hleft' : Undisturbed 511 (architecture.step inner).2 fromInner :=
      undisturbed_placed htwo.pointed.tables_eq (by decide) _
    obtain ⟨-, -, hback⟩ := (htwo.undisturbed (by decide) hleft').ret (by decide) hret
    have hret' : Faces .ret fromOuter := hback.pointed.faces_ret (by decide)
    have hleft'' : Undisturbed 511 (architecture.step fromInner).2 fromOuter :=
      undisturbed_placed hback.pointed.tables_eq (by decide) _
    have hcalls : Visits 511 .call [outer, inner] outer (architecture.step inner).2 :=
      .step (.refl _ _) hcall (.step hleft hcall' (.idle (.refl _ _)))
    have hreturns : Visits 511 .ret [fromInner, fromOuter] (architecture.step inner).2
        (architecture.step fromOuter).2 :=
      .step hleft' hret (.step hleft'' hret' (.idle (.refl _ _)))
    obtain ⟨hsucceed, hresume, hpointer⟩ :=
      (calls_and_status_nest hmirrored hstack.size_eq (hstack.register_sp (by decide))
        (by decide)).1 (by simp) (by simp) hcalls hreturns
    have hpc : architecture.pcOf outer = (0xFFFD : Nat) := pcOf_placed htables (by decide) _
    have hpc' : architecture.pcOf inner = (0x1234 : Nat) :=
      pcOf_placed hone.pointed.tables_eq (by decide) _
    simp only [List.map_cons, List.map_nil, hpc, hpc', List.reverse_cons, List.reverse_nil,
      List.nil_append, List.cons_append, List.cons.injEq] at hresume
    exact ⟨hsucceed, hresume.1, hresume.2.1, hpointer⟩
  · obtain ⟨hstack, hmirrored⟩ := placed_ready (show 511 < 0x1000 by decide) [0x08]
    have hsave : Faces .pushStatus saving :=
      faces_placed (e := ⟨0x08, "PHP", .implied, .pushStatus⟩) htables hsize (by decide)
        rfl rfl (by decide)
    obtain ⟨m₁, hstep, hpushed, -⟩ := after_pushStatus (s := 510) hstack (by decide) hsave
    have hsaved : (architecture.step saving).2 = m₁ := congrArg Prod.snd hstep
    have hpointed : HasStack (510 : Nat) (architecture.step saving).2 := hsaved ▸ hpushed
    obtain ⟨htables', hsize', -⟩ := hpointed.setRegister (i := psr) (by decide) 0xFF
    have hrestore : Faces .pullStatus restoring :=
      faces_placed (e := ⟨0x28, "PLP", .implied, .pullStatus⟩) htables' hsize' (by decide)
        rfl rfl (by decide)
    have hleft : Undisturbed 511 (architecture.step saving).2 restoring :=
      (undisturbed_edit hpointed.tables_eq (by decide) 0xFF).trans
        (undisturbed_placed htables' (by decide) _)
    obtain ⟨-, -, hpsr, -⟩ :=
      (calls_and_status_nest hmirrored hstack.size_eq (hstack.register_sp (by decide))
        (by decide)).2 (by decide) hsave hleft hrestore
    have hoverwritten : restoring.cpu.register psr = 255 := by
      have hwritten (m : Machine) (h : m.cpu.tables = (registers, indicators)) :
          (m.edit (.register psr 0xFF)).cpu.register psr = 255 := (setRegister_psr h 0xFF).1
      rw [register_placed htables' (by decide), hwritten _ hpointed.tables_eq]
    have hzero : saving.cpu.register psr = 0 := by decide
    exact ⟨hoverwritten, hpsr.trans hzero⟩

end Breadboard.Mos6502
