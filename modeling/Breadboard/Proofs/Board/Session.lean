import Breadboard.Board
import Breadboard.Proofs.Machine

/-!
# Sessions

A session is a sequence of commands given to a board (`session`). Apart from loading, no command
changes anything but the machine (`exists_session_eq`), and no command changes the architecture.
A command that loads or resets first zeroes memory (`ground`); after that it does to the machine
what a processor can do, so it keeps what a processor keeps (`Kept.execute`, `Kept.session`).
-/

namespace Breadboard

namespace Board

/-! ## Commands -/

/-- What a user can do to a board. -/
inductive Command where
  | load (source : String)
  | step
  | run (limit : Nat)
  | reset
  /-- Edits a register, an indicator or the end latch. -/
  | edit (change : Cpu.Edit)
  /-- Writes to memory. -/
  | write (address : Int) (length : Nat) (value : Int)
  /-- Removes all devices. -/
  | teardown
  deriving DecidableEq, Repr

/-- The command loads a program. -/
def Command.isLoad : Command → Bool
  | .load _ => true
  | _ => false

/-- The command zeroes memory. -/
def Command.clears : Command → Bool
  | .load _ | .reset => true
  | _ => false

/-- The board after a command, whether it succeeds or fails. -/
def execute (b : Board) : Command → Board
  | .load source => (b.load source).2
  | .step => b.step.2
  | .run limit => (b.run limit).2
  | .reset => b.reset.2
  | .edit change => { b with machine := b.machine.edit change }
  | .write address length value => { b with machine := (b.machine.write address length value).2 }
  | .teardown => b.teardown

/-- The board after commands in order. -/
def session (b : Board) (commands : List Command) : Board := commands.foldl execute b

/-- The machine that a command starts from: with memory zeroed if the command does so first. -/
def ground (b : Board) (c : Command) : Machine :=
  if c.clears then b.machine.clearMemory else b.machine

variable {b : Board} {c : Command}

@[simp] theorem session_nil (b : Board) : b.session [] = b := rfl

@[simp] theorem session_cons (b : Board) (c : Command) (commands : List Command) :
    b.session (c :: commands) = (b.execute c).session commands := rfl

/-! ## Building -/

/-- A board is built with zeroed memory, a fresh processor that was reset, one controller with the
devices asked for, whose windows lie inside memory, and no program. -/
theorem exists_of_buildOn {arch : Architecture} {config : BoardConfig} {b : Board}
    (h : buildOn arch config = .ok b) :
    let size := config.memory.resolve arch.sizes.address
    ∃ controller, ({} : Controller).attachAll config.devices = .ok controller ∧
      controller.checkWindows size = .ok () ∧
      b = { arch, config,
            machine := (arch.reset
              ⟨arch.freshCpu, .zeroed size, [controller], []⟩).forget } := by
  intro size
  rw [buildOn] at h
  dsimp only at h
  split at h
  next e hattach => simp at h
  next controller hattach =>
    split at h
    next e hcheck => simp at h
    next hcheck => exact ⟨controller, hattach, hcheck, (Except.ok.inj h).symm⟩

/-! ## What is not part of the machine -/

theorem exists_step_eq (b : Board) : ∃ m, b.step.2 = { b with machine := m } := by
  rw [step]
  split
  · exact ⟨_, rfl⟩
  · split
    · exact ⟨_, rfl⟩
    · exact ⟨_, rfl⟩

theorem exists_runFrom_eq (done limit : Nat) (b : Board) :
    ∃ m, (runFrom done limit b).2 = { b with machine := m } := by
  induction limit generalizing done b with
  | zero => exact ⟨_, rfl⟩
  | succ limit ih =>
    obtain ⟨m, hstep⟩ := exists_step_eq b
    rw [runFrom]
    generalize b.step = outcome at hstep ⊢
    rcases outcome with ⟨e | ended, b'⟩
    · exact ⟨m, hstep⟩
    · obtain rfl : b' = { b with machine := m } := hstep
      cases ended with
      | true => exact ⟨m, rfl⟩
      | false => exact ih (done + 1) _

theorem exists_reset_eq (b : Board) : ∃ m, b.reset.2 = { b with machine := m } := by
  rw [reset]
  split
  · split
    · exact ⟨_, rfl⟩
    · exact ⟨_, rfl⟩
  · exact ⟨_, rfl⟩

/-- Unless it loads, a command changes the machine only. -/
theorem exists_execute_eq (h : c.isLoad = false) :
    ∃ m, b.execute c = { b with machine := m } := by
  cases c with
  | load source => simp [Command.isLoad] at h
  | step => exact exists_step_eq b
  | run limit => exact exists_runFrom_eq 0 limit b
  | reset => exact exists_reset_eq b
  | edit change => exact ⟨_, rfl⟩
  | write address length value => exact ⟨_, rfl⟩
  | teardown => exact ⟨_, rfl⟩

/-- Without loading, a session changes the machine only. -/
theorem exists_session_eq {commands : List Command} (h : ∀ c ∈ commands, c.isLoad = false) :
    ∃ m, b.session commands = { b with machine := m } := by
  induction commands generalizing b with
  | nil => exact ⟨_, rfl⟩
  | cons c rest ih =>
    obtain ⟨m, hfirst⟩ := exists_execute_eq (b := b) (h c List.mem_cons_self)
    rw [session_cons, hfirst]
    exact ih fun k hk => h k (List.mem_cons_of_mem _ hk)

theorem arch_load (b : Board) (source : String) : (b.load source).2.arch = b.arch := by
  rw [load]
  dsimp only
  split <;> rfl

@[simp] theorem arch_execute (b : Board) (c : Command) : (b.execute c).arch = b.arch := by
  cases hc : c.isLoad with
  | false =>
    obtain ⟨m, hm⟩ := exists_execute_eq (b := b) hc
    rw [hm]
  | true =>
    cases c with
    | load source =>
      rw [execute]
      exact arch_load b source
    | _ => simp [Command.isLoad] at hc

@[simp] theorem arch_session (b : Board) (commands : List Command) :
    (b.session commands).arch = b.arch := by
  induction commands generalizing b with
  | nil => rfl
  | cons c rest ih => rw [session_cons, ih, arch_execute]

end Board

/-! ## What commands keep of the machine -/

namespace Machine.Kept

open Board

variable {P : Machine → Prop} (hP : Kept P) {b : Board}
include hP

theorem boardStep (h : P b.machine) : P b.step.2.machine := by
  rw [Board.step]
  split
  · exact h
  next =>
    have hstep := hP.step b.arch h
    generalize b.arch.step b.machine = outcome at hstep ⊢
    rcases outcome with ⟨e | ended, m'⟩
    · exact hstep
    · exact hstep

theorem boardRunFrom (done limit : Nat) (h : P b.machine) :
    P (runFrom done limit b).2.machine := by
  induction limit generalizing done b with
  | zero => exact h
  | succ limit ih =>
    have hstep := hP.boardStep h
    rw [runFrom]
    generalize b.step = outcome at hstep ⊢
    rcases outcome with ⟨e | ended, b'⟩
    · exact hstep
    · cases ended with
      | true => exact hstep
      | false => exact ih (done + 1) hstep

theorem boardLoad (source : String) (h : P b.machine.clearMemory) :
    P (b.load source).2.machine := by
  have hblank : P b.blank := hP.reset b.arch h
  have hload := hP.load (Program.assemble b.arch source b.blank.memory.size) hblank
  rw [Board.load]
  dsimp only
  generalize (Program.assemble b.arch source b.blank.memory.size).load b.blank = outcome
    at hload ⊢
  rcases outcome with ⟨e | entry, m'⟩
  · exact hload
  · exact hP.edit _ (hP.setPc b.arch entry hload)

theorem boardReset (h : P b.machine.clearMemory) : P b.reset.2.machine := by
  have hblank : P b.blank := hP.reset b.arch h
  rw [Board.reset]
  split
  next p _ _ _ =>
    have hload := hP.load p hblank
    generalize p.load b.blank = outcome at hload ⊢
    rcases outcome with ⟨e | entry, m'⟩
    · exact hload
    · exact hP.edit _ (hP.setPc b.arch entry hload)
  next => exact hP.edit _ hblank

/-- After memory was zeroed, if the command does so, it keeps what a processor keeps. -/
theorem execute (c : Command) (h : P (b.ground c)) : P (b.execute c).machine := by
  cases c with
  | load source =>
    rw [Board.execute]
    exact hP.boardLoad source h
  | step =>
    rw [Board.execute]
    exact hP.boardStep h
  | run limit =>
    rw [Board.execute]
    exact hP.boardRunFrom 0 limit h
  | reset =>
    rw [Board.execute]
    exact hP.boardReset h
  | edit change =>
    rw [Board.execute]
    exact hP.edit change h
  | write address length value =>
    rw [Board.execute]
    exact hP.write address length value h
  | teardown =>
    rw [Board.execute]
    exact hP.detach h

/-- What zeroing memory keeps as well, every session keeps. -/
theorem session (hclear : ∀ {m}, P m → P m.clearMemory) (commands : List Command)
    (h : P b.machine) : P (b.session commands).machine := by
  induction commands generalizing b with
  | nil => exact h
  | cons c rest ih =>
    apply ih
    apply hP.execute c
    rw [ground]
    split
    · exact hclear h
    · exact h

end Machine.Kept

namespace Board

/-- No session changes which registers and indicators there are. -/
theorem tables_session (b : Board) (commands : List Command) :
    (b.session commands).machine.cpu.tables = b.machine.cpu.tables :=
  ((Machine.kept_tables_size _ _).session (fun ⟨htables, hsize⟩ =>
    ⟨htables, (Memory.size_cleared _).trans hsize⟩) commands ⟨rfl, rfl⟩).1

/-- No session changes how large memory is. -/
theorem size_session (b : Board) (commands : List Command) :
    (b.session commands).machine.memory.size = b.machine.memory.size :=
  ((Machine.kept_tables_size b.machine.cpu.tables _).session (fun ⟨htables, hsize⟩ =>
    ⟨htables, (Memory.size_cleared _).trans hsize⟩) commands ⟨rfl, rfl⟩).2

theorem tables_load (b : Board) (source : String) :
    (b.load source).2.machine.cpu.tables = b.machine.cpu.tables := by
  have htables := tables_session b [.load source]
  rwa [session_cons, session_nil, execute] at htables

theorem size_load (b : Board) (source : String) :
    (b.load source).2.machine.memory.size = b.machine.memory.size := by
  have hsize := size_session b [.load source]
  rwa [session_cons, session_nil, execute] at hsize

end Board

end Breadboard
