import Breadboard.Proofs.Board.Session
import Breadboard.Proofs.Device.Isolation

/-!
# Devices do not influence a board

Two boards with the same architecture and program, whose machines agree, answer every command alike
and agree after it (`Agree.execute`, `Agree.answer`): loading assembles for the size of memory,
which is the same, and everything else is done by the processor. Boards that differ only in their
devices agree when they are built, so no session tells them apart (`session_agree_of_buildOn`).
-/

namespace Breadboard

namespace Board

/-! ## What a command returns -/

/-- What the user is told after a command. -/
inductive Answer where
  | loaded (result : Except LoadError Int)
  | stepped (result : Except BoardError Bool)
  | ran (result : Except BoardError RunOutcome)
  | reset (result : Except LoadError Unit)
  | written (result : Except BoundsError Unit)
  /-- Edits and the removal of devices return nothing and cannot fail. -/
  | done
  deriving DecidableEq, Repr

/-- What the board answers to a command. -/
def answer (b : Board) : Command → Answer
  | .load source => .loaded (b.load source).1
  | .step => .stepped b.step.1
  | .run limit => .ran (b.run limit).1
  | .reset => .reset b.reset.1
  | .edit _ => .done
  | .write address length value => .written (b.machine.write address length value).1
  | .teardown => .done

/-! ## Boards that agree -/

/-- The boards differ at most in their devices and in what these were given. -/
structure Agree (b b' : Board) : Prop where
  arch : b.arch = b'.arch
  machine : b.machine.Agree b'.machine
  program : b.program = b'.program
  entry : b.entry = b'.entry

namespace Agree

variable {b b' : Board}

theorem blank (h : b.Agree b') : b.blank.Agree b'.blank := by
  rw [Board.blank, Board.blank, h.arch]
  exact h.machine.clearMemory.reset b'.arch

/-- Both boards assemble the same program, for the same size of memory. -/
theorem load (h : b.Agree b') (source : String) :
    SameOutcome Agree (b.load source) (b'.load source) := by
  rw [Board.load, Board.load, h.arch, h.blank.memory]
  dsimp only
  rcases (h.blank.load (Program.assemble b'.arch source b'.blank.memory.size)).cases with
    ⟨e, m, m', hx, hy, hsame⟩ | ⟨entry, m, m', hx, hy, hsame⟩
  · rw [hx, hy]
    exact ⟨rfl, rfl, hsame, rfl, rfl⟩
  · rw [hx, hy]
    exact ⟨rfl, rfl, (hsame.setPc b'.arch entry).edit _, rfl, rfl⟩

theorem step (h : b.Agree b') : SameOutcome Agree b.step b'.step := by
  obtain ⟨arch, config, m, program, entry⟩ := b
  obtain ⟨arch', config', m', program', entry'⟩ := b'
  obtain ⟨rfl, hmachine, rfl, rfl⟩ := h
  cases entry with
  | none => exact ⟨rfl, rfl, hmachine, rfl, rfl⟩
  | some entry =>
    rw [Board.step, Board.step]
    dsimp only
    rcases (hmachine.step arch).cases with
      ⟨e, m₁, m₂, hx, hy, hsame⟩ | ⟨ended, m₁, m₂, hx, hy, hsame⟩
    · rw [hx, hy]
      exact ⟨rfl, rfl, hsame, rfl, rfl⟩
    · rw [hx, hy]
      exact ⟨rfl, rfl, hsame, rfl, rfl⟩

theorem runFrom (h : b.Agree b') (done limit : Nat) :
    SameOutcome Agree (Board.runFrom done limit b) (Board.runFrom done limit b') := by
  induction limit generalizing done b b' with
  | zero => exact ⟨rfl, h⟩
  | succ limit ih =>
    rw [Board.runFrom, Board.runFrom]
    rcases h.step.cases with ⟨e, b₁, b₂, hx, hy, hsame⟩ | ⟨ended, b₁, b₂, hx, hy, hsame⟩
    · rw [hx, hy]
      exact ⟨rfl, hsame⟩
    · rw [hx, hy]
      cases ended with
      | true => exact ⟨rfl, hsame⟩
      | false => exact ih hsame (done + 1)

theorem reset (h : b.Agree b') : SameOutcome Agree b.reset b'.reset := by
  have hblank := h.blank
  obtain ⟨arch, config, m, program, entry⟩ := b
  obtain ⟨arch', config', m', program', entry'⟩ := b'
  obtain ⟨rfl, hmachine, rfl, rfl⟩ := h
  rw [Board.reset, Board.reset]
  dsimp only
  split
  next _ _ p _ =>
    rcases (hblank.load p).cases with ⟨e, m₁, m₂, hx, hy, hsame⟩ | ⟨start, m₁, m₂, hx, hy, hsame⟩
    · rw [hx, hy]
      exact ⟨rfl, rfl, hsame, rfl, rfl⟩
    · rw [hx, hy]
      exact ⟨rfl, rfl, (hsame.setPc arch start).edit _, rfl, rfl⟩
  next => exact ⟨rfl, rfl, hblank.edit _, rfl, rfl⟩

/-! ## Commands and sessions -/

/-- Boards that agree answer alike. -/
theorem answer (h : b.Agree b') (c : Command) : b.answer c = b'.answer c := by
  cases c with
  | load source => exact congrArg Answer.loaded (h.load source).1
  | step => exact congrArg Answer.stepped h.step.1
  | run limit => exact congrArg Answer.ran (h.runFrom 0 limit).1
  | reset => exact congrArg Answer.reset h.reset.1
  | edit change => rfl
  | write address length value =>
    exact congrArg Answer.written (h.machine.write address length value).1
  | teardown => rfl

/-- Whatever a command does, and also if it fails, boards that agree agree after it. -/
theorem execute (h : b.Agree b') (c : Command) : (b.execute c).Agree (b'.execute c) := by
  cases c with
  | load source => exact (h.load source).2
  | step => exact h.step.2
  | run limit => exact (h.runFrom 0 limit).2
  | reset => exact h.reset.2
  | edit change => exact ⟨h.arch, h.machine.edit change, h.program, h.entry⟩
  | write address length value =>
    exact ⟨h.arch, (h.machine.write address length value).2, h.program, h.entry⟩
  | teardown => exact ⟨h.arch, h.machine.detachAll, h.program, h.entry⟩

theorem session (h : b.Agree b') (commands : List Command) :
    (b.session commands).Agree (b'.session commands) := by
  induction commands generalizing b b' with
  | nil => exact h
  | cons c rest ih => exact ih (h.execute c)

end Agree

/-- Boards for the same architecture and size of memory agree, whatever devices they have. -/
theorem agree_of_buildOn {arch : Architecture} {config config' : BoardConfig} {b b' : Board}
    (hmemory : config.memory = config'.memory) (hb : buildOn arch config = .ok b)
    (hb' : buildOn arch config' = .ok b') : b.Agree b' := by
  obtain ⟨controller, -, -, rfl⟩ := exists_of_buildOn hb
  obtain ⟨controller', -, -, rfl⟩ := exists_of_buildOn hb'
  rw [hmemory]
  have hfresh : Machine.Agree
      ⟨arch.freshCpu, .zeroed (config'.memory.resolve arch.sizes.address), [controller], []⟩
      ⟨arch.freshCpu, .zeroed (config'.memory.resolve arch.sizes.address), [controller'], []⟩ :=
    ⟨rfl, rfl, rfl⟩
  have hreset := hfresh.reset arch
  exact ⟨rfl, ⟨hreset.cpu, hreset.memory, rfl⟩, rfl, rfl⟩

/-- Attached devices never influence what a board does: after every session, two boards built with
the same size of memory and with any devices answer the next command alike, and they have the same
registers, indicators, end latch, memory, program and entry point. Their processors and memories
told the same events. -/
theorem session_agree_of_buildOn {arch : Architecture} (config : BoardConfig)
    {devices devices' : List Descriptor} {b b' : Board}
    (hb : buildOn arch { config with devices := devices } = .ok b)
    (hb' : buildOn arch { config with devices := devices' } = .ok b')
    (commands : List Command) (c : Command) :
    (b.session commands).answer c = (b'.session commands).answer c ∧
      (b.session commands).machine.cpu = (b'.session commands).machine.cpu ∧
      (b.session commands).machine.memory = (b'.session commands).machine.memory ∧
      (b.session commands).program = (b'.session commands).program ∧
      (b.session commands).entry = (b'.session commands).entry ∧
      (b.session commands).machine.ownEvents = (b'.session commands).machine.ownEvents := by
  have hagree := (agree_of_buildOn (by rfl) hb hb').session commands
  exact ⟨hagree.answer c, hagree.machine.cpu, hagree.machine.memory, hagree.program, hagree.entry,
    hagree.machine.events⟩

/-- A program lights a lamp of a panel; without the panel it does the same. -/
theorem session_agree_of_buildOn_edu1 :
    ∃ b b', buildOn Edu1.architecture ⟨"edu1", .bytes 16, [⟨"Led display", ["8", "9"]⟩]⟩ = .ok b ∧
      buildOn Edu1.architecture ⟨"edu1", .bytes 16, []⟩ = .ok b' ∧
      let now := b.session [.load "MOVA #5\nSTA 9\n.END\n", .run 2]
      let now' := b'.session [.load "MOVA #5\nSTA 9\n.END\n", .run 2]
      now.machine.devices.map Panel.value = [5] ∧ now'.machine.devices = [] ∧
        now.answer .step = now'.answer .step ∧ now.machine.cpu = now'.machine.cpu ∧
        now.machine.memory = now'.machine.memory ∧
        now.machine.ownEvents = now'.machine.ownEvents := by
  obtain ⟨b, b', hb, hb', hshown, hbare⟩ :
      ∃ b b', buildOn Edu1.architecture ⟨"edu1", .bytes 16, [⟨"Led display", ["8", "9"]⟩]⟩ = .ok b ∧
        buildOn Edu1.architecture ⟨"edu1", .bytes 16, []⟩ = .ok b' ∧
        let now := b.session [.load "MOVA #5\nSTA 9\n.END\n", .run 2]
        let now' := b'.session [.load "MOVA #5\nSTA 9\n.END\n", .run 2]
        now.machine.devices.map Panel.value = [5] ∧ now'.machine.devices = [] :=
    ⟨_, _, rfl, rfl, by decide, by decide⟩
  obtain ⟨hanswer, hcpu, hmemory, -, -, hevents⟩ :=
    session_agree_of_buildOn ⟨"edu1", .bytes 16, []⟩ hb hb'
      [.load "MOVA #5\nSTA 9\n.END\n", .run 2] .step
  exact ⟨b, b', hb, hb', hshown, hbare, hanswer, hcpu, hmemory, hevents⟩

end Board

end Breadboard
