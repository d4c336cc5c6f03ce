import Breadboard.Proofs.Board.Session
import Breadboard.Proofs.Cpu.Reset
import Breadboard.Proofs.Device.Hearing

/-!
# A reset loads again

Loading and resetting end in the same way: memory is zeroed, the processor is reset, and the program
is stored and started. Where this leads depends on which registers and indicators there are and on
how large memory is, and not on what they hold (`exists_started_eq`). No command but a load changes
any of this (`Holds.session`). So a reset brings a loaded board back to where it was after loading,
whatever was done to it in between, and a second reset changes nothing (`reset_session_of_load`).
-/

namespace Breadboard

namespace Board

/-! ## The machine that a program is stored in -/

@[simp] theorem memory_blank (b : Board) : b.blank.memory = .zeroed b.machine.memory.size := rfl

theorem size_blank (b : Board) : b.blank.memory.size = b.machine.memory.size :=
  Memory.size_cleared _

/-- The processor of the blank machine depends on the registers and indicators that there are. -/
theorem cpu_blank_congr {b b' : Board} (harch : b'.arch = b.arch)
    (htables : b'.machine.cpu.tables = b.machine.cpu.tables) : b'.blank.cpu = b.blank.cpu := by
  rw [blank, blank, harch]
  exact b.arch.cpu_reset_eq_of_tables htables

/-! ## Storing and starting -/

/-- The machine that executes the stored program from `entry` on. -/
def started (b : Board) (entry : Int) (m : Machine) : Machine :=
  (b.arch.setPc m entry).edit (.ended false)

/-- A load that succeeds stores the program in the blank machine and starts it. -/
theorem load_eq_of_ok {b : Board} {source : String} {entry : Int}
    (h : (b.load source).1 = .ok entry) :
    let p := Program.assemble b.arch source b.machine.memory.size
    ∃ m, p.load b.blank = (.ok entry, m) ∧
      (b.load source).2 =
        { b with machine := b.started entry m, program := some p, entry := some entry } := by
  intro p
  rw [load] at h ⊢
  dsimp only at h ⊢
  rw [size_blank] at h ⊢
  split at h
  next e m hrun => simp at h
  next entry' m hrun =>
    obtain rfl : entry' = entry := by simpa using h
    exact ⟨m, hrun, rfl⟩

/-- A reset of a board with a loaded program stores it in the blank machine and starts it. -/
theorem reset_eq_of_load {b : Board} {p : Program} {e entry : Int} {m : Machine}
    (hprogram : b.program = some p) (hentry : b.entry = some e)
    (h : p.load b.blank = (.ok entry, m)) :
    b.reset = (.ok (), { b with machine := b.started entry m }) := by
  simp only [reset, hprogram, hentry, h]
  rfl

theorem cpu_started (b : Board) (entry : Int) (m : Machine) :
    (b.started entry m).cpu =
      ((m.cpu.edit (.register b.arch.pc entry)).cpu.edit (.ended false)).cpu := rfl

/-- The board has the architecture, the registers and indicators and as much memory as `b`, and `p`
was loaded into it. -/
structure Holds (b : Board) (p : Program) (entry : Int) (b' : Board) : Prop where
  arch_eq : b'.arch = b.arch
  tables_eq : b'.machine.cpu.tables = b.machine.cpu.tables
  size_eq : b'.machine.memory.size = b.machine.memory.size
  program_eq : b'.program = some p
  entry_eq : b'.entry = some entry

/-- A session without another load keeps the program loaded. -/
theorem Holds.session {b b' : Board} {p : Program} {entry : Int} (h : Holds b p entry b')
    {commands : List Command} (hnone : ∀ c ∈ commands, c.isLoad = false) :
    Holds b p entry (b'.session commands) := by
  obtain ⟨m, hm⟩ := exists_session_eq (b := b') hnone
  refine ⟨?_, ?_, ?_, ?_, ?_⟩
  · rw [arch_session, h.arch_eq]
  · rw [tables_session, h.tables_eq]
  · rw [size_session, h.size_eq]
  · rw [hm, h.program_eq]
  · rw [hm, h.entry_eq]

theorem Holds.reset {b b' : Board} {p : Program} {entry : Int} (h : Holds b p entry b') :
    Holds b p entry b'.reset.2 := by
  have hnone : ∀ c ∈ [Command.reset], c.isLoad = false := by decide
  have hreset := h.session hnone
  rwa [session_cons, session_nil, execute] at hreset

/-- Where storing and starting a program leads does not depend on what registers, indicators and
memory hold. So a load and any later reset lead to the same register file and memory, and the
devices hear the same. -/
theorem exists_started_eq {b : Board} {p : Program} {entry : Int} {m : Machine}
    (h : p.load b.blank = (.ok entry, m)) :
    ∃ heard, ∀ b', Holds b p entry b' →
      ∃ journal, b'.reset =
        (.ok (), { b' with machine :=
          { cpu := (b.started entry m).cpu, memory := (b.started entry m).memory,
            controllers := b'.machine.controllers.map (·.hear heard), journal } }) := by
  obtain ⟨result, mem, heard, hload⟩ := p.exists_load_eq b.blank.memory
  obtain ⟨_, hfirst⟩ := hload b.blank rfl
  rw [h, Prod.mk.injEq] at hfirst
  obtain ⟨rfl, rfl⟩ := hfirst
  refine ⟨heard, fun b' hb' => ?_⟩
  -- the blank machines agree on memory and register file
  have hmemory : b'.blank.memory = b.blank.memory := by
    rw [memory_blank, memory_blank, hb'.size_eq]
  have hcpu : b'.blank.cpu = b.blank.cpu := cpu_blank_congr hb'.arch_eq hb'.tables_eq
  obtain ⟨journal, hrun⟩ := hload b'.blank hmemory
  let m' : Machine := ⟨b'.blank.cpu, mem, b'.machine.controllers.map (·.hear heard), journal⟩
  refine ⟨(b'.started entry m').journal, ?_⟩
  rw [reset_eq_of_load (m := m') hb'.program_eq hb'.entry_eq hrun, cpu_started, ← hcpu,
    ← hb'.arch_eq]
  rfl

/-- A reset brings a loaded board back to where it was after loading, whatever was done to it in
between. A second reset changes nothing more, not even what the devices show. -/
theorem reset_session_of_load {b : Board} {source : String} {entry : Int}
    (hload : (b.load source).1 = .ok entry) {commands : List Command}
    (hnone : ∀ c ∈ commands, c.isLoad = false) :
    let loaded := (b.load source).2
    let used := loaded.session commands
    let again := used.reset.2
    (used.reset.1 = .ok () ∧ again.machine.cpu = loaded.machine.cpu ∧
        again.arch.pcOf again.machine = loaded.arch.pcOf loaded.machine ∧
        again.machine.memory = loaded.machine.memory ∧ again.entry = loaded.entry ∧
        again.program = loaded.program) ∧
      again.reset.1 = .ok () ∧
      ∃ journal, again.reset.2 = { again with machine := { again.machine with journal } } := by
  obtain ⟨m, hrun, hloaded⟩ := load_eq_of_ok hload
  have hholds : Holds b (Program.assemble b.arch source b.machine.memory.size) entry
      (b.load source).2 :=
    ⟨arch_load b source, tables_load b source, size_load b source, by rw [hloaded],
      by rw [hloaded]⟩
  -- from here on it does not matter how the program and the board came about
  generalize Program.assemble b.arch source b.machine.memory.size = p at hrun hloaded hholds
  generalize (b.load source).2 = loaded at hloaded hholds
  intro _ used again
  obtain ⟨heard, hreset⟩ := exists_started_eq hrun
  have hused : Holds b p entry used := hholds.session hnone
  have hagain : Holds b p entry again := hused.reset
  obtain ⟨journal, hfirst⟩ := hreset used hused
  obtain ⟨journal', hsecond⟩ := hreset again hagain
  have hboard : again = { used with machine :=
      { cpu := (b.started entry m).cpu, memory := (b.started entry m).memory,
        controllers := used.machine.controllers.map (·.hear heard), journal } } :=
    congrArg Prod.snd hfirst
  have hcpu : again.machine.cpu = loaded.machine.cpu := by rw [hboard, hloaded]
  have hmem : again.machine.memory = loaded.machine.memory := by rw [hboard, hloaded]
  refine ⟨⟨by rw [hfirst], hcpu, ?_, hmem, ?_, ?_⟩, by rw [hsecond], journal', ?_⟩
  · rw [Architecture.pcOf, Architecture.pcOf, hcpu, hagain.arch_eq, hholds.arch_eq]
  · rw [hagain.entry_eq, hholds.entry_eq]
  · rw [hagain.program_eq, hholds.program_eq]
  -- the devices hear the same a second time
  · rw [hsecond, hboard]
    simp only [List.map_map, Function.comp_def, Controller.hear_hear_self]

/-- The session overwrites the program and then steps into an opcode that does not exist. -/
theorem reset_session_of_load_edu1 :
    ∃ b, build ⟨"edu1", .bytes 16, [⟨"Led display", ["8", "9"]⟩]⟩ = .ok b ∧
      let loaded := (b.load "MOVA #5\nSTA 9\n.END\n").2
      let used := loaded.session [.run 2, .write 0 1 255, .edit (.register 0 5), .step]
      let again := used.reset.2
      used.machine.memory.slice 0 10 = [255, 5, 3, 9, 255, 0, 0, 0, 0, 5] ∧
        used.reset.1 = .ok () ∧ again.machine.cpu = loaded.machine.cpu ∧
        again.machine.memory.slice 0 10 = [7, 5, 3, 9, 255, 0, 0, 0, 0, 0] ∧
        again.reset.1 = .ok () := by
  obtain ⟨b, hb, hload, hloaded, hused⟩ :
      ∃ b, build ⟨"edu1", .bytes 16, [⟨"Led display", ["8", "9"]⟩]⟩ = .ok b ∧
        (b.load "MOVA #5\nSTA 9\n.END\n").1 = .ok 0 ∧
        (b.load "MOVA #5\nSTA 9\n.END\n").2.machine.memory.slice 0 10 =
          [7, 5, 3, 9, 255, 0, 0, 0, 0, 0] ∧
        ((b.load "MOVA #5\nSTA 9\n.END\n").2.session
            [.run 2, .write 0 1 255, .edit (.register 0 5), .step]).machine.memory.slice 0 10 =
          [255, 5, 3, 9, 255, 0, 0, 0, 0, 5] :=
    ⟨_, rfl, by decide, by decide, by decide⟩
  have hnone : ∀ c ∈ [Command.run 2, .write 0 1 255, .edit (.register 0 5), .step],
      c.isLoad = false := by decide
  obtain ⟨⟨hreset, hcpu, -, hmem, -⟩, hagain, -⟩ := reset_session_of_load hload hnone
  refine ⟨b, hb, hused, hreset, hcpu, ?_, hagain⟩
  rw [hmem]
  exact hloaded

end Board

end Breadboard
