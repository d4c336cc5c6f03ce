import Breadboard.Proofs.Assembler.Loading
import Breadboard.Proofs.Board.Reset

/-!
# What a board refuses to execute

A board has an entry point only while a program without problems is loaded that was assembled for
its memory (`Sound`). Every command keeps this (`Sound.session`), and such a program can always be
stored again, so a reset never fails (`Sound.reset`). A load that fails leaves a blank machine, the
program with its problems, and no entry point (`load_eq_of_error`). From then on nothing is executed
until a load succeeds (`session_refuses`).
-/

namespace Breadboard

namespace Program

variable {arch : Architecture} {source : String} {memorySize : Nat} {m m' : Machine}

/-- A program that was loaded has no problem, and it was loaded at its entry point. -/
theorem of_load_eq_ok {p : Program} {entry : Int} (h : p.load m = (.ok entry, m')) :
    p.isOk = true ∧ p.entryPoint? = some entry := by
  rw [load] at h
  split at h
  next => simp at h
  next hok =>
    split at h
    next => simp at h
    next entry' hentry =>
      split at h
      next => simp at h
      next =>
        obtain rfl : entry' = entry := by simpa using congrArg Prod.fst h
        exact ⟨by simpa using hok, hentry⟩

/-- An assembled program that is refused is refused before anything is written. -/
theorem eq_of_load_eq_error {e : LoadError} (hm : memorySize ≤ m.memory.size)
    (h : (assemble arch source memorySize).load m = (.error e, m')) : m' = m := by
  cases hok : (assemble arch source memorySize).isOk with
  | false =>
    rw [load_of_not_isOk hok] at h
    exact (congrArg Prod.snd h).symm
  | true =>
    cases hentry : (assemble arch source memorySize).entryPoint? with
    | none =>
      simp only [load, hok, hentry] at h
      exact (congrArg Prod.snd h).symm
    | some entry =>
      -- without problems nothing is refused
      obtain ⟨_, hload, -, -⟩ := load_of_forall_errors (isOk_eq_true_iff.1 hok) hentry hm
      simp [hload] at h

end Program

namespace Board

variable {b : Board}

/-! ## What an entry point means -/

/-- If there is an entry point, it is that of the program, which has no problems and was assembled
for this memory. -/
def Sound (b : Board) : Prop :=
  ∀ entry, b.entry = some entry →
    ∃ source, let p := Program.assemble b.arch source b.machine.memory.size
      b.program = some p ∧ p.isOk = true ∧ p.entryPoint? = some entry

theorem sound_of_entry_eq_none (h : b.entry = none) : Sound b := by
  intro entry hentry
  simp [h] at hentry

/-- A load that fails leaves the blank machine and the program with its problems. -/
theorem load_eq_of_error {source : String} {e : LoadError} (h : (b.load source).1 = .error e) :
    (b.load source).2 =
      { b with machine := b.blank,
               program := some (Program.assemble b.arch source b.machine.memory.size),
               entry := none } := by
  rw [load] at h ⊢
  dsimp only at h ⊢
  rw [size_blank] at h ⊢
  split at h
  next e m hrun =>
    obtain rfl := Program.eq_of_load_eq_error (Nat.le_of_eq (size_blank b).symm) hrun
    rfl
  next entry m hrun => simp at h

theorem sound_load (b : Board) (source : String) : Sound (b.load source).2 := by
  cases hload : (b.load source).1 with
  | error e =>
    rw [load_eq_of_error hload]
    exact sound_of_entry_eq_none rfl
  | ok entry =>
    obtain ⟨m, hrun, hloaded⟩ := load_eq_of_ok hload
    obtain ⟨hok, hstart⟩ := Program.of_load_eq_ok hrun
    intro entry' hentry
    rw [arch_load, size_load]
    rw [hloaded] at hentry ⊢
    obtain rfl := Option.some.inj hentry
    exact ⟨source, rfl, hok, hstart⟩

theorem Sound.execute (h : Sound b) (c : Command) : Sound (b.execute c) := by
  cases hc : c.isLoad with
  | false =>
    obtain ⟨m, hm⟩ := exists_execute_eq (b := b) hc
    have hsize : (b.execute c).machine.memory.size = b.machine.memory.size :=
      size_session b [c]
    intro entry hentry
    rw [Board.arch_execute, hsize]
    rw [hm] at hentry ⊢
    exact h entry hentry
  | true =>
    cases c with
    | load source =>
      rw [Board.execute]
      exact sound_load b source
    | _ => simp [Command.isLoad] at hc

theorem Sound.session (h : Sound b) (commands : List Command) : Sound (b.session commands) := by
  induction commands generalizing b with
  | nil => exact h
  | cons c rest ih => exact ih (h.execute c)

/-- A reset of a sound board does not fail. -/
theorem Sound.reset (h : Sound b) : b.reset.1 = .ok () := by
  cases hentry : b.entry with
  | none => simp [Board.reset, hentry]
  | some entry =>
    obtain ⟨source, hprogram, hok, hstart⟩ := h entry hentry
    obtain ⟨m, hload, -⟩ := Program.load_of_forall_errors (Program.isOk_eq_true_iff.1 hok) hstart
      (Nat.le_of_eq (size_blank b).symm)
    rw [reset_eq_of_load hprogram hentry hload]

/-! ## After a load that failed -/

/-- The command is not a load, or a load that fails. -/
def loadsNothing (b : Board) : Command → Bool
  | .load source => ! (b.load source).1.isOk
  | _ => true

/-- No command of a session is a load that succeeds. -/
def neverLoads (b : Board) : List Command → Bool
  | [] => true
  | c :: rest => b.loadsNothing c && (b.execute c).neverLoads rest

/-- Without a load that succeeds there is no entry point. -/
theorem entry_execute_eq_none (h : b.entry = none) {c : Command}
    (hc : b.loadsNothing c = true) : (b.execute c).entry = none := by
  cases hload : c.isLoad with
  | false =>
    obtain ⟨m, hm⟩ := exists_execute_eq (b := b) hload
    rw [hm, h]
  | true =>
    cases c with
    | load source =>
      rw [execute]
      cases hresult : (b.load source).1 with
      | error e => rw [load_eq_of_error hresult]
      | ok entry => simp [loadsNothing, hresult, Except.isOk, Except.toBool] at hc
    | _ => simp [Command.isLoad] at hload

theorem entry_session_eq_none (h : b.entry = none) {commands : List Command}
    (hnone : b.neverLoads commands = true) : (b.session commands).entry = none := by
  induction commands generalizing b with
  | nil => exact h
  | cons c rest ih =>
    rw [neverLoads, Bool.and_eq_true] at hnone
    exact ih (entry_execute_eq_none h hnone.1) hnone.2

/-- Without an entry point a run of at least one step does nothing. -/
theorem run_of_entry_eq_none (h : b.entry = none) {limit : Nat} (hlimit : 0 < limit) :
    b.run limit = (.error .noProgram, b) := by
  obtain ⟨n, rfl⟩ := Nat.exists_eq_succ_of_ne_zero (Nat.ne_of_gt hlimit)
  rw [run, runFrom, step_of_entry_eq_none h]

/-- A board is built with its processor fresh from a reset. -/
theorem cpu_blank_of_buildOn {arch : Architecture} {config : BoardConfig}
    (hb : buildOn arch config = .ok b) : b.blank.cpu = b.machine.cpu := by
  obtain ⟨controller, -, -, rfl⟩ := exists_of_buildOn hb
  exact arch.cpu_reset_eq_of_tables (arch.tables_reset _)

/-- Until a load succeeds, steps and runs are refused and change nothing, and the program stays
until the next load. -/
theorem idle_of_neverLoads (h : b.entry = none) {later : List Command}
    (hlater : b.neverLoads later = true) :
    let idle := b.session later
    idle.step = (.error .noProgram, idle) ∧
      (∀ limit, 0 < limit → idle.run limit = (.error .noProgram, idle)) ∧
      ((∀ c ∈ later, c.isLoad = false) → idle.program = b.program) := by
  intro idle
  have hidle : idle.entry = none := entry_session_eq_none h hlater
  refine ⟨step_of_entry_eq_none hidle, fun limit => run_of_entry_eq_none hidle, fun hload => ?_⟩
  obtain ⟨m, hm⟩ : ∃ m, idle = { b with machine := m } := exists_session_eq hload
  rw [hm]

/-- In every state that a session can reach, an entry point is that of a stored program without
problems, and a reset does not fail. After a load that fails, memory is zero, the processor is as it
was when the board was built, fresh from a reset, and the program can be read until the next load.
Until a load succeeds, whatever else is done, steps and runs are refused and change nothing. -/
theorem session_refuses {arch : Architecture} {config : BoardConfig} {b : Board}
    (hb : buildOn arch config = .ok b) (commands : List Command) :
    let now := b.session commands
    (∀ entry, now.entry = some entry →
        ∃ p, now.program = some p ∧ p.isOk = true ∧ p.entryPoint? = some entry) ∧
      now.reset.1 = .ok () ∧
      ∀ source e, (now.load source).1 = .error e →
        let failed := (now.load source).2
        failed.machine.memory = .zeroed b.machine.memory.size ∧
          failed.machine.cpu = b.machine.cpu ∧
          failed.program = some (Program.assemble arch source b.machine.memory.size) ∧
          ∀ later, failed.neverLoads later = true →
            let idle := failed.session later
            idle.step = (.error .noProgram, idle) ∧
              (∀ limit, 0 < limit → idle.run limit = (.error .noProgram, idle)) ∧
              ((∀ c ∈ later, c.isLoad = false) → idle.program = failed.program) := by
  intro now
  have hbuilt : b.entry = none ∧ b.arch = arch := by
    obtain ⟨controller, -, -, rfl⟩ := exists_of_buildOn hb
    exact ⟨rfl, rfl⟩
  have hsound : Sound now := (sound_of_entry_eq_none hbuilt.1).session commands
  refine ⟨?_, hsound.reset, ?_⟩
  · intro entry hentry
    obtain ⟨source, hprogram, hok, hstart⟩ := hsound entry hentry
    exact ⟨_, hprogram, hok, hstart⟩
  · intro source e herror failed
    have harch : now.arch = b.arch := arch_session b commands
    have hsize : now.machine.memory.size = b.machine.memory.size := size_session b commands
    have hblank : now.blank.cpu = b.blank.cpu := cpu_blank_congr harch (tables_session b commands)
    have hfailed : failed = _ := load_eq_of_error herror
    have hnone : failed.entry = none := by rw [hfailed]
    refine ⟨?_, ?_, ?_, ?_⟩
    · rw [hfailed]
      dsimp only
      rw [memory_blank, hsize]
    · rw [hfailed]
      dsimp only
      rw [hblank, cpu_blank_of_buildOn hb]
    · rw [hfailed, harch, hbuilt.2, hsize]
    · intro later hlater
      exact idle_of_neverLoads hnone hlater

/-- A program is loaded and executed, then one that lacks an operand takes its place. -/
theorem session_refuses_edu1 :
    ∃ b, buildOn Edu1.architecture ⟨"edu1", .bytes 16, []⟩ = .ok b ∧
      let now := b.session [.load "MOVA #5\n.END\n", .run 1, .write 9 1 7]
      let failed := (now.load "MOVA #5\nLDA\n").2
      let idle := failed.session [.write 3 1 7, .load "JMP\n", .edit (.register 1 2)]
      now.entry = some 0 ∧ now.reset.1 = .ok () ∧
        failed.machine.memory = .zeroed 16 ∧ failed.machine.cpu = b.machine.cpu ∧
        idle.step = (.error .noProgram, idle) ∧ idle.run 100 = (.error .noProgram, idle) := by
  obtain ⟨b, hb, hsize, hentry, ⟨e, herror⟩, hlater⟩ :
      ∃ b, buildOn Edu1.architecture ⟨"edu1", .bytes 16, []⟩ = .ok b ∧
        b.machine.memory.size = 16 ∧
        let now := b.session [.load "MOVA #5\n.END\n", .run 1, .write 9 1 7]
        now.entry = some 0 ∧ (∃ e, (now.load "MOVA #5\nLDA\n").1 = .error e) ∧
          (now.load "MOVA #5\nLDA\n").2.neverLoads
            [.write 3 1 7, .load "JMP\n", .edit (.register 1 2)] = true :=
    ⟨_, rfl, by decide, by decide,
      ⟨.assembly [⟨2, .operandMismatch "LDA"⟩], by decide⟩, by decide⟩
  obtain ⟨-, hreset, hfailed⟩ :=
    session_refuses hb [.load "MOVA #5\n.END\n", .run 1, .write 9 1 7]
  obtain ⟨hmemory, hcpu, -, hidle⟩ := hfailed _ e herror
  obtain ⟨hstep, hrun, -⟩ := hidle _ hlater
  rw [hsize] at hmemory
  exact ⟨b, hb, hentry, hreset, hmemory, hcpu, hstep, hrun 100 (by decide)⟩

end Board

end Breadboard
