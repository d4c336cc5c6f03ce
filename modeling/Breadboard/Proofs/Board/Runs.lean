import Breadboard.Proofs.Board.Session
import Breadboard.Proofs.Processor.Journal

/-!
# Runs with a limit

A run takes steps until one of them fails or reports the end of the program, or until it has taken
as many as its limit allows (`Board.Stops`, `stops_run`). A run that is cut in two at its limit and
resumed comes to the same board and the same result as a run with both limits together, and the
steps add up (`run_add`). So a run that ended is not changed by a larger limit. The journal tells
that a run fetches one instruction for every step that it takes (`Stops.fetches`). The main
statement is `run_composes`.
-/

namespace Breadboard

namespace Board

/-! ## Runs in two parts -/

/-- What a run reports and the board that it leaves. -/
abbrev RunResult := Except BoardError RunOutcome × Board

namespace RunResult

/-- The result, where `done` steps were taken before. -/
def after (done : Nat) (r : RunResult) : RunResult :=
  (r.1.map fun o => { o with steps := done + o.steps }, r.2)

/-- A run that stopped at its limit goes on for up to `limit` steps, and any other is over. -/
def resume (limit : Nat) : RunResult → RunResult
  | (.ok ⟨done, false⟩, c) => after done (c.run limit)
  | r => r

theorem after_zero (r : RunResult) : after 0 r = r := by
  obtain ⟨outcome, c⟩ := r
  cases outcome with
  | error e => rfl
  | ok o => simp [after, Except.map]

theorem after_after (i j : Nat) (r : RunResult) : after i (after j r) = after (i + j) r := by
  obtain ⟨outcome, c⟩ := r
  cases outcome with
  | error e => rfl
  | ok o => simp [after, Except.map, Nat.add_assoc]

/-- Whether a run is over does not depend on the steps before it. -/
theorem resume_after (limit done : Nat) (r : RunResult) :
    resume limit (after done r) = after done (resume limit r) := by
  obtain ⟨outcome, c⟩ := r
  cases outcome with
  | error e => rfl
  | ok o =>
    obtain ⟨steps, ended⟩ := o
    cases ended with
    | true => rfl
    | false => exact (after_after done steps (c.run limit)).symm

end RunResult

open RunResult

variable {b c d : Board} {limit : Nat}

theorem run_zero (b : Board) : b.run 0 = (.ok ⟨0, false⟩, b) := rfl

/-- Steps taken before a run only count. -/
theorem runFrom_eq (done limit : Nat) (b : Board) :
    runFrom done limit b = after done (b.run limit) := by
  induction limit generalizing done b with
  | zero => rfl
  | succ limit ih =>
    rw [run, runFrom, runFrom]
    generalize b.step = outcome
    rcases outcome with ⟨e | ended, c⟩
    · rfl
    · cases ended with
      | true => rfl
      | false =>
        dsimp only
        rw [ih, ih, after_after, Nat.zero_add]

/-- A run takes one step, and goes on if the step neither failed nor reported the end. -/
theorem run_succ (limit : Nat) (b : Board) :
    b.run (limit + 1) =
      match b.step with
      | (.error e, c) => (.error e, c)
      | (.ok true, c) => (.ok ⟨1, true⟩, c)
      | (.ok false, c) => after 1 (c.run limit) := by
  rw [run, runFrom]
  generalize b.step = outcome
  rcases outcome with ⟨e | ended, c⟩
  · rfl
  · cases ended with
    | true => rfl
    | false => exact runFrom_eq _ _ _

/-- A run can be cut in two at any limit. -/
theorem run_add (b : Board) (n m : Nat) : b.run (n + m) = resume m (b.run n) := by
  induction n generalizing b with
  | zero => rw [Nat.zero_add, run_zero, resume, after_zero]
  | succ n ih =>
    rw [Nat.succ_add, run_succ, run_succ]
    generalize b.step = outcome
    rcases outcome with ⟨e | ended, c⟩
    · rfl
    · cases ended with
      | true => rfl
      | false =>
        dsimp only
        rw [ih, resume_after]

/-! ## Where a run stops -/

/-- `Goes k b c`: the board `b` comes to `c` by `k` steps of which none fails and none reports the
end of the program. -/
inductive Goes : Nat → Board → Board → Prop
  | refl (b : Board) : Goes 0 b b
  | step {k : Nat} {b c d : Board} (first : b.step = (.ok false, c)) (rest : Goes k c d) :
    Goes (k + 1) b d

/-- `Stops b limit taken outcome d`: after `taken` steps from `b`, of which `limit` are allowed,
there is a reason to stop at the board `d`: the limit is used up, the last step reported the end of
the program, or the last step failed. No step before the last one gave a reason to stop. -/
inductive Stops (b : Board) (limit : Nat) : Nat → Except BoardError RunOutcome → Board → Prop
  | atLimit {d : Board} (goes : Goes limit b d) : Stops b limit limit (.ok ⟨limit, false⟩) d
  | ended {k : Nat} {c d : Board} (within : k < limit) (goes : Goes k b c)
    (last : c.step = (.ok true, d)) : Stops b limit (k + 1) (.ok ⟨k + 1, true⟩) d
  | failed {k : Nat} {c d : Board} {e : BoardError} (within : k < limit) (goes : Goes k b c)
    (last : c.step = (.error e, d)) : Stops b limit (k + 1) (.error e) d

theorem Stops.taken_le {taken : Nat} {outcome : Except BoardError RunOutcome}
    (h : Stops b limit taken outcome d) : taken ≤ limit := by
  cases h with
  | atLimit goes => exact Nat.le_refl _
  | ended within goes last => exact within
  | failed within goes last => exact within

/-- One more step in front of a run moves its end by one step. -/
theorem Stops.cons {taken : Nat} {r : RunResult} (hstep : b.step = (.ok false, c))
    (h : Stops c limit taken r.1 r.2) :
    Stops b (limit + 1) (taken + 1) (after 1 r).1 (after 1 r).2 := by
  obtain ⟨outcome, d⟩ := r
  dsimp only at h
  cases h with
  | atLimit goes =>
    rw [after, Except.map, Nat.add_comm 1]
    exact .atLimit (.step hstep goes)
  | ended within goes last =>
    rw [after, Except.map, Nat.add_comm 1]
    exact .ended (Nat.succ_lt_succ within) (.step hstep goes) last
  | failed within goes last => exact .failed (Nat.succ_lt_succ within) (.step hstep goes) last

/-- Every run stops for one of these reasons, and its result tells which. -/
theorem stops_run (b : Board) (limit : Nat) :
    ∃ taken, Stops b limit taken (b.run limit).1 (b.run limit).2 := by
  induction limit generalizing b with
  | zero => exact ⟨0, .atLimit (.refl b)⟩
  | succ limit ih =>
    rw [run_succ]
    cases hstep : b.step with
    | mk result c =>
      rcases result with e | ended
      · exact ⟨1, .failed (Nat.succ_pos limit) (.refl b) hstep⟩
      · cases ended with
        | true => exact ⟨1, .ended (Nat.succ_pos limit) (.refl b) hstep⟩
        | false =>
          obtain ⟨taken, hstops⟩ := ih c
          exact ⟨taken + 1, hstops.cons hstep⟩

/-! ## What a run executes -/

/-- `Fetches k b c`: from `b` to `c` the journal tells of `k` instructions that are fetched. -/
def Fetches (k : Nat) (b c : Board) : Prop :=
  ∃ told, c.machine.events = b.machine.events ++ told ∧ told.countP Event.isFetch = k

theorem Fetches.refl (b : Board) : Fetches 0 b b := ⟨[], (List.append_nil _).symm, rfl⟩

theorem Fetches.trans {i j : Nat} (h : Fetches i b c) (h' : Fetches j c d) :
    Fetches (i + j) b d := by
  obtain ⟨told, htold, hcount⟩ := h
  obtain ⟨told', htold', hcount'⟩ := h'
  refine ⟨told ++ told', ?_, ?_⟩
  · rw [htold', htold, List.append_assoc]
  · rw [List.countP_append, hcount, hcount']

theorem entry_step (b : Board) : b.step.2.entry = b.entry := by
  obtain ⟨m, hm⟩ := exists_step_eq b
  rw [hm]

/-- The instructions that a step of a board fetches: one, if a program was loaded. -/
def fetchedByStep (b : Board) : Nat := if b.entry.isSome then 1 else 0

/-- A step fetches one instruction, whether it succeeds or fails, if a program was loaded. -/
theorem fetches_step (b : Board) : Fetches b.fetchedByStep b b.step.2 := by
  cases hentry : b.entry with
  | none =>
    rw [step_of_entry_eq_none hentry, fetchedByStep, hentry]
    exact .refl b
  | some entry =>
    obtain ⟨rest, hevents, -, hnone⟩ := b.arch.exists_events_step b.machine
    have hmachine : b.step.2.machine = (b.arch.step b.machine).2 := by
      rw [step, hentry]
      dsimp only
      generalize b.arch.step b.machine = outcome
      rcases outcome with ⟨e | ended, m⟩
      · rfl
      · rfl
    refine ⟨_, hmachine ▸ hevents, ?_⟩
    have hrest : rest.countP Event.isFetch = 0 :=
      List.countP_eq_zero.2 fun e he => by simp [hnone e he]
    rw [List.countP_cons, hrest, fetchedByStep, hentry]
    rfl

theorem Goes.fetches {k : Nat} (h : Goes k b c) :
    Fetches (k * b.fetchedByStep) b c ∧ c.fetchedByStep = b.fetchedByStep := by
  induction h with
  | refl b => exact ⟨by rw [Nat.zero_mul]; exact .refl b, rfl⟩
  | @step k b c d first rest ih =>
    have hfirst : Fetches b.fetchedByStep b c := by
      have h := fetches_step b
      rwa [first] at h
    have hentry : c.fetchedByStep = b.fetchedByStep := by
      have h := entry_step b
      rw [first] at h
      rw [fetchedByStep, fetchedByStep, h]
    obtain ⟨hrest, hlast⟩ := ih
    rw [hentry] at hrest hlast
    refine ⟨?_, hlast⟩
    rw [Nat.succ_mul, Nat.add_comm]
    exact hfirst.trans hrest

/-- A run fetches one instruction for every step that it takes. -/
theorem Stops.fetches {taken : Nat} {outcome : Except BoardError RunOutcome}
    (h : Stops b limit taken outcome d) : Fetches (taken * b.fetchedByStep) b d := by
  have hlast {k : Nat} {c : Board} (goes : Goes k b c) (hd : c.step.2 = d) :
      Fetches ((k + 1) * b.fetchedByStep) b d := by
    obtain ⟨hfetches, hsame⟩ := goes.fetches
    have hstep := fetches_step c
    rw [hd, hsame] at hstep
    rw [Nat.succ_mul]
    exact hfetches.trans hstep
  cases h with
  | atLimit goes => exact goes.fetches.1
  | ended within goes last => exact hlast goes (by rw [last])
  | failed within goes last => exact hlast goes (by rw [last])

/-! ## Composition -/

/-- A run with a limit `n + m` is a run with the limit `n`, resumed with the limit `m` if it neither
failed nor ended: the board, the error or the end are the same, and the steps add up. So a run that
ended is the same with any larger limit. A run takes no more steps than its limit, none after the
first step that fails or reports the end, and it fetches one instruction for each of them. -/
theorem run_composes (b : Board) :
    (∀ n m, b.run (n + m) = resume m (b.run n)) ∧
      (∀ n steps c, b.run n = (.ok ⟨steps, true⟩, c) →
        ∀ k, n ≤ k → b.run k = (.ok ⟨steps, true⟩, c)) ∧
      ∀ limit, ∃ taken, taken ≤ limit ∧ Stops b limit taken (b.run limit).1 (b.run limit).2 ∧
        Fetches (taken * b.fetchedByStep) b (b.run limit).2 := by
  refine ⟨run_add b, ?_, ?_⟩
  · intro n steps c hended k hk
    obtain ⟨m, rfl⟩ := Nat.exists_eq_add_of_le hk
    rw [run_add, hended]
    rfl
  · intro limit
    obtain ⟨taken, hstops⟩ := stops_run b limit
    exact ⟨taken, hstops.taken_le, hstops, hstops.fetches⟩

/-- A loop is left after seven steps, whether 7 or 1000 are allowed, and after 3 of them it can be
resumed. -/
theorem run_composes_edu1 :
    ∃ b, buildOn Edu1.architecture ⟨"edu1", .bytes 16, []⟩ = .ok b ∧
      let loaded := (b.load "MOVA #2\nloop: DEC A\nJMPZ done\nJMP loop\ndone: .END\n").2
      loaded.run 7 = resume 4 (loaded.run 3) ∧ (loaded.run 3).1 = .ok ⟨3, false⟩ ∧
        (loaded.run 7).1 = .ok ⟨7, true⟩ ∧ loaded.run 1000 = loaded.run 7 := by
  obtain ⟨b, hb, hpart, hended⟩ :
      ∃ b, buildOn Edu1.architecture ⟨"edu1", .bytes 16, []⟩ = .ok b ∧
        let loaded := (b.load "MOVA #2\nloop: DEC A\nJMPZ done\nJMP loop\ndone: .END\n").2
        (loaded.run 3).1 = .ok ⟨3, false⟩ ∧ (loaded.run 7).1 = .ok ⟨7, true⟩ :=
    ⟨_, rfl, by decide +kernel, by decide +kernel⟩
  refine ⟨b, hb, ?_⟩
  intro loaded
  obtain ⟨hadd, hlarger, -⟩ := run_composes loaded
  have hrun : loaded.run 7 = (.ok ⟨7, true⟩, (loaded.run 7).2) := Prod.ext hended rfl
  exact ⟨hadd 3 4, hpart, hended, (hlarger 7 7 _ hrun 1000 (by decide)).trans hrun.symm⟩

end Board

end Breadboard
