import Breadboard.Assembler.Program
import Breadboard.Processor
import Breadboard.Proofs.Cpu

/-!
# What a processor keeps of a machine

A processor changes a machine by announcing fetches, editing the register file and storing bytes
that have room in memory; besides, the devices may be removed. A property that edits and stores keep
(`KeptByEffects`) is kept by an instruction (`KeptByEffects.run`), by a reset of the processor
(`KeptByEffects.reset`) and by loading a program (`KeptByEffects.load`), whether these succeed or
fail; and a step keeps it from the moment at which the fetch was announced
(`KeptByEffects.step_of_announced`). A property that announcing fetches and removing the devices
keep as well (`Kept`) is kept by a step (`Kept.step`).
-/

namespace Breadboard

namespace Machine

/-! ## Edits in sequence -/

theorem journal_adopt (m : Machine) (t : Traced) :
    (m.adopt t).journal = t.events.reverse ++ m.journal := List.reverseAux_eq

theorem adopt_andThen (m : Machine) (t : Traced) (f : Cpu → Traced) :
    m.adopt (t.andThen f) = (m.adopt t).adopt (f (m.adopt t).cpu) := by
  have hcpu : (m.adopt t).cpu = t.cpu := rfl
  rw [hcpu, adopt, adopt, adopt, recordAll, recordAll, recordAll, Traced.andThen]
  simp [List.reverseAux_eq]

theorem adopt_foldl_andThen {α : Type} (m : Machine) (f : α → Cpu → Traced) (as : List α)
    (t : Traced) : m.adopt (as.foldl (fun t a => t.andThen (f a)) t) =
      as.foldl (fun m a => m.adopt (f a m.cpu)) (m.adopt t) := by
  induction as generalizing t with
  | nil => rfl
  | cons a as ih => rw [List.foldl_cons, List.foldl_cons, ih, adopt_andThen]

/-- Edits are carried out one after another. -/
theorem edits_eq_foldl (m : Machine) (changes : List Cpu.Edit) :
    m.edits changes = changes.foldl edit m :=
  adopt_foldl_andThen m (fun change cpu => cpu.edit change) changes ⟨m.cpu, []⟩

/-! ## What is kept -/

/-- The effects that an instruction may have keep `P`. -/
structure KeptByEffects (P : Machine → Prop) : Prop where
  edit : ∀ {m} (change : Cpu.Edit), P m → P (m.edit change)
  store : ∀ {m start bytes}, start + bytes.length ≤ m.memory.size → P m → P (m.store start bytes)

/-- Whatever a processor does, and removing the devices, keeps `P`. -/
structure Kept (P : Machine → Prop) : Prop extends KeptByEffects P where
  fetch : ∀ {m} (address : Int), P m → P (m.record (.fetch address))
  detach : ∀ {m}, P m → P m.detachAll

namespace KeptByEffects

variable {P : Machine → Prop} (hP : KeptByEffects P) {m : Machine}
include hP

theorem edits (changes : List Cpu.Edit) (h : P m) : P (m.edits changes) := by
  rw [edits_eq_foldl]
  induction changes generalizing m with
  | nil => exact h
  | cons change changes ih => exact ih (hP.edit change h)

/-- A write that is refused does nothing. -/
theorem write (address : Int) (length : Nat) (v : Int) (h : P m) :
    P (m.write address length v).2 := by
  rw [Machine.write]
  cases hloc : m.memory.locate address length with
  | error e => exact h
  | ok start =>
    obtain ⟨-, hroom⟩ := Memory.locate_eq_ok_iff.1 hloc
    exact hP.store (by rwa [Word.length_toBytes]) h

theorem writeAll (ws : List MemoryWrite) (h : P m) : P (m.writeAll ws).2 := by
  induction ws generalizing m with
  | nil => exact h
  | cons w ws ih =>
    have hwrite := hP.write w.address w.length w.value h
    rw [Machine.writeAll]
    generalize m.write w.address w.length w.value = outcome at hwrite ⊢
    rcases outcome with ⟨e | u, m'⟩
    · exact hwrite
    · exact ih hwrite

/-- An instruction keeps what its effects keep. -/
theorem run {α : Type} (x : Action α) (h : P m) : P (x.run m).2 := by
  induction x generalizing m with
  | done a => exact h
  | fail e => exact h
  | register i k ih => exact ih _ h
  | flag kind k ih => exact ih _ h
  | edit change k ih => exact ih (hP.edit change h)
  | load a n k ih =>
    rw [Action.run]
    split
    · exact h
    · exact ih _ h
  | store a n v k ih =>
    have hwrite := hP.write a n v h
    rw [Action.run]
    generalize m.write a n v = outcome at hwrite ⊢
    rcases outcome with ⟨e | u, m'⟩
    · exact hwrite
    · exact ih hwrite

variable (arch : Architecture)

theorem setPc (address : Int) (h : P m) : P (arch.setPc m address) := hP.edit _ h

theorem reset (h : P m) : P (arch.reset m) := hP.edits _ (hP.edit .reset h)

theorem fetchOperand (i : Instruction arch.modes.length) (h : P m) :
    P (arch.fetchOperand i m).2 := by
  rw [Architecture.fetchOperand]
  split
  · exact h
  · dsimp only
    split
    · exact h
    · exact hP.setPc arch _ h

/-- What holds when the fetch was announced holds after the step, wherever the step fails. -/
theorem step_of_announced (hannounced : P (m.record (.fetch (arch.pcOf m)))) :
    P (arch.step m).2 := by
  rw [Architecture.step]
  dsimp only
  split
  · exact hannounced
  next opcode _ =>
    have hopcode := hP.setPc arch (arch.pcOf m + arch.sizes.opcode) hannounced
    split
    · exact hopcode
    next i _ =>
      have hoperand := hP.fetchOperand arch i hopcode
      generalize arch.fetchOperand i _ = fetched at hoperand ⊢
      rcases fetched with ⟨e | operand, m'⟩
      · exact hoperand
      · have hrun := hP.run (i.behaviour operand) hoperand
        dsimp only
        generalize (i.behaviour operand).run m' = outcome at hrun ⊢
        rcases outcome with ⟨e | u, m''⟩
        · exact hrun
        · exact hrun

/-- Loading keeps what its writes keep. -/
theorem load (p : Program) (h : P m) : P (p.load m).2 := by
  have hwrites := hP.writeAll p.writes h
  rw [Program.load]
  split
  · exact h
  · split
    · exact h
    · generalize m.writeAll p.writes = outcome at hwrites ⊢
      rcases outcome with ⟨e | u, m'⟩
      · exact hwrites
      · exact hwrites

end KeptByEffects

/-- A step keeps what a processor keeps, wherever it fails. -/
theorem Kept.step {P : Machine → Prop} (hP : Kept P) (arch : Architecture) {m : Machine} (h : P m) :
    P (arch.step m).2 :=
  hP.step_of_announced arch (hP.fetch _ h)

/-! ## What is always kept -/

/-- No effect of a processor changes which registers and indicators there are, or how large memory
is. -/
theorem kept_tables_size (tables : List Register × List Indicator) (size : Nat) :
    Kept fun m => m.cpu.tables = tables ∧ m.memory.size = size where
  fetch := fun _ h => h
  edit := fun change ⟨htables, hsize⟩ => ⟨by rw [← htables]; exact Cpu.tables_edit _ change, hsize⟩
  store := fun _ ⟨htables, hsize⟩ => ⟨htables, by rw [← hsize]; exact Memory.size_overlay _ _ _⟩
  detach := fun h => h

end Machine

end Breadboard
