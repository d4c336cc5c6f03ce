import Breadboard.Proofs.Device.Hearing

/-!
# Devices do not influence a processor

Two machines agree if they have the same register file and memory and if their journals tell the
same of processor and memory (`Machine.Agree`). Their devices may differ, and so may what their
probes were given. Each effect of a processor keeps two machines in agreement: a store feeds the
controllers, but nothing that they do comes back (`Agree.store`). Hence an instruction, a step and
loading a program have the same result on both machines and keep them in agreement, also where they
fail (`Agree.run`, `Agree.step`, `Agree.load`).
-/

namespace Breadboard

/-! ## Outcomes that cannot be told apart -/

/-- The results are the same, and the states that they leave are related. -/
def SameOutcome {σ α : Type} (R : σ → σ → Prop) (x y : α × σ) : Prop := x.1 = y.1 ∧ R x.2 y.2

/-- Such outcomes are two failures for the same reason or two successes with the same value. -/
theorem SameOutcome.cases {σ ε α : Type} {R : σ → σ → Prop} {x y : Except ε α × σ}
    (h : SameOutcome R x y) :
    (∃ e s s', x = (.error e, s) ∧ y = (.error e, s') ∧ R s s') ∨
      ∃ a s s', x = (.ok a, s) ∧ y = (.ok a, s') ∧ R s s' := by
  obtain ⟨r, s⟩ := x
  obtain ⟨r', s'⟩ := y
  obtain ⟨hresult, hrelated⟩ := h
  obtain rfl : r = r' := hresult
  cases r with
  | error e => exact Or.inl ⟨e, s, s', rfl, rfl, hrelated⟩
  | ok a => exact Or.inr ⟨a, s, s', rfl, rfl, hrelated⟩

namespace Machine

/-! ## What does not depend on devices -/

/-- The events of processor and memory that were not read yet, oldest first. -/
def ownEvents (m : Machine) : List Event := m.events.filter fun e => ! e.isDelivery

/-- The machines differ at most in their devices and in what these were given. -/
structure Agree (m m' : Machine) : Prop where
  cpu : m.cpu = m'.cpu
  memory : m.memory = m'.memory
  events : m.ownEvents = m'.ownEvents

theorem ownEvents_record (m : Machine) {e : Event} (h : e.isDelivery = false) :
    (m.record e).ownEvents = m.ownEvents ++ [e] := by
  simp [ownEvents, events, record, List.filter_append, h]

theorem ownEvents_adopt (m : Machine) (t : Traced) :
    (m.adopt t).ownEvents = m.ownEvents ++ t.events.filter fun e => ! e.isDelivery := by
  simp [ownEvents, events, adopt, recordAll, List.reverseAux_eq, List.filter_append]

/-- Of a store the journal tells the write only, apart from what was delivered. -/
theorem ownEvents_store (m : Machine) (start : Nat) (bytes : List UInt8) :
    (m.store start bytes).ownEvents = m.ownEvents ++ [.memory start bytes.length] := by
  obtain ⟨es, hjournal, hdelivered⟩ := journal_store m start bytes
  have hnone : es.reverse.filter (fun e => ! e.isDelivery) = [] := by
    apply List.filter_eq_nil_iff.2
    intro e he
    simp [hdelivered e (List.mem_reverse.1 he)]
  rw [ownEvents, ownEvents, events, events, hjournal, List.reverse_cons, List.reverse_append,
    List.filter_append, List.filter_append, hnone, List.append_nil]
  rfl

namespace Agree

variable {m m' : Machine}

/-! ## Single effects -/

theorem record (h : m.Agree m') {e : Event} (he : e.isDelivery = false) :
    (m.record e).Agree (m'.record e) := by
  refine ⟨h.cpu, h.memory, ?_⟩
  rw [ownEvents_record m he, ownEvents_record m' he, h.events]

theorem edit (h : m.Agree m') (change : Cpu.Edit) : (m.edit change).Agree (m'.edit change) := by
  rw [Machine.edit, Machine.edit, h.cpu]
  refine ⟨rfl, h.memory, ?_⟩
  rw [ownEvents_adopt, ownEvents_adopt, h.events]

theorem edits (h : m.Agree m') (changes : List Cpu.Edit) :
    (m.edits changes).Agree (m'.edits changes) := by
  rw [edits_eq_foldl, edits_eq_foldl]
  induction changes generalizing m m' with
  | nil => exact h
  | cons change changes ih => exact ih (h.edit change)

/-- Whatever the controllers make of a store, the machines agree after it. -/
theorem store (h : m.Agree m') (start : Nat) (bytes : List UInt8) :
    (m.store start bytes).Agree (m'.store start bytes) := by
  refine ⟨h.cpu, ?_, ?_⟩
  · rw [memory_store, memory_store, h.memory]
  · rw [ownEvents_store, ownEvents_store, h.events]

theorem clearMemory (h : m.Agree m') : m.clearMemory.Agree m'.clearMemory := by
  refine ⟨h.cpu, ?_, h.events⟩
  rw [Machine.clearMemory, Machine.clearMemory, h.memory]

theorem detachAll (h : m.Agree m') : m.detachAll.Agree m'.detachAll := ⟨h.cpu, h.memory, h.events⟩

/-- A write is refused on both machines or on neither. -/
theorem write (h : m.Agree m') (address : Int) (length : Nat) (v : Int) :
    SameOutcome Agree (m.write address length v) (m'.write address length v) := by
  rw [Machine.write, Machine.write, h.memory]
  cases m'.memory.locate address length with
  | error e => exact ⟨rfl, h⟩
  | ok start => exact ⟨rfl, h.store start _⟩

/-! ## Instructions and steps -/

/-- An instruction cannot tell the machines apart. -/
theorem run {α : Type} (x : Action α) (h : m.Agree m') :
    SameOutcome Agree (x.run m) (x.run m') := by
  -- along the effects of the instruction: what is read is the same on both machines
  induction x generalizing m m' with
  | done a => exact ⟨rfl, h⟩
  | fail e => exact ⟨rfl, h⟩
  | register i k ih =>
    rw [Action.run, Action.run, h.cpu]
    exact ih _ h
  | flag kind k ih =>
    rw [Action.run, Action.run, h.cpu]
    exact ih _ h
  | edit change k ih => exact ih (h.edit change)
  | load a n k ih =>
    rw [Action.run, Action.run, h.memory]
    cases m'.memory.readUnsigned a n with
    | error e => exact ⟨rfl, h⟩
    | ok v => exact ih v h
  | store a n v k ih =>
    rw [Action.run, Action.run]
    rcases (h.write a n v).cases with ⟨e, m₁, m₂, hx, hy, hsame⟩ | ⟨u, m₁, m₂, hx, hy, hsame⟩
    · rw [hx, hy]
      exact ⟨rfl, hsame⟩
    · rw [hx, hy]
      exact ih hsame

variable (arch : Architecture)

theorem pcOf (h : m.Agree m') : arch.pcOf m = arch.pcOf m' := by
  rw [Architecture.pcOf, Architecture.pcOf, h.cpu]

theorem setPc (h : m.Agree m') (address : Int) :
    (arch.setPc m address).Agree (arch.setPc m' address) := h.edit _

theorem reset (h : m.Agree m') : (arch.reset m).Agree (arch.reset m') :=
  (h.edit .reset).edits arch.onReset

theorem fetchOperand (h : m.Agree m') (i : Instruction arch.modes.length) :
    SameOutcome Agree (arch.fetchOperand i m) (arch.fetchOperand i m') := by
  rw [Architecture.fetchOperand, Architecture.fetchOperand]
  cases i.mode with
  | none => exact ⟨rfl, h⟩
  | some mode =>
    dsimp only
    rw [h.pcOf arch, h.memory]
    cases m'.memory.read (arch.pcOf m') (arch.mode mode).size with
    | error e => exact ⟨rfl, h⟩
    | ok v => exact ⟨rfl, h.setPc arch _⟩

/-- A step cannot tell the machines apart, wherever it fails. -/
theorem step (h : m.Agree m') : SameOutcome Agree (arch.step m) (arch.step m') := by
  have hannounced := h.record (e := .fetch (arch.pcOf m')) rfl
  rw [Architecture.step, Architecture.step, h.pcOf arch]
  dsimp only
  rw [hannounced.memory]
  cases (m'.record (.fetch (arch.pcOf m'))).memory.readUnsigned (arch.pcOf m')
    arch.sizes.opcode with
  | error e => exact ⟨rfl, hannounced⟩
  | ok opcode =>
    have hopcode := hannounced.setPc arch (arch.pcOf m' + arch.sizes.opcode)
    dsimp only
    cases arch.instruction? opcode with
    | none => exact ⟨rfl, hopcode⟩
    | some i =>
      dsimp only
      rcases (hopcode.fetchOperand arch i).cases with
        ⟨e, m₁, m₂, hx, hy, hsame⟩ | ⟨operand, m₁, m₂, hx, hy, hsame⟩
      · rw [hx, hy]
        exact ⟨rfl, hsame⟩
      · rw [hx, hy]
        dsimp only
        rcases (hsame.run (i.behaviour operand)).cases with
          ⟨e, m₃, m₄, hx, hy, hsame⟩ | ⟨u, m₃, m₄, hx, hy, hsame⟩
        · rw [hx, hy]
          exact ⟨rfl, hsame⟩
        · rw [hx, hy]
          refine ⟨?_, hsame⟩
          dsimp only
          rw [hsame.cpu]

/-! ## Programs -/

theorem writeAll (h : m.Agree m') (ws : List MemoryWrite) :
    SameOutcome Agree (m.writeAll ws) (m'.writeAll ws) := by
  induction ws generalizing m m' with
  | nil => exact ⟨rfl, h⟩
  | cons w ws ih =>
    rw [Machine.writeAll, Machine.writeAll]
    rcases (h.write w.address w.length w.value).cases with
      ⟨e, m₁, m₂, hx, hy, hsame⟩ | ⟨u, m₁, m₂, hx, hy, hsame⟩
    · rw [hx, hy]
      exact ⟨rfl, hsame⟩
    · rw [hx, hy]
      exact ih hsame

/-- A program is loaded into both machines or refused by both, for the same reason. -/
theorem load (h : m.Agree m') (p : Program) : SameOutcome Agree (p.load m) (p.load m') := by
  rw [Program.load, Program.load]
  split
  · exact ⟨rfl, h⟩
  · cases p.entryPoint? with
    | none => exact ⟨rfl, h⟩
    | some entry =>
      dsimp only
      rcases (h.writeAll p.writes).cases with
        ⟨e, m₁, m₂, hx, hy, hsame⟩ | ⟨u, m₁, m₂, hx, hy, hsame⟩
      · rw [hx, hy]
        exact ⟨rfl, hsame⟩
      · rw [hx, hy]
        exact ⟨rfl, hsame⟩

end Agree

end Machine

end Breadboard
