import Breadboard.Proofs.Cpu.Display
import Breadboard.Proofs.Device.Hearing

/-!
# The journal tells everything

The events that a processor enters into the journal lead from what its registers and indicators
showed to what they show (`Machine.Reports`), through every effect that an instruction may have
(`Machine.reports_effects`). A step first tells that it fetches an instruction and tells of no other
fetch (`Architecture.exists_events_step`). So an observer that takes over what every event tells
shows the state of the processor at any time (`Architecture.watch_events`).
-/

namespace Breadboard

open Display

/-- The event tells of what was delivered to a window, so it is neither shown nor a fetch. -/
theorem Event.silent_of_isDelivery {e : Event} (h : e.isDelivery = true) :
    e.isShown = false ∧ e.isFetch = false := by
  cases e with
  | delivery controller window base size bytes => exact ⟨rfl, rfl⟩
  | _ => simp [isDelivery] at h

namespace Machine

theorem events_record (m : Machine) (e : Event) : (m.record e).events = m.events ++ [e] := by
  simp [events, record]

theorem events_adopt (m : Machine) (t : Traced) : (m.adopt t).events = m.events ++ t.events := by
  simp [events, journal_adopt]

/-- What was told from `m₀` to `m` leads from what the register file showed to what it shows, and no
fetch was told. -/
def Reports (m₀ m : Machine) : Prop :=
  ∃ told, m.events = m₀.events ++ told ∧ Leads (of m₀.cpu) told (of m.cpu) ∧
    ∀ e ∈ told, e.isFetch = false

variable {m₀ m : Machine}

theorem Reports.refl (m : Machine) : Reports m m := by
  refine ⟨[], ?_, .nil _, ?_⟩
  · rw [List.append_nil]
  · simp

/-- What is told after what was told already is told as well. -/
theorem Reports.extend {m' : Machine} {es : List Event} (h : Reports m₀ m)
    (hevents : m'.events = m.events ++ es) (hleads : Leads (of m.cpu) es (of m'.cpu))
    (hfetch : ∀ e ∈ es, e.isFetch = false) : Reports m₀ m' := by
  obtain ⟨told, htold, hbefore, hnone⟩ := h
  refine ⟨told ++ es, ?_, hbefore.append hleads, ?_⟩
  · rw [hevents, htold, List.append_assoc]
  · intro e he
    rcases List.mem_append.1 he with hold | hnew
    · exact hnone e hold
    · exact hfetch e hnew

/-- Edits tell what they change, and a store changes no register and no indicator. -/
theorem reports_effects (m₀ : Machine) : KeptByEffects (Reports m₀) where
  edit := by
    intro m change h
    apply h.extend (events_adopt m (m.cpu.edit change))
    · exact Cpu.leads_edit m.cpu change
    · intro e he
      exact Cpu.isFetch_of_mem_edit he
  store := by
    intro m start bytes hroom h
    obtain ⟨es, hjournal, hdelivered⟩ := journal_store m start bytes
    have hevents : (m.store start bytes).events =
        m.events ++ (es.reverse ++ [.memory start bytes.length]) := by
      rw [events, hjournal, List.reverse_cons, List.reverse_append, List.append_assoc]
      rfl
    -- a store tells of deliveries and of the write
    have hsilent : ∀ e ∈ es.reverse ++ [.memory start bytes.length],
        e.isShown = false ∧ e.isFetch = false := by
      intro e he
      rcases List.mem_append.1 he with hdelivery | hwrite
      · exact Event.silent_of_isDelivery (hdelivered e (List.mem_reverse.1 hdelivery))
      · rw [List.mem_singleton.1 hwrite]
        exact ⟨rfl, rfl⟩
    apply h.extend hevents
    · rw [cpu_store]
      exact Leads.silent _ fun e he => (hsilent e he).1
    · intro e he
      exact (hsilent e he).2

end Machine

namespace Architecture

/-! ## Operations -/

/-- What can be done to a processor from outside. -/
inductive Operation where
  /-- A register, an indicator, all indicators of a kind or the end latch is set, or the register
  file is reset. -/
  | edit (change : Cpu.Edit)
  /-- The program counter is moved. -/
  | setPc (address : Int)
  /-- The processor is reset. -/
  | reset
  /-- An instruction is executed, whether it succeeds or fails. -/
  | step
  deriving DecidableEq, Repr

variable (arch : Architecture)

/-- The machine after an operation. -/
def perform (m : Machine) : Operation → Machine
  | .edit change => m.edit change
  | .setPc address => arch.setPc m address
  | .reset => arch.reset m
  | .step => (arch.step m).2

/-- The machine after operations in order. -/
def performAll (m : Machine) (ops : List Operation) : Machine := ops.foldl arch.perform m

/-- A step tells first that the instruction at the program counter is fetched. What it tells then
leads to what the register file shows after it, and no fetch is among it. -/
theorem exists_events_step (m : Machine) :
    ∃ rest, (arch.step m).2.events = m.events ++ .fetch (arch.pcOf m) :: rest ∧
      Leads (of m.cpu) rest (of (arch.step m).2.cpu) ∧ ∀ e ∈ rest, e.isFetch = false := by
  have hstep : Machine.Reports (m.record (.fetch (arch.pcOf m))) (arch.step m).2 :=
    (Machine.reports_effects _).step_of_announced arch (.refl _)
  obtain ⟨rest, hevents, hleads, hnone⟩ := hstep
  refine ⟨rest, ?_, hleads, hnone⟩
  rw [hevents, Machine.events_record, List.append_assoc]
  rfl

/-- Every operation tells events that lead to what the register file shows after it. -/
theorem exists_events_perform (m : Machine) (op : Operation) :
    ∃ told, (arch.perform m op).events = m.events ++ told ∧
      Leads (of m.cpu) told (of (arch.perform m op).cpu) := by
  cases op with
  | edit change =>
    obtain ⟨told, hevents, hleads, -⟩ := (Machine.reports_effects m).edit change (.refl m)
    exact ⟨told, hevents, hleads⟩
  | setPc address =>
    obtain ⟨told, hevents, hleads, -⟩ := (Machine.reports_effects m).setPc arch address (.refl m)
    exact ⟨told, hevents, hleads⟩
  | reset =>
    obtain ⟨told, hevents, hleads, -⟩ := (Machine.reports_effects m).reset arch (.refl m)
    exact ⟨told, hevents, hleads⟩
  | step =>
    obtain ⟨rest, hevents, hleads, -⟩ := arch.exists_events_step m
    exact ⟨_, hevents, .cons trivial hleads⟩

/-- So does every sequence of operations. -/
theorem exists_events_performAll (m : Machine) (ops : List Operation) :
    ∃ told, (arch.performAll m ops).events = m.events ++ told ∧
      Leads (of m.cpu) told (of (arch.performAll m ops).cpu) := by
  induction ops generalizing m with
  | nil =>
    refine ⟨[], ?_, .nil _⟩
    rw [List.append_nil]
    rfl
  | cons op ops ih =>
    obtain ⟨first, hfirst, hleads⟩ := arch.exists_events_perform m op
    obtain ⟨rest, hrest, hleads'⟩ := ih (arch.perform m op)
    refine ⟨first ++ rest, ?_, hleads.append hleads'⟩
    show (arch.performAll (arch.perform m op) ops).events = _
    rw [hrest, hfirst, List.append_assoc]

/-- An observer begins to listen to a processor in any state, starts from what the registers and
indicators hold and takes over what every event tells. After any sequence of edits, moves of the
program counter, resets and steps, of which some may fail, the observer shows what the registers and
indicators hold. Every event about an indicator turned it over, and the next step tells first that
the instruction at the program counter is fetched, and tells of no other fetch. -/
theorem watch_events (m : Machine) (ops : List Operation) :
    let start := Display.of m.cpu
    let now := arch.performAll m.forget ops
    start.watch now.events = Display.of now.cpu ∧
      (∀ front i on back, now.events = front ++ .indicator i on :: back →
        (start.watch front).indicators[i]? = some (!on)) ∧
      ∃ rest, (arch.step now).2.events = now.events ++ .fetch (arch.pcOf now) :: rest ∧
        ∀ e ∈ rest, e.isFetch = false := by
  intro start now
  -- nothing was told before the observer began to listen
  obtain ⟨told, hevents, hleads⟩ := arch.exists_events_performAll m.forget ops
  have hstart : m.forget.events = [] := rfl
  rw [hstart, List.nil_append] at hevents
  have htold : now.events = told := hevents
  refine ⟨?_, ?_, ?_⟩
  · rw [htold]
    exact hleads.watch_eq
  · intro front i on back hsplit
    exact hleads.expects (htold.symm.trans hsplit)
  · obtain ⟨rest, hstep, -, hnone⟩ := arch.exists_events_step now
    exact ⟨rest, hstep, hnone⟩

end Architecture

end Breadboard
