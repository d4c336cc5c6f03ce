import Breadboard.Proofs.Cpu

/-!
# What edits tell

Every edit is a sequence of single steps, and every step tells its events: a register is written,
all indicators are set from a status register, one indicator is set, or the end latch changes. What
holds of the single steps and passes on to sequences holds of every edit together with its events
(`EditRule.edit`). The events are about registers and indicators (`rule_events`), so no edit tells
of a write to memory (`quiet_edit`) or of a fetch (`isFetch_of_mem_edit`).
-/

namespace Breadboard

namespace Cpu

/-- Replaces the register at a position and tells of it. -/
def writeCell (cpu : Cpu) (i : Nat) (stored : RegisterCell) : Traced :=
  ⟨{ cpu with registers := cpu.registers.set i stored }, [.register i stored.value]⟩

/-- A property of a register file and of what it becomes and tells: it holds where nothing happens
and of every single step, and of a sequence if it holds of both parts. -/
structure EditRule (P : Cpu → Traced → Prop) : Prop where
  nothing : ∀ cpu, P cpu ⟨cpu, []⟩
  andThen : ∀ {cpu : Cpu} {t : Traced} {f : Cpu → Traced}, P cpu t → P t.cpu (f t.cpu) →
    P cpu (t.andThen f)
  write : ∀ {cpu : Cpu} {i : Nat} {r : RegisterCell}, cpu.registers[i]? = some r → ∀ v,
    P cpu (cpu.writeCell i (r.put v))
  showStatus : ∀ cpu status, P cpu (cpu.showStatus status)
  setIndicator : ∀ cpu i on, P cpu (cpu.setIndicator i on)
  setEnded : ∀ cpu on, P cpu ⟨cpu.setEnded on, []⟩

namespace EditRule

variable {P : Cpu → Traced → Prop} (hP : EditRule P)
include hP

theorem foldl_andThen {α : Type} {f : α → Cpu → Traced} (hf : ∀ a cpu, P cpu (f a cpu))
    (as : List α) {cpu : Cpu} {t : Traced} (h : P cpu t) :
    P cpu (as.foldl (fun t a => t.andThen (f a)) t) := by
  induction as generalizing t with
  | nil => exact h
  | cons a as ih =>
    apply ih
    exact hP.andThen h (hf a t.cpu)

theorem setFlag (cpu : Cpu) (kind : IndicatorKind) (on : Bool) : P cpu (cpu.setFlag kind on) :=
  hP.foldl_andThen (f := fun i cpu => cpu.setIndicator i on)
    (fun i cpu => hP.setIndicator cpu i on) (cpu.positionsOf kind) (hP.nothing cpu)

theorem setSigns (cpu : Cpu) (v : Int) : P cpu (cpu.setSigns v) :=
  hP.andThen (hP.setFlag cpu .zero (v == 0)) (hP.setFlag _ .negative (v < 0))

theorem setRegister (cpu : Cpu) (i : Nat) (v : Int) : P cpu (cpu.setRegister i v) := by
  rw [Cpu.setRegister]
  split
  · exact hP.nothing cpu
  next r hr =>
    have hwritten : P cpu (cpu.writeCell i (r.put v)) := hP.write hr v
    -- a status register is shown after the write, and the signs are shown last
    have hshown : P cpu (if r.kind = .status then
        (cpu.writeCell i (r.put v)).andThen (·.showStatus (r.put v).value)
        else cpu.writeCell i (r.put v)) := by
      split
      · exact hP.andThen hwritten (hP.showStatus _ _)
      · exact hwritten
    dsimp only
    split
    · exact hP.andThen hshown (hP.setSigns _ _)
    · exact hshown

theorem reset (cpu : Cpu) : P cpu cpu.reset := by
  have hzeroed := hP.foldl_andThen (f := fun i cpu => cpu.setRegister i 0)
    (fun i cpu => hP.setRegister cpu i 0) (List.range cpu.registers.length) (hP.nothing cpu)
  have hcleared := hP.foldl_andThen (f := fun i cpu => cpu.setIndicator i false)
    (fun i cpu => hP.setIndicator cpu i false) (List.range cpu.indicators.length) hzeroed
  have hended := hP.andThen (f := fun cpu => ⟨cpu.setEnded false, []⟩) hcleared
    (hP.setEnded _ false)
  rwa [Traced.andThen, List.append_nil] at hended

/-- What holds of the single steps holds of every edit. -/
theorem edit (cpu : Cpu) (change : Edit) : P cpu (cpu.edit change) := by
  cases change with
  | register i v => exact hP.setRegister cpu i v
  | indicator i on => exact hP.setIndicator cpu i on
  | flag kind on => exact hP.setFlag cpu kind on
  | signs v => exact hP.setSigns cpu v
  | ended on => exact hP.setEnded cpu on
  | reset => exact hP.reset cpu

end EditRule

/-! ## Which events there are -/

/-- What holds of every event about a register or an indicator holds of all that an edit tells. -/
theorem rule_events {Q : Event → Prop} (hregister : ∀ i v, Q (.register i v))
    (hindicator : ∀ i on, Q (.indicator i on)) : EditRule fun _ t => ∀ e ∈ t.events, Q e where
  nothing := by
    intro cpu e he
    simp at he
  andThen := by
    intro cpu t f h hf e he
    rcases List.mem_append.1 he with hold | hnew
    · exact h e hold
    · exact hf e hnew
  write := by
    intro cpu i r hr v e he
    rw [List.mem_singleton.1 he]
    exact hregister i _
  showStatus := by
    intro cpu status e he
    obtain ⟨⟨a, i⟩, -, ha⟩ := List.mem_filterMap.1 he
    dsimp only at ha
    split at ha
    · simp at ha
    · rw [← Option.some.inj ha]
      exact hindicator i _
  setIndicator := by
    intro cpu i on e he
    rw [Cpu.setIndicator] at he
    split at he
    · simp at he
    · split at he
      · simp at he
      -- the status registers come first, then the indicator itself
      · rcases List.mem_append.1 he with hstatus | hself
        · obtain ⟨⟨r, j⟩, -, hr⟩ := List.mem_filterMap.1 hstatus
          dsimp only at hr
          split at hr
          · rw [← Option.some.inj hr]
            exact hregister j _
          · simp at hr
        · rw [List.mem_singleton.1 hself]
          exact hindicator i on
  setEnded := by
    intro cpu on e he
    simp at he

end Cpu

/-- The event tells of a write to memory. -/
def Event.isWrite : Event → Bool
  | .memory _ _ => true
  | _ => false

/-- The event tells that an instruction is fetched. -/
def Event.isFetch : Event → Bool
  | .fetch _ => true
  | _ => false

/-- No event tells of a write to memory. -/
def Traced.Quiet (t : Traced) : Prop := ∀ e ∈ t.events, e.isWrite = false

namespace Cpu

/-- No edit tells of a write to memory. -/
theorem quiet_edit (cpu : Cpu) (change : Edit) : (cpu.edit change).Quiet :=
  (rule_events (fun _ _ => rfl) (fun _ _ => rfl)).edit cpu change

/-- No edit tells of a fetch. -/
theorem isFetch_of_mem_edit {cpu : Cpu} {change : Edit} {e : Event}
    (h : e ∈ (cpu.edit change).events) : e.isFetch = false :=
  (rule_events (Q := fun e => e.isFetch = false) (fun _ _ => rfl) (fun _ _ => rfl)).edit cpu change
    e h

end Cpu

end Breadboard
