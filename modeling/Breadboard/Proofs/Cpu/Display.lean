import Breadboard.Proofs.Cpu.Events

/-!
# What an observer makes of the events

An observer keeps a display of the numbers in the registers and of which indicators are set, and
takes over what every event tells (`Display.see`). Events are expected if each is about a register
or an indicator that the display has, and an event about an indicator turns it over; `Display.Leads`
says that expected events lead from one display to another. The events of every edit lead from the
display of the register file before it to that of the register file after it (`leads_edit`).
-/

namespace Breadboard

/-- The event is about a register or an indicator. -/
def Event.isShown : Event → Bool
  | .register _ _ | .indicator _ _ => true
  | _ => false

/-- The numbers in the registers, and which indicators are set. -/
structure Display where
  registers : List Int
  indicators : List Bool
  deriving DecidableEq, Repr

namespace Display

/-- What a register file shows. -/
def of (cpu : Cpu) : Display :=
  { registers := cpu.registers.map (·.value), indicators := cpu.indicators.map (·.value) }

/-- The display after an event. Fetches and writes to memory do not concern it. -/
def see (d : Display) : Event → Display
  | .register i v => { d with registers := d.registers.set i v }
  | .indicator i on => { d with indicators := d.indicators.set i on }
  | .fetch _ | .delivery _ _ _ _ _ | .memory _ _ => d

/-- The display after events in order. -/
def watch (d : Display) (es : List Event) : Display := es.foldl see d

/-- The event is about a register that there is, or turns an indicator over. -/
def Expects (d : Display) : Event → Prop
  | .register i _ => i < d.registers.length
  | .indicator i on => d.indicators[i]? = some (!on)
  | .fetch _ | .delivery _ _ _ _ _ | .memory _ _ => True

/-- The events are expected one after another, and the last display is the one given. -/
inductive Leads : Display → List Event → Display → Prop
  | nil (d : Display) : Leads d [] d
  | cons {d d' : Display} {e : Event} {es : List Event} :
      d.Expects e → Leads (d.see e) es d' → Leads d (e :: es) d'

namespace Leads

variable {d d' d'' : Display} {es fs : List Event}

theorem append (h : Leads d es d') (h' : Leads d' fs d'') : Leads d (es ++ fs) d'' := by
  induction h with
  | nil d => exact h'
  | cons hexpects _ ih => exact .cons hexpects (ih h')

theorem single {e : Event} (h : d.Expects e) : Leads d [e] (d.see e) := .cons h (.nil _)

/-- Events that are not about registers or indicators change nothing. -/
theorem silent (d : Display) (h : ∀ e ∈ es, e.isShown = false) : Leads d es d := by
  induction es with
  | nil => exact .nil d
  | cons e es ih =>
    obtain ⟨he, hes⟩ := List.forall_mem_cons.1 h
    have hrest := ih hes
    cases e with
    | register i v => simp [Event.isShown] at he
    | indicator i on => simp [Event.isShown] at he
    | _ => exact .cons trivial hrest

/-- Watching the events gives the last display. -/
theorem watch_eq (h : Leads d es d') : d.watch es = d' := by
  induction h with
  | nil d => rfl
  | cons _ _ ih => exact ih

/-- Every event is expected by the display at that time. -/
theorem expects (h : Leads d es d') {front back : List Event} {e : Event}
    (hes : es = front ++ e :: back) : (d.watch front).Expects e := by
  induction h generalizing front with
  | nil d => simp at hes
  | cons hexpects _ ih =>
    cases front with
    | nil =>
      obtain ⟨rfl, -⟩ := List.cons.inj hes
      exact hexpects
    | cons f front =>
      obtain ⟨rfl, hrest⟩ := List.cons.inj hes
      exact ih hrest

end Leads

/-! ## Single steps -/

/-- What a display shows is replaced one by one from the left. -/
theorem set_append_cons {α : Type} (front back : List α) (a b : α) :
    (front ++ a :: back).set front.length b = (front ++ [b]) ++ back := by
  simp

/-- The events that tell the indicators that change lead to their new values. -/
theorem leads_indicators (registers : List Int) (new : IndicatorCell → Bool) (front : List Bool)
    (cells : List IndicatorCell) :
    Leads ⟨registers, front ++ cells.map (·.value)⟩
      ((cells.zipIdx front.length).filterMap fun (a, i) =>
        if a.value = new a then none else some (.indicator i (new a)))
      ⟨registers, front ++ cells.map new⟩ := by
  -- the indicators in `front` were told already
  induction cells generalizing front with
  | nil => exact .nil _
  | cons a cells ih =>
    have hrest := ih (front ++ [new a])
    rw [List.length_append, List.length_singleton] at hrest
    simp only [List.append_assoc, List.singleton_append] at hrest
    rw [List.zipIdx_cons, List.filterMap_cons]
    by_cases hsame : a.value = new a
    · simpa [hsame] using hrest
    · simp only [if_neg hsame, List.map_cons]
      refine .cons ?_ ?_
      · have hnot : a.value = !new a := by
          rw [Bool.eq_not]
          exact hsame
        simp [Expects, hnot]
      · simpa [see, set_append_cons] using hrest

/-- The events that tell the status registers lead to their new values, if the other registers keep
what they hold. -/
theorem leads_statuses (indicators : List Bool) (new : RegisterCell → RegisterCell)
    (hkind : ∀ r, (new r).kind = r.kind) (hother : ∀ r, r.kind ≠ .status → (new r).value = r.value)
    (front : List Int) (cells : List RegisterCell) :
    Leads ⟨front ++ cells.map (·.value), indicators⟩
      (((cells.map new).zipIdx front.length).filterMap fun (r, i) =>
        if r.kind = .status then some (.register i r.value) else none)
      ⟨front ++ (cells.map new).map (·.value), indicators⟩ := by
  induction cells generalizing front with
  | nil => exact .nil _
  | cons r cells ih =>
    have hrest := ih (front ++ [(new r).value])
    rw [List.length_append, List.length_singleton] at hrest
    simp only [List.append_assoc, List.singleton_append] at hrest
    rw [List.map_cons, List.map_cons, List.zipIdx_cons, List.filterMap_cons]
    by_cases hstatus : r.kind = .status
    · simp only [hkind, hstatus, if_true, List.map_cons]
      refine .cons ?_ ?_
      · simp [Expects]
      · simpa [see, set_append_cons] using hrest
    · simp only [hkind, if_neg hstatus, List.map_cons]
      rwa [hother r hstatus] at hrest ⊢

end Display

namespace Cpu

open Display

theorem kind_withStatusBit (r : RegisterCell) (rank : Nat) (on : Bool) :
    (r.withStatusBit rank on).kind = r.kind :=
  congrArg Register.kind (toRegister_withStatusBit r rank on)

theorem leads_writeCell {cpu : Cpu} {i : Nat} {r : RegisterCell}
    (h : cpu.registers[i]? = some r) (v : Int) :
    let t := cpu.writeCell i (r.put v)
    Leads (of cpu) t.events (of t.cpu) := by
  intro t
  obtain ⟨hi, -⟩ := List.getElem?_eq_some_iff.1 h
  have hshown : of t.cpu = (of cpu).see (.register i (r.put v).value) := by
    simp [t, of, see, writeCell, List.map_set]
  rw [hshown]
  apply Leads.single
  simpa [Expects, of] using hi

theorem leads_showStatus (cpu : Cpu) (status : Int) :
    Leads (of cpu) (cpu.showStatus status).events (of (cpu.showStatus status).cpu) := by
  have hleads := leads_indicators (cpu.registers.map (·.value))
    (fun a => Word.bit status a.rank) [] cpu.indicators
  simpa [of, showStatus, Function.comp_def] using hleads

theorem leads_setIndicator (cpu : Cpu) (i : Nat) (on : Bool) :
    Leads (of cpu) (cpu.setIndicator i on).events (of (cpu.setIndicator i on).cpu) := by
  rw [setIndicator]
  split
  · exact .nil _
  next a ha =>
    split
    · exact .nil _
    next hchange =>
      -- the status registers are told first, while the indicator is still as it was
      have hstatuses := leads_statuses (cpu.indicators.map (·.value))
        (fun r => r.withStatusBit a.rank on) (fun r => kind_withStatusBit r a.rank on)
        (fun r hr => by rw [RegisterCell.withStatusBit, if_neg hr]) [] cpu.registers
      have hvalue : a.value = !on := by
        rw [Bool.eq_not]
        exact hchange
      refine Leads.append hstatuses ?_
      have hshown : (cpu.indicators.set i { a with value := on }).map (·.value) =
          (cpu.indicators.map (·.value)).set i on := List.map_set
      dsimp only [of]
      rw [hshown]
      apply Leads.single
      simp [Expects, ha, hvalue]

/-- The single steps tell events that lead to the new display, and so do sequences of them. -/
theorem rule_leads : EditRule fun cpu t => Leads (of cpu) t.events (of t.cpu) where
  nothing := fun _ => .nil _
  andThen := fun h hf => h.append hf
  write := leads_writeCell
  showStatus := leads_showStatus
  setIndicator := leads_setIndicator
  setEnded := fun _ _ => .nil _

/-- Every edit tells events that lead from what was shown before it to what is shown after it. -/
theorem leads_edit (cpu : Cpu) (change : Edit) :
    Leads (of cpu) (cpu.edit change).events (of (cpu.edit change).cpu) :=
  rule_leads.edit cpu change

end Cpu

end Breadboard
