import Breadboard.Proofs.Machine

/-!
# What listeners hear of writes

What a write delivers to a listener depends on its window only, so a sequence of writes delivers to
every listener the last bytes that its window was given, or nothing (`hear`). Hearing the same again
changes nothing (`Listener.hear_hear_self`). The journal tells of what probes were given before it
tells of the write (`Machine.journal_store`). The outcome of writing depends on memory only, and so
does what is heard of it: on every machine with that memory it is the same
(`Machine.exists_writeAll_eq`, `Program.exists_load_eq`).
-/

namespace Breadboard

/-! ## Hearing -/

/-- The listener after it was given the bytes for its window, if there are any. -/
def Listener.hear (heard : Window → Option (List UInt8)) (l : Listener) : Listener :=
  match heard l.window with
  | some bytes => l.receive bytes
  | none => l

/-- The controller after its listeners were given the bytes for their windows. -/
def Controller.hear (heard : Window → Option (List UInt8)) (c : Controller) : Controller :=
  { c with listeners := c.listeners.map (·.hear heard) }

@[simp] theorem Listener.window_receive (bytes : List UInt8) (l : Listener) :
    (l.receive bytes).window = l.window := by
  cases l with
  | probe window => rfl
  | panel p => rfl

/-- Only the last delivery counts. -/
theorem Listener.receive_receive (xs ys : List UInt8) (l : Listener) :
    (l.receive xs).receive ys = l.receive ys := by
  cases l with
  | probe window => rfl
  | panel p => rfl

@[simp] theorem Listener.window_hear (heard : Window → Option (List UInt8)) (l : Listener) :
    (l.hear heard).window = l.window := by
  rw [hear]
  split
  · exact window_receive _ l
  · rfl

/-- Hearing twice is hearing what was heard last. -/
theorem Listener.hear_hear (first second : Window → Option (List UInt8)) (l : Listener) :
    (l.hear first).hear second = l.hear fun w => (second w).or (first w) := by
  rw [hear, window_hear, hear, hear]
  cases second l.window with
  | none => rfl
  | some ys =>
    cases first l.window with
    | none => rfl
    | some xs => exact receive_receive xs ys l

theorem Listener.hear_hear_self (heard : Window → Option (List UInt8)) (l : Listener) :
    (l.hear heard).hear heard = l.hear heard := by
  rw [hear_hear]
  congr 1
  funext w
  exact Option.or_self

theorem Controller.hear_hear (first second : Window → Option (List UInt8)) (c : Controller) :
    (c.hear first).hear second = c.hear fun w => (second w).or (first w) := by
  rw [hear, hear, hear, List.map_map]
  congr 1
  exact List.map_congr_left fun l _ => l.hear_hear first second

theorem Controller.hear_hear_self (heard : Window → Option (List UInt8)) (c : Controller) :
    (c.hear heard).hear heard = c.hear heard := by
  rw [hear, hear, List.map_map]
  congr 1
  exact List.map_congr_left fun l _ => l.hear_hear_self heard

/-- Hearing nothing changes nothing. -/
theorem Controller.hear_none (c : Controller) : c.hear (fun _ => none) = c := by
  rw [hear]
  congr 1
  exact List.map_id _

/-! ## What a write delivers -/

/-- What a window is given after a write of `length` bytes at `address` to `m`. -/
def Window.given (m : Memory) (address : Int) (length : Nat) (w : Window) : Option (List UInt8) :=
  if w.overlaps address length && w.inside m.size then some (m.slice w.base.toNat w.size) else none

/-- The event tells of what was delivered to a window, and not of the processor or of memory. -/
def Event.isDelivery : Event → Bool
  | .delivery _ _ _ _ _ => true
  | _ => false

namespace Machine

/-- After a store every controller heard what it gave to the windows. -/
theorem controllers_store (m : Machine) (start : Nat) (bytes : List UInt8) :
    (m.store start bytes).controllers =
      m.controllers.map (·.hear (Window.given (m.memory.overlay start bytes) start bytes.length)) :=
  rfl

/-- A store enters the write into the journal after what it delivers. -/
theorem journal_store (m : Machine) (start : Nat) (bytes : List UInt8) :
    ∃ es, (m.store start bytes).journal = .memory start bytes.length :: (es ++ m.journal) ∧
      ∀ e ∈ es, e.isDelivery = true := by
  refine ⟨_, congrArg _ List.reverseAux_eq, ?_⟩
  intro e he
  obtain ⟨deliveries, hdeliveries, hmem⟩ := List.mem_flatten.1 (List.mem_reverse.1 he)
  obtain ⟨⟨c, i⟩, -, rfl⟩ := List.mem_map.1 hdeliveries
  obtain ⟨d, -, hd⟩ := List.mem_filterMap.1 hmem
  cases hlistener : d.listener with
  | probe w =>
    simp only [hlistener, Option.some.injEq] at hd
    rw [← hd]
    rfl
  | panel p => simp [hlistener] at hd

/-- Writing to a given memory has the same outcome on every machine. -/
theorem exists_writeAll_eq (mem : Memory) (ws : List MemoryWrite) :
    ∃ result mem' heard, ∀ m : Machine, m.memory = mem →
      ∃ journal, m.writeAll ws =
        (result, { cpu := m.cpu, memory := mem', controllers := m.controllers.map (·.hear heard),
                   journal }) := by
  induction ws generalizing mem with
  | nil =>
    refine ⟨.ok (), mem, fun _ => none, ?_⟩
    rintro m rfl
    simp only [Controller.hear_none, List.map_id']
    exact ⟨m.journal, rfl⟩
  | cons w ws ih =>
    cases hloc : mem.locate w.address w.length with
    | error e =>
      refine ⟨.error e, mem, fun _ => none, ?_⟩
      rintro m rfl
      simp only [Controller.hear_none, List.map_id', writeAll, write, hloc]
      exact ⟨m.journal, rfl⟩
    | ok start =>
      -- the first write is heard before the others
      obtain ⟨result, mem', heard, hrest⟩ := ih (mem.overlay start (Word.toBytes w.value w.length))
      let bytes := Word.toBytes w.value w.length
      let given := Window.given (mem.overlay start bytes) start bytes.length
      refine ⟨result, mem', fun w => (heard w).or (given w), ?_⟩
      rintro m rfl
      obtain ⟨journal, hrun⟩ := hrest (m.store start bytes) rfl
      refine ⟨journal, ?_⟩
      simp only [writeAll, write, hloc]
      rw [hrun, controllers_store, List.map_map, cpu_store]
      congr 3
      funext c
      exact c.hear_hear given heard

end Machine

/-- Loading into a given memory has the same outcome on every machine. -/
theorem Program.exists_load_eq (p : Program) (mem : Memory) :
    ∃ result mem' heard, ∀ m : Machine, m.memory = mem →
      ∃ journal, p.load m =
        (result, { cpu := m.cpu, memory := mem', controllers := m.controllers.map (·.hear heard),
                   journal }) := by
  cases hok : p.isOk with
  | false =>
    refine ⟨.error (.assembly p.errors), mem, fun _ => none, ?_⟩
    rintro m rfl
    simp only [Controller.hear_none, List.map_id', load_of_not_isOk hok]
    exact ⟨m.journal, rfl⟩
  | true =>
    cases hentry : p.entryPoint? with
    | none =>
      refine ⟨.error .noInstruction, mem, fun _ => none, ?_⟩
      rintro m rfl
      simp only [Controller.hear_none, List.map_id', load, hok, hentry]
      exact ⟨m.journal, rfl⟩
    | some entry =>
      obtain ⟨result, mem', heard, hwrites⟩ := Machine.exists_writeAll_eq mem p.writes
      cases result with
      | error e =>
        refine ⟨.error (.memory e), mem', heard, fun m hm => ?_⟩
        obtain ⟨journal, hrun⟩ := hwrites m hm
        exact ⟨journal, by simp [load, hok, hentry, hrun]⟩
      | ok u =>
        refine ⟨.ok entry, mem', heard, fun m hm => ?_⟩
        obtain ⟨journal, hrun⟩ := hwrites m hm
        exact ⟨journal, by simp [load, hok, hentry, hrun]⟩

end Breadboard
