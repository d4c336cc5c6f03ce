import Breadboard.Assembler.Program
import Mathlib.Tactic

/-!
# What the passes do to a line

A line is classified, placed and resolved, and each pass leaves alone what the passes before it
decided. Placing changes the address and adds problems (`place_eq`); an instruction or data line
that gets no problem lies inside memory (`place_inside`). Resolving adds a problem or sets the value
of the operand (`resolve_cases`). So every line of a program comes from one line of the source
through these three steps (`mem_lines_assemble`).
-/

namespace Breadboard

/-- The instruction with `v` as the value of its operand. -/
def CodeLine.withValue (c : CodeLine) (v : Int) : CodeLine :=
  { c with operand := c.operand.map fun o => { o with value := v } }

@[simp] theorem CodeLine.footprint_withValue (c : CodeLine) (v : Int) :
    (c.withValue v).footprint = c.footprint := by
  obtain ⟨mnemonic, size, relative, operand, opcode⟩ := c
  cases operand <;> rfl

namespace Line

/-- The line is an instruction or data, so it is stored in memory. -/
def isStored (l : Line) : Bool :=
  match l.body with
  | .code _ | .data _ _ _ => true
  | _ => false

theorem isStored_of_isCode {l : Line} (h : l.isCode = true) : l.isStored = true := by
  rw [isCode] at h
  rw [isStored]
  split at h
  next c hc => rw [hc]
  next => simp at h

end Line

/-! ## Placing -/

namespace Layout

/-- Binding a label adds at most a problem. -/
theorem bind_eq (symbols : SymbolTable) (line : Line) (address : Int) :
    ∃ errors, (bind symbols line address).1 = { line with errors := line.errors ++ errors } := by
  rw [bind]
  split
  · exact ⟨[], by simp⟩
  · split
    · exact ⟨_, rfl⟩
    · exact ⟨[], by simp⟩

/-- A line placed at an address has that address; beyond that it may have more problems. -/
theorem placeAt_eq (memorySize : Nat) (state : State) (line : Line) (address : Int) :
    ∃ errors, (placeAt memorySize state line address).1 =
      { line with address := some address, errors := line.errors ++ errors } := by
  obtain ⟨errors, hbind⟩ := bind_eq state.symbols { line with address := some address } address
  rw [placeAt]
  dsimp only
  rw [hbind]
  split
  · exact ⟨errors, rfl⟩
  · exact ⟨errors ++ [.addressOutOfRange address line.footprint], by simp [Line.report]⟩

/-- A line that gets no problem where it is placed lies inside memory. -/
theorem fits_of_placeAt {memorySize : Nat} {state : State} {line : Line} {address : Int}
    (h : (placeAt memorySize state line address).1.errors = []) :
    fits address line.footprint memorySize = true := by
  by_contra hfits
  rw [placeAt] at h
  -- outside memory the line would have got a problem
  simp [hfits, Line.report] at h

/-- Placing a line changes its address and adds problems. -/
theorem place_eq (memorySize : Nat) (state : State) (line : Line) :
    ∃ address errors, (place memorySize state line).1 =
      { line with address, errors := line.errors ++ errors } := by
  rw [place]
  -- a directive keeps the address it names, a label takes the cursor, and data and instructions
  -- are placed
  split
  next => exact ⟨line.address, [], by simp⟩
  next =>
    obtain ⟨errors, hbind⟩ :=
      bind_eq state.symbols { line with address := some state.cursor } state.cursor
    exact ⟨some state.cursor, errors, hbind⟩
  next =>
    obtain ⟨errors, h⟩ := placeAt_eq memorySize state line (line.address.getD state.cursor)
    exact ⟨_, errors, h⟩
  next =>
    obtain ⟨errors, h⟩ := placeAt_eq memorySize state line state.cursor
    exact ⟨_, errors, h⟩
  next => exact ⟨line.address, [], by simp⟩

@[simp] theorem body_place (memorySize : Nat) (state : State) (line : Line) :
    (place memorySize state line).1.body = line.body := by
  obtain ⟨address, errors, hplace⟩ := place_eq memorySize state line
  rw [hplace]

theorem number_place (memorySize : Nat) (state : State) (line : Line) :
    (place memorySize state line).1.number = line.number := by
  obtain ⟨address, errors, hplace⟩ := place_eq memorySize state line
  rw [hplace]

theorem footprint_place (memorySize : Nat) (state : State) (line : Line) :
    (place memorySize state line).1.footprint = line.footprint := by
  rw [Line.footprint, Line.footprint, body_place]

/-- Both kinds of stored lines are placed by `placeAt`, which checks the bounds. -/
theorem exists_place_of_isStored {line : Line} (h : line.isStored = true) (memorySize : Nat)
    (state : State) :
    ∃ address, place memorySize state line = placeAt memorySize state line address := by
  rw [Line.isStored] at h
  rw [place]
  split at h
  next c hc => exact ⟨state.cursor, by rw [hc]⟩
  next keyword size value hd => exact ⟨line.address.getD state.cursor, by rw [hd]⟩
  next => simp at h

/-- An instruction or data line that gets no problem lies inside memory. -/
theorem place_inside {memorySize : Nat} {state : State} {line : Line}
    (hstored : line.isStored = true) (h : (place memorySize state line).1.errors = []) :
    ∃ start : Nat, (place memorySize state line).1.address = some (start : Int) ∧
      start + line.footprint ≤ memorySize := by
  obtain ⟨address, heq⟩ := exists_place_of_isStored hstored memorySize state
  rw [heq] at h ⊢
  have hfits := fits_of_placeAt h
  simp only [fits, Bool.and_eq_true, decide_eq_true_eq] at hfits
  obtain ⟨errors, hline⟩ := placeAt_eq memorySize state line address
  refine ⟨address.toNat, ?_, hfits.2⟩
  rw [hline, Int.toNat_of_nonneg hfits.1]

/-- One line is placed, and then the others. -/
theorem placeAll_cons (memorySize : Nat) (state : State) (line : Line) (rest : List Line) :
    placeAll memorySize state (line :: rest) =
      ((place memorySize state line).1 ::
          (placeAll memorySize (place memorySize state line).2 rest).1,
        (placeAll memorySize (place memorySize state line).2 rest).2) := rfl

/-- Lines are placed in two parts, the second in the state that the first leaves. -/
theorem placeAll_append (memorySize : Nat) (state : State) (xs ys : List Line) :
    placeAll memorySize state (xs ++ ys) =
      ((placeAll memorySize state xs).1 ++
          (placeAll memorySize (placeAll memorySize state xs).2 ys).1,
        (placeAll memorySize (placeAll memorySize state xs).2 ys).2) := by
  induction xs generalizing state with
  | nil => rfl
  | cons x xs ih =>
    rw [List.cons_append, placeAll_cons, placeAll_cons, ih, List.cons_append]

/-- Every line of a walk is a line that was placed at some point of it. -/
theorem mem_placeAll {memorySize : Nat} {state : State} {lines : List Line} {l : Line}
    (h : l ∈ (placeAll memorySize state lines).1) :
    ∃ line ∈ lines, ∃ state', l = (place memorySize state' line).1 := by
  -- each line is placed in the state that the lines before it leave
  induction lines generalizing state with
  | nil => simp [placeAll] at h
  | cons line rest ih =>
    rw [placeAll] at h
    rcases List.mem_cons.1 h with rfl | hrest
    · exact ⟨line, List.mem_cons_self, state, rfl⟩
    · obtain ⟨line', hmem, state', hl⟩ := ih hrest
      exact ⟨line', List.mem_cons_of_mem _ hmem, state', hl⟩

end Layout

/-! ## Resolving -/

/-- The label that the operand of a line names. -/
def Line.named? (l : Line) : Option String :=
  match l.body with
  | .code c => c.operand.bind (·.label)
  | _ => none

namespace Resolution

/-- A line that names no label is left alone. -/
theorem resolve_of_named? {line : Line} (h : line.named? = none) (symbols : SymbolTable) :
    resolve symbols line = line := by
  rw [Line.named?] at h
  rw [resolve]
  split
  next c a hbody haddress =>
    rw [hbody] at h
    dsimp only at h
    split
    next o text mode name v size ho => simp [ho] at h
    next => rfl
  next => rfl

/-- Resolving a line does nothing, adds a problem or sets the value of the operand. -/
theorem resolve_cases (symbols : SymbolTable) (line : Line) :
    resolve symbols line = line ∨ (∃ e, resolve symbols line = line.report e) ∨
      ∃ code v, line.body = .code code ∧
        resolve symbols line = { line with body := .code (code.withValue v) } := by
  rw [resolve]
  -- only an instruction that has an address and a label for its operand is touched
  split
  next code address hbody haddress =>
    split
    · split
      · exact Or.inl rfl
      · dsimp only
        split
        next v hv => exact Or.inr (Or.inr ⟨code, v, hbody, rfl⟩)
        next e he => exact Or.inr (Or.inl ⟨e, rfl⟩)
    · exact Or.inl rfl
  next => exact Or.inl rfl

/-- A line that has no problem after it was resolved had none before. -/
theorem errors_of_resolve {symbols : SymbolTable} {line : Line}
    (h : (resolve symbols line).errors = []) : line.errors = [] := by
  rcases resolve_cases symbols line with heq | ⟨e, heq⟩ | ⟨code, v, -, heq⟩
  · rwa [heq] at h
  · simp [heq, Line.report] at h
  · rwa [heq] at h

@[simp] theorem address_resolve (symbols : SymbolTable) (line : Line) :
    (resolve symbols line).address = line.address := by
  rcases resolve_cases symbols line with heq | ⟨e, heq⟩ | ⟨code, v, -, heq⟩
  · rw [heq]
  · rw [heq, Line.report]
  · rw [heq]

/-- The value of an operand does not change the room that a line takes. -/
@[simp] theorem footprint_resolve (symbols : SymbolTable) (line : Line) :
    (resolve symbols line).footprint = line.footprint := by
  rcases resolve_cases symbols line with heq | ⟨e, heq⟩ | ⟨code, v, hbody, heq⟩
  · rw [heq]
  · rw [heq]
    rfl
  · rw [heq, Line.footprint, Line.footprint, hbody]
    exact code.footprint_withValue v

@[simp] theorem isStored_resolve (symbols : SymbolTable) (line : Line) :
    (resolve symbols line).isStored = line.isStored := by
  rcases resolve_cases symbols line with heq | ⟨e, heq⟩ | ⟨code, v, hbody, heq⟩
  · rw [heq]
  · rw [heq]
    rfl
  · rw [heq, Line.isStored, Line.isStored, hbody]

end Resolution

/-! ## All passes -/

/-- Every line of a program comes from a line of the source: it was classified, then placed at some
point of the walk, then resolved. -/
theorem Program.mem_lines_assemble {arch : Architecture} {source : String} {memorySize : Nat}
    {l : Line} (h : l ∈ (assemble arch source memorySize).lines) :
    ∃ s state, l = Resolution.resolve (assemble arch source memorySize).symbols
      (Layout.place memorySize state (arch.classify s)).1 := by
  -- the passes are undone from the last to the first
  obtain ⟨placed, hplaced, rfl⟩ := List.mem_map.1 h
  obtain ⟨line, hline, state, rfl⟩ := Layout.mem_placeAll hplaced
  obtain ⟨s, -, rfl⟩ := List.mem_map.1 hline
  exact ⟨s, state, rfl⟩

end Breadboard
