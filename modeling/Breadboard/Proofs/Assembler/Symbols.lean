import Breadboard.Proofs.Assembler.Labels

/-!
# The first definition of every label

While the lines are placed, the symbol table holds the first definitions of the lines placed so far
(`Layout.find?_placeAll`). The line at a position is therefore placed with the cursor that the lines
before it leave (`Layout.advance`) and with the first definitions among them
(`Layout.getElem?_placeAll`). A label that one of them defines is a problem of the line, one that
none defines is bound to its address (`Layout.duplicates_place`, `Layout.address_place`). Only
placing finds such problems, so this is what a program shows of them
(`Program.symbols_record_first_definitions`).
-/

namespace Breadboard

/-! ## Lines that carry labels -/

/-- The problem is that a label was defined before. -/
def LineError.isDuplicate : LineError → Bool
  | .duplicateLabel _ _ => true
  | _ => false

/-- The problems of a line that its label was defined before. -/
def Line.duplicates (l : Line) : List LineError := l.errors.filter (·.isDuplicate)

theorem Line.duplicates_report (l : Line) (e : LineError) :
    (l.report e).duplicates = l.duplicates ++ [e].filter (·.isDuplicate) :=
  List.filter_append _ _

namespace Architecture

/-- Only instructions, data and label lines carry labels. -/
theorem label_eq_none_or_kind (arch : Architecture) (s : SourceLine) :
    (arch.classify s).label = none ∨
      ((arch.classify s).isStored || (arch.classify s).isLabel) = true := by
  have hform := arch.form_classify s
  generalize arch.classify s = l at hform
  cases hform with
  | directive | unknown => exact Or.inl rfl
  | code | data | label => exact Or.inr rfl

/-- The label of a classified line is the one that it defines. -/
theorem defines_classify_iff {arch : Architecture} {s : SourceLine} {name : String} :
    (arch.classify s).defines name = true ↔ (arch.classify s).label = some name := by
  rw [Line.defines, Bool.and_eq_true, beq_iff_eq]
  constructor
  · exact And.right
  · intro hlabel
    rcases label_eq_none_or_kind arch s with hnone | hkind
    · rw [hnone] at hlabel
      simp at hlabel
    · exact ⟨hkind, hlabel⟩

end Architecture

/-- The line is placed where the cursor is: it is an instruction or a label, or data that gives no
address. -/
def Line.AtCursor (l : Line) : Prop := (l.isStored || l.isLabel) = true ∧ l.address = none

namespace Layout

/-! ## Where lines go -/

/-- The address that a line takes: data has its own if it gives one, and otherwise the line is where
the cursor is. -/
def target (cursor : Int) (line : Line) : Int :=
  match line.body with
  | .data _ _ _ => line.address.getD cursor
  | _ => cursor

/-- Where the cursor goes from a line: an origin moves it, and it follows instructions and data. -/
def advance (cursor : Int) (line : Line) : Int :=
  match line.body with
  | .directive _ => line.address.getD cursor
  | .data _ _ _ | .code _ => past (target cursor line) line.footprint
  | .label | .unknown => cursor

/-- Where the cursor is behind lines that begin at zero. -/
def cursorAfter (lines : List Line) : Int := lines.foldl advance 0

variable {memorySize : Nat} {state : State} {line : Line} {name : String}

theorem cursor_place (memorySize : Nat) (state : State) (line : Line) :
    (place memorySize state line).2.cursor = advance state.cursor line := by
  rw [place, advance, target]
  split
  next word hbody => rw [hbody]
  next hbody => rw [hbody]
  next keyword size value hbody =>
    rw [hbody]
    rfl
  next c hbody =>
    rw [hbody]
    rfl
  next hbody => rw [hbody]

theorem cursor_placeAll (memorySize : Nat) (state : State) (lines : List Line) :
    (placeAll memorySize state lines).2.cursor = lines.foldl advance state.cursor := by
  induction lines generalizing state with
  | nil => rfl
  | cons line rest ih =>
    rw [placeAll, List.foldl_cons, ← cursor_place memorySize]
    exact ih _

/-- An instruction, data or a label line has the address that it takes. -/
theorem address_place (hkind : (line.isStored || line.isLabel) = true) (memorySize : Nat)
    (state : State) :
    (place memorySize state line).1.address = some (target state.cursor line) := by
  rw [Line.isStored, Line.isLabel] at hkind
  rw [place]
  split
  next word hbody => simp [hbody] at hkind
  next hbody =>
    have htarget : target state.cursor line = state.cursor := by rw [target, hbody]
    obtain ⟨errors, hbind⟩ :=
      bind_eq state.symbols { line with address := some state.cursor } state.cursor
    rw [htarget]
    exact congrArg Line.address hbind
  next keyword size value hbody =>
    have htarget : target state.cursor line = line.address.getD state.cursor := by
      rw [target, hbody]
    obtain ⟨errors, hplace⟩ := placeAt_eq memorySize state line (line.address.getD state.cursor)
    rw [htarget, hplace]
  next c hbody =>
    have htarget : target state.cursor line = state.cursor := by rw [target, hbody]
    obtain ⟨errors, hplace⟩ := placeAt_eq memorySize state line state.cursor
    rw [htarget, hplace]
  next hbody => simp [hbody] at hkind

/-- A line that gives no address of its own takes the cursor. -/
theorem target_of_address_eq_none (h : line.address = none) (cursor : Int) :
    target cursor line = cursor := by
  rw [target, h]
  split
  · rfl
  · rfl

/-! ## Labels defined before -/

/-- The problem of a line whose label is bound already. -/
def duplicate? (symbols : SymbolTable) (line : Line) : Option LineError :=
  line.label.bind fun name =>
    (symbols.find? name).map fun s => .duplicateLabel name s.line

/-- Binding a label finds out whether it is bound already. -/
theorem duplicates_bind (hnone : line.duplicates = []) (symbols : SymbolTable) (address : Int) :
    (bind symbols line address).1.duplicates = (duplicate? symbols line).toList := by
  rw [bind, duplicate?]
  cases line.label with
  | none => exact hnone
  | some name =>
    dsimp only
    rw [Option.bind_some]
    cases symbols.find? name with
    | none => exact hnone
    | some s =>
      rw [Line.duplicates_report, hnone]
      rfl

/-- So does placing a line: a line that is not placed carries no label. -/
theorem duplicates_place (hnone : line.duplicates = [])
    (hlabel : line.label = none ∨ (line.isStored || line.isLabel) = true) (memorySize : Nat)
    (state : State) :
    (place memorySize state line).1.duplicates = (duplicate? state.symbols line).toList := by
  have hbind (a : Int) : (bind state.symbols { line with address := some a } a).1.duplicates =
      (duplicate? state.symbols line).toList := by
    have hnone' : ({ line with address := some a } : Line).duplicates = [] := hnone
    exact duplicates_bind hnone' state.symbols a
  have hplaceAt (a : Int) : (placeAt memorySize state line a).1.duplicates =
      (duplicate? state.symbols line).toList := by
    rw [placeAt]
    dsimp only
    split
    · exact hbind a
    · rw [Line.duplicates_report, hbind a]
      exact List.append_nil _
  have hunplaced (hkind : (line.isStored || line.isLabel) = false) :
      line.duplicates = (duplicate? state.symbols line).toList := by
    rw [hnone, duplicate?, hlabel.resolve_right (by simp [hkind])]
    rfl
  rw [Line.isStored, Line.isLabel] at hunplaced
  rw [place]
  split
  next word hbody => exact hunplaced (by rw [hbody]; rfl)
  next hbody => exact hbind state.cursor
  next keyword size value hbody => exact hplaceAt _
  next c hbody => exact hplaceAt _
  next hbody => exact hunplaced (by rw [hbody]; rfl)

/-! ## One line after another -/

/-- The line at a position is placed in the state that the lines before it leave. -/
theorem getElem?_placeAll (memorySize : Nat) (state : State) (lines : List Line) (i : Nat) :
    (placeAll memorySize state lines).1[i]? =
      lines[i]?.map fun line =>
        (place memorySize (placeAll memorySize state (lines.take i)).2 line).1 := by
  induction lines generalizing state i with
  | nil => rfl
  | cons line rest ih =>
    cases i with
    | zero => rfl
    | succ i => exact ih _ i

/-- What is placed first does not depend on what comes later. -/
theorem placeAll_take (memorySize : Nat) (state : State) (lines : List Line) (i : Nat) :
    (placeAll memorySize state (lines.take i)).1 = (placeAll memorySize state lines).1.take i := by
  induction lines generalizing state i with
  | nil => simp [placeAll]
  | cons line rest ih =>
    cases i with
    | zero => rfl
    | succ i => exact congrArg (_ :: ·) (ih _ i)

end Layout

/-! ## Every label once -/

namespace SymbolTable

/-- The labels that are bound. -/
def names (t : SymbolTable) : List String := t.map (·.name)

theorem mem_names_iff {t : SymbolTable} {name : String} :
    name ∈ t.names ↔ (t.find? name).isSome = true := by
  rw [names, find?, List.find?_isSome]
  simp

theorem nodup_define {t : SymbolTable} (h : t.names.Nodup) (s : Symbol) :
    (t.define s).names.Nodup := by
  rw [define]
  cases hfind : t.find? s.name with
  | some found => exact h
  | none =>
    have hfree : s.name ∉ t.names := by
      rw [mem_names_iff, hfind]
      exact Bool.false_ne_true
    have hnames : names (t ++ [s]) = t.names ++ [s.name] := List.map_append
    dsimp only
    rw [hnames]
    exact List.nodup_append_comm.1 (List.nodup_cons.2 ⟨hfree, h⟩)

end SymbolTable

namespace Layout

theorem nodup_bind {symbols : SymbolTable} (h : symbols.names.Nodup) (line : Line) (address : Int) :
    (bind symbols line address).2.names.Nodup := by
  rw [bind]
  split
  · exact h
  · split
    · exact h
    · exact SymbolTable.nodup_define h _

/-- Placing a line keeps every label bound once. -/
theorem nodup_place {state : State} (h : state.symbols.names.Nodup) (memorySize : Nat)
    (line : Line) : (place memorySize state line).2.symbols.names.Nodup := by
  rw [place]
  split
  · exact h
  · exact nodup_bind h _ _
  · exact nodup_bind h _ _
  · exact nodup_bind h _ _
  · exact h

theorem nodup_placeAll {state : State} (h : state.symbols.names.Nodup) (memorySize : Nat)
    (lines : List Line) : (placeAll memorySize state lines).2.symbols.names.Nodup := by
  induction lines generalizing state with
  | nil => exact h
  | cons line rest ih => exact ih (nodup_place h memorySize line)

theorem label_place (memorySize : Nat) (state : State) (line : Line) :
    (place memorySize state line).1.label = line.label := by
  obtain ⟨address, errors, hplace⟩ := place_eq memorySize state line
  rw [hplace]

/-- Placing does not change what a line defines. -/
theorem defines_place (memorySize : Nat) (state : State) (line : Line) (name : String) :
    (place memorySize state line).1.defines name = line.defines name := by
  obtain ⟨address, errors, hplace⟩ := place_eq memorySize state line
  rw [hplace]
  rfl

end Layout

namespace Resolution

variable (symbols : SymbolTable) (line : Line)

@[simp] theorem number_resolve : (resolve symbols line).number = line.number := by
  rcases resolve_cases symbols line with heq | ⟨e, heq⟩ | ⟨code, v, -, heq⟩
  · rw [heq]
  · rw [heq, Line.report]
  · rw [heq]

/-- Resolving finds no label that was defined before. -/
theorem duplicates_resolve : (resolve symbols line).duplicates = line.duplicates := by
  rw [resolve]
  split
  · split
    · split
      · rfl
      · dsimp only
        split
        · rfl
        next e he =>
          have hother : e.isDuplicate = false := by
            have hpass := pass_of_value he
            cases e with
            | duplicateLabel name first => simp [LineError.pass] at hpass
            | _ => rfl
          rw [Line.duplicates_report, List.filter_singleton, hother]
          exact List.append_nil _
    · rfl
  · rfl

end Resolution

/-! ## Programs -/

/-- Nor does classification. -/
theorem Line.Classified.duplicates {arch : Architecture} {l : Line} (h : l.Classified arch) :
    l.duplicates = [] := by
  rw [Line.duplicates, List.filter_eq_nil_iff]
  intro e he
  have hpass := h.pass e he
  cases e with
  | duplicateLabel name first => simp [LineError.pass] at hpass
  | _ => exact Bool.false_ne_true

/-- The lines of the source as they are classified. -/
def Architecture.classified (arch : Architecture) (source : String) : List Line :=
  (SourceLine.split arch.rules.comment source).map arch.classify

namespace Program

variable {arch : Architecture} {source : String} {memorySize i : Nat} {l : Line} {name : String}

theorem symbols_assemble (arch : Architecture) (source : String) (memorySize : Nat) :
    (assemble arch source memorySize).symbols =
      (Layout.placeAll memorySize {} (arch.classified source)).2.symbols := by
  rw [assemble, Architecture.classified]

theorem lines_assemble (arch : Architecture) (source : String) (memorySize : Nat) :
    (assemble arch source memorySize).lines =
      (Layout.placeAll memorySize {} (arch.classified source)).1.map
        (Resolution.resolve (assemble arch source memorySize).symbols) := by
  rw [symbols_assemble, assemble, Architecture.classified]

/-- The line at a position is that of the source, placed in the state that the lines before it leave
and resolved. -/
theorem getElem?_lines (arch : Architecture) (source : String) (memorySize i : Nat) :
    (assemble arch source memorySize).lines[i]? =
      (SourceLine.split arch.rules.comment source)[i]?.map fun s =>
        Resolution.resolve (assemble arch source memorySize).symbols
          (Layout.place memorySize
            (Layout.placeAll memorySize {} ((arch.classified source).take i)).2
            (arch.classify s)).1 := by
  have hclassified : (arch.classified source)[i]? =
      (SourceLine.split arch.rules.comment source)[i]?.map arch.classify := List.getElem?_map
  simp only [lines_assemble, List.getElem?_map, Layout.getElem?_placeAll, hclassified,
    Option.map_map, Function.comp_def]

theorem exists_of_getElem?_lines (h : (assemble arch source memorySize).lines[i]? = some l) :
    ∃ s, (arch.classified source)[i]? = some (arch.classify s) ∧
      l = Resolution.resolve (assemble arch source memorySize).symbols
        (Layout.place memorySize
          (Layout.placeAll memorySize {} ((arch.classified source).take i)).2
          (arch.classify s)).1 := by
  rw [getElem?_lines] at h
  obtain ⟨s, hs, rfl⟩ := Option.map_eq_some_iff.1 h
  refine ⟨s, ?_, rfl⟩
  rw [Architecture.classified, List.getElem?_map, hs]
  rfl

/-- What is bound when the line at a position is placed: the first definitions among the lines
before it. -/
theorem find?_symbols_take (arch : Architecture) (source : String) (memorySize i : Nat)
    (name : String) :
    (Layout.placeAll memorySize {} ((arch.classified source).take i)).2.symbols.find? name =
      (((assemble arch source memorySize).lines.take i).find? (·.defines name)).bind fun l =>
        l.address.map fun a => ⟨name, a, l.number⟩ := by
  have hsame : (fun l : Line => l.defines name) ∘
      Resolution.resolve (assemble arch source memorySize).symbols = fun l => l.defines name := by
    funext l
    exact Resolution.defines_resolve _ l name
  rw [Layout.find?_placeAll, Layout.placeAll_take, lines_assemble, ← List.map_take,
    List.find?_map, hsame]
  cases ((Layout.placeAll memorySize {} (arch.classified source)).1.take i).find?
    (·.defines name) with
  | none => rfl
  | some l => simp [SymbolTable.find?]

/-- What is bound in the end: the first definitions. -/
theorem find?_symbols_eq (arch : Architecture) (source : String) (memorySize : Nat)
    (name : String) :
    (assemble arch source memorySize).symbols.find? name =
      ((assemble arch source memorySize).definition? name).bind fun l =>
        l.address.map fun a => ⟨name, a, l.number⟩ := by
  have hlength : (assemble arch source memorySize).lines.length =
      (arch.classified source).length := by
    rw [lines_assemble, List.length_map, Layout.length_placeAll]
  have htake := find?_symbols_take arch source memorySize (arch.classified source).length name
  rw [← hlength, List.take_length, hlength, List.take_length] at htake
  exact htake

/-- Labels stand on instructions, data and label lines only. -/
theorem label_eq_some_iff (hl : l ∈ (assemble arch source memorySize).lines) :
    l.label = some name ↔ l.defines name = true := by
  obtain ⟨s, state, rfl⟩ := mem_lines_assemble hl
  rw [Resolution.defines_resolve, Layout.defines_place, Architecture.defines_classify_iff,
    Resolution.label_resolve, Layout.label_place]

/-- An instruction, data or a label line has the address that it takes where the lines before it
leave the cursor. -/
theorem address_of_placed {s : SourceLine}
    (hs : (SourceLine.split arch.rules.comment source)[i]? = some s)
    (hl : (assemble arch source memorySize).lines[i]? = some l)
    (hkind : (l.isStored || l.isLabel) = true) :
    l.address = some (Layout.target (Layout.cursorAfter ((arch.classified source).take i))
      (arch.classify s)) := by
  rw [getElem?_lines, hs, Option.map_some, Option.some.injEq] at hl
  subst hl
  rw [Resolution.isStored_resolve, Resolution.isLabel_resolve, Line.isStored, Line.isLabel,
    Layout.body_place] at hkind
  rw [Resolution.address_resolve, Layout.address_place hkind, Layout.cursor_placeAll]
  rfl

/-- So has a line that defines a label. -/
theorem address_of_getElem?_lines (h : (assemble arch source memorySize).lines[i]? = some l)
    (hdefines : l.defines name = true) :
    ∃ line, (arch.classified source)[i]? = some line ∧
      l.address =
        some (Layout.target (Layout.cursorAfter ((arch.classified source).take i)) line) := by
  have hline := h
  rw [getElem?_lines] at hline
  obtain ⟨s, hs, -⟩ := Option.map_eq_some_iff.1 hline
  refine ⟨arch.classify s, ?_, address_of_placed hs h (Bool.and_eq_true_iff.1 hdefines).1⟩
  rw [Architecture.classified, List.getElem?_map, hs]
  rfl

/-- A line has the problem that its label was defined before if a line before it defines the label,
and the problem gives the number of the first line that does. -/
theorem duplicates_of_getElem?_lines (h : (assemble arch source memorySize).lines[i]? = some l) :
    l.duplicates =
      (l.label.bind fun name =>
        (((assemble arch source memorySize).lines.take i).find? (·.defines name)).map fun first =>
          .duplicateLabel name first.number).toList := by
  obtain ⟨s, -, rfl⟩ := exists_of_getElem?_lines h
  have hnone : (arch.classify s).duplicates = [] :=
    (Architecture.classified_classify s).duplicates
  rw [Resolution.duplicates_resolve,
    Layout.duplicates_place hnone (arch.label_eq_none_or_kind s), Resolution.label_resolve,
    Layout.label_place, Layout.duplicate?]
  congr 2
  funext name
  rw [find?_symbols_take]
  cases hfirst : ((assemble arch source memorySize).lines.take i).find? (·.defines name) with
  | none => rfl
  | some first =>
    -- the first line that defines the label has an address, so the label is bound
    have hmem := List.mem_of_mem_take (List.mem_of_find?_eq_some hfirst)
    obtain ⟨j, hj⟩ := List.mem_iff_getElem?.1 hmem
    obtain ⟨line, -, ha⟩ := address_of_getElem?_lines hj (List.find?_some hfirst)
    rw [Option.bind_some, ha]
    rfl

/-- Where no line before it defines the label, a line that defines it is the first to do so. -/
theorem definition?_eq_of_take {p : Program} (h : p.lines[i]? = some l)
    (hdefines : l.defines name = true) (hfirst : ∀ k ∈ p.lines.take i, k.defines name = false) :
    p.definition? name = some l := by
  obtain ⟨hi, rfl⟩ := List.getElem?_eq_some_iff.1 h
  rw [definition?, List.find?_eq_some_iff_getElem]
  refine ⟨hdefines, i, hi, rfl, ?_⟩
  intro j hj
  have hmem : p.lines[j] ∈ p.lines.take i := List.mem_take_iff_getElem.2 ⟨j, by omega, rfl⟩
  simp [hfirst _ hmem]

/-- The labels that are bound are those that lines define. -/
theorem mem_names_symbols_iff (arch : Architecture) (source : String) (memorySize : Nat)
    (name : String) :
    name ∈ (assemble arch source memorySize).symbols.names ↔
      ∃ l ∈ (assemble arch source memorySize).lines, l.defines name = true := by
  rw [SymbolTable.mem_names_iff]
  rcases find?_symbols arch source memorySize name with
    ⟨hnone, hfree⟩ | ⟨k, T, s, hdefined, -, hbound, -⟩
  · rw [definition?, List.find?_eq_none] at hnone
    rw [hfree]
    simpa using hnone
  · rw [hbound]
    simp only [Option.isSome_some, true_iff]
    exact ⟨k, List.mem_of_find?_eq_some hdefined, List.find?_some hdefined⟩

/-- For every architecture, source and memory size: labels are carried by instructions, data and
label lines only, a label is in the symbol table exactly if a line carries it, and it is there once.
The symbol has the number of the first line that carries the label and the address that this line
takes: where the lines before it leave the cursor, or for data its own if it gives one. A line whose
label is carried by a line before it has one problem that the label was defined before, with the
number of the first line that carries it, and no other line has such a problem. -/
theorem symbols_record_first_definitions (arch : Architecture) (source : String)
    (memorySize : Nat) :
    let p := assemble arch source memorySize
    (∀ l ∈ p.lines, ∀ name, l.label = some name ↔ l.defines name = true) ∧
    (∀ name, name ∈ p.symbols.names ↔ ∃ l ∈ p.lines, l.defines name = true) ∧
    p.symbols.names.Nodup ∧
    (∀ i l name, p.lines[i]? = some l → l.defines name = true →
      (∀ k ∈ p.lines.take i, k.defines name = false) →
        ∃ line, (arch.classified source)[i]? = some line ∧
          p.symbols.find? name =
            some ⟨name, Layout.target (Layout.cursorAfter ((arch.classified source).take i)) line,
              l.number⟩) ∧
    (∀ i l, p.lines[i]? = some l →
      (∀ name first, l.defines name = true →
        (p.lines.take i).find? (·.defines name) = some first →
          l.duplicates = [.duplicateLabel name first.number]) ∧
      ((∀ name, l.defines name = true → ∀ k ∈ p.lines.take i, k.defines name = false) →
        l.duplicates = [])) := by
  intro p
  refine ⟨?_, ?_, ?_, ?_, ?_⟩
  · intro l hl name
    exact label_eq_some_iff hl
  · exact mem_names_symbols_iff arch source memorySize
  · have hempty : (({} : Layout.State).symbols.names).Nodup := List.nodup_nil
    exact Layout.nodup_placeAll hempty _ _
  · intro i l name hi hdefines hfirst
    obtain ⟨line, hline, ha⟩ := address_of_getElem?_lines hi hdefines
    refine ⟨line, hline, ?_⟩
    rw [find?_symbols_eq, definition?_eq_of_take hi hdefines hfirst, Option.bind_some, ha]
    rfl
  · intro i l hi
    have hl := List.mem_of_getElem? hi
    have hduplicates := duplicates_of_getElem?_lines hi
    constructor
    · intro name first hdefines hfirst
      rw [hduplicates, (label_eq_some_iff hl).2 hdefines, Option.bind_some, hfirst]
      rfl
    · intro hfree
      rw [hduplicates]
      cases hlabel : l.label with
      | none => rfl
      | some name =>
        have hnone : (p.lines.take i).find? (·.defines name) = none := by
          rw [List.find?_eq_none]
          intro k hk
          simp [hfree name ((label_eq_some_iff hl).1 hlabel) k hk]
        rw [Option.bind_some, hnone]
        rfl

/-- Data at an address of its own, and a label that is defined again behind it. -/
theorem symbols_record_first_definitions_edu1 :
    let source := "here:\ncount 100 7\nhere: LDA count\n.END\n"
    let p := assemble Edu1.architecture source 256
    (∃ l, p.lines[1]? = some l ∧ l.defines "count" = true) ∧
      p.symbols.find? "count" = some ⟨"count", 100, 2⟩ ∧
      ∃ l, p.lines[2]? = some l ∧ l.defines "here" = true ∧
        l.duplicates = [.duplicateLabel "here" 1] := by
  intro source p
  obtain ⟨-, -, -, hbound, hduplicates⟩ :=
    symbols_record_first_definitions Edu1.architecture source 256
  have hcount : p.lines[1]?.any (fun l => l.defines "count" && l.number == 2) = true := by
    decide
  have htarget : (Edu1.architecture.classified source)[1]?.map
      (Layout.target (Layout.cursorAfter ((Edu1.architecture.classified source).take 1))) =
        some 100 := by
    decide
  have hhere : p.lines[2]?.any (·.defines "here") = true := by decide
  have hbefore : ((p.lines.take 2).find? (·.defines "here")).map (·.number) = some 1 := by
    decide
  obtain ⟨l, hl, hdefines⟩ := (Option.any_eq_true _ _).1 hcount
  obtain ⟨hname, hnumber⟩ := Bool.and_eq_true_iff.1 hdefines
  obtain ⟨line, hline, hsymbol⟩ := hbound 1 l "count" hl hname (by decide)
  obtain ⟨k, hk, hagain⟩ := (Option.any_eq_true _ _).1 hhere
  obtain ⟨first, hfirst, hone⟩ := Option.map_eq_some_iff.1 hbefore
  rw [hline, Option.map_some] at htarget
  refine ⟨⟨l, hl, hname⟩, ?_, k, hk, hagain, ?_⟩
  · rw [hsymbol, Option.some.inj htarget, eq_of_beq hnumber]
  · rw [(hduplicates 2 k hk).1 "here" first hagain hfirst, hone]

end Program

end Breadboard
