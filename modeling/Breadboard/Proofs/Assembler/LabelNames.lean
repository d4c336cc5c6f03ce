import Breadboard.Proofs.Assembler.Symbols

/-!
# What labels are called

A label on a line of its own has the shape of a label, or the line is not recognised. The word in
front of an instruction or of a data keyword is the label of its line as it stands, less a colon at
its end (`Architecture.label_classify_cases`). So the names in the symbol table have the shape of
labels exactly if the words in front of instructions and data keywords have it
(`Program.names_accepted_iff`). An operand names a label of this shape only
(`Architecture.accepts_of_operandOf`): a label that is called otherwise is defined out of reach, as
`Program.underscore_name_is_bound` shows.
-/

namespace Breadboard

namespace Architecture

variable {arch : Architecture}

/-- The word in front of the instruction or of the data keyword of a source line, if the line is an
instruction or data and there is one. -/
def frontWord? (arch : Architecture) (s : SourceLine) : Option String :=
  match s.words.head?.bind arch.section? with
  | some _ => none
  | none =>
    match Keyed.find? arch.mnemonic? s.words with
    | some k => k.before
    | none => (Keyed.find? arch.dataDirective? s.words).bind (·.before)

/-! ## Labels that lines define -/

/-- A line of one word and a colon is a label only if the word has the shape of one. -/
theorem accepts_of_labelOnly? {words : List String} {name : String}
    (h : arch.labelOnly? words = some name) : arch.rules.labels.accepts name.toList = true := by
  unfold labelOnly? at h
  split at h
  · exact (Option.filter_eq_some_iff.1 h).2
  · simp at h

/-- An instruction or data has the word in front of it for its label, unchecked. Any other line has
no such word, and its label, if it has one, was checked. -/
theorem label_classify_cases (arch : Architecture) (s : SourceLine) :
    ((arch.classify s).isStored = true ∧
        (arch.classify s).label = (arch.frontWord? s).map labelOfWord) ∨
      ((arch.classify s).isStored = false ∧ arch.frontWord? s = none ∧
        ∀ name, (arch.classify s).label = some name →
          arch.rules.labels.accepts name.toList = true) := by
  have hform := arch.form_classify s
  generalize arch.classify s = l at hform
  rw [frontWord?]
  cases hform with
  | directive hsection =>
    rw [hsection]
    exact Or.inr ⟨rfl, rfl, by simp [SourceLine.toLine]⟩
  | code hsection hcode =>
    rw [hsection, hcode]
    exact Or.inl ⟨rfl, rfl⟩
  | data hsection hcode hdata =>
    rw [hsection, hcode, hdata]
    exact Or.inl ⟨rfl, rfl⟩
  | label hsection hcode hdata hlabel =>
    rw [hsection, hcode, hdata]
    refine Or.inr ⟨rfl, rfl, ?_⟩
    rintro name hname
    obtain rfl := Option.some.inj hname
    exact accepts_of_labelOnly? hlabel
  | unknown hsection hcode hdata =>
    rw [hsection, hcode, hdata]
    exact Or.inr ⟨rfl, rfl, by simp [Line.report, SourceLine.toLine]⟩

/-! ## Labels that operands name -/

/-- What an operand names has the shape of a label. -/
theorem accepts_of_operandOf {text name : String} {relative : Bool} {o : SourceOperand}
    (h : arch.operandOf text relative = .ok o) (hlabel : o.label = some name) :
    arch.rules.labels.accepts name.toList = true := by
  rw [operandOf] at h
  split at h
  · simp at h
  · dsimp only at h
    split at h
    next hshape =>
      obtain rfl := Except.ok.inj h
      obtain rfl := Option.some.inj hlabel
      exact (Bool.and_eq_true_iff.1 hshape).2
    next position found hfound hliteral =>
      -- an operand that was decoded names no label
      cases hvalue : decoded (arch.mode position).decode found.captured with
      | error e => simp [hvalue, Except.map] at h
      | ok v =>
        rw [hvalue] at h
        obtain rfl := Except.ok.inj h
        simp at hlabel

end Architecture

/-! ## Programs -/

namespace Program

variable {arch : Architecture} {source : String} {memorySize : Nat}

/-- The labels that are bound are those that source lines define. -/
theorem mem_names_symbols_iff_source (arch : Architecture) (source : String) (memorySize : Nat)
    (name : String) :
    name ∈ (assemble arch source memorySize).symbols.names ↔
      ∃ s ∈ SourceLine.split arch.rules.comment source, (arch.classify s).label = some name := by
  have hdefines (state : Layout.State) (s : SourceLine) :
      (Resolution.resolve (assemble arch source memorySize).symbols
        (Layout.place memorySize state (arch.classify s)).1).defines name = true ↔
          (arch.classify s).label = some name := by
    rw [Resolution.defines_resolve, Layout.defines_place, Architecture.defines_classify_iff]
  rw [mem_names_symbols_iff]
  constructor
  · rintro ⟨l, hl, hname⟩
    obtain ⟨i, hi⟩ := List.mem_iff_getElem?.1 hl
    rw [getElem?_lines] at hi
    obtain ⟨s, hs, rfl⟩ := Option.map_eq_some_iff.1 hi
    exact ⟨s, List.mem_of_getElem? hs, (hdefines _ s).1 hname⟩
  · rintro ⟨s, hs, hname⟩
    obtain ⟨i, hi⟩ := List.mem_iff_getElem?.1 hs
    have hline := getElem?_lines arch source memorySize i
    rw [hi, Option.map_some] at hline
    exact ⟨_, List.mem_of_getElem? hline, (hdefines _ s).2 hname⟩

/-- What the operand of a line names has the shape of a label. -/
theorem accepts_of_mem_lines {l : Line} {c : CodeLine} {o : SourceOperand} {name : String}
    (hl : l ∈ (assemble arch source memorySize).lines) (hbody : l.body = .code c)
    (ho : c.operand = some o) (hlabel : o.label = some name) :
    arch.rules.labels.accepts name.toList = true := by
  obtain ⟨s, state, v, hclassify, -⟩ := exists_classify_of_mem_lines hl hbody
  obtain ⟨-, -, hread⟩ := (Architecture.classified_classify s).code _ hclassify
  obtain ⟨text, htext⟩ := hread _ (c.operand_withValue ho v)
  exact Architecture.accepts_of_operandOf htext hlabel

/-- For every architecture, source and memory size: all names in the symbol table have the shape of
labels exactly if the words in front of instructions and data keywords have it, less a colon at
their ends; labels on lines of their own always have it. The operands of a program name labels of
this shape only, so a name in the table without it cannot be referred to. -/
theorem names_accepted_iff (arch : Architecture) (source : String) (memorySize : Nat) :
    let p := assemble arch source memorySize
    ((∀ name ∈ p.symbols.names, arch.rules.labels.accepts name.toList = true) ↔
        ∀ s ∈ SourceLine.split arch.rules.comment source, ∀ word,
          arch.frontWord? s = some word →
            arch.rules.labels.accepts (labelOfWord word).toList = true) ∧
      ∀ l ∈ p.lines, ∀ c o name, l.body = .code c → c.operand = some o → o.label = some name →
        arch.rules.labels.accepts name.toList = true := by
  intro p
  refine ⟨⟨?_, ?_⟩, fun l hl c o name hbody ho hlabel => accepts_of_mem_lines hl hbody ho hlabel⟩
  · intro haccepted s hs word hword
    -- the word is bound as it stands
    apply haccepted
    rw [mem_names_symbols_iff_source]
    refine ⟨s, hs, ?_⟩
    rcases arch.label_classify_cases s with ⟨-, hlabel⟩ | ⟨-, hnone, -⟩
    · rw [hlabel, hword]
      rfl
    · simp [hnone] at hword
  · intro hfront name hname
    obtain ⟨s, hs, hlabel⟩ := (mem_names_symbols_iff_source arch source memorySize name).1 hname
    rcases arch.label_classify_cases s with ⟨-, heq⟩ | ⟨-, -, hchecked⟩
    · rw [heq] at hlabel
      obtain ⟨word, hword, rfl⟩ := Option.map_eq_some_iff.1 hlabel
      exact hfront s hs word hword
    · exact hchecked name hlabel

theorem names_accepted_edu1 :
    let source := "start:\nloop: DEC A\ncount 100 7\nJMP loop\n.END\n"
    let p := assemble Edu1.architecture source 256
    p.isOk = true ∧ p.symbols.names = ["start", "loop", "count"] ∧
      ∀ name ∈ p.symbols.names, Edu1.architecture.rules.labels.accepts name.toList = true := by
  intro source p
  refine ⟨by decide +kernel, by decide +kernel, ?_⟩
  apply (names_accepted_iff Edu1.architecture source 256).1.2
  decide +kernel

/-- The label in front of the instruction is not one that an operand can name. On a line of its own
it is refused, but here the program has no problem. -/
theorem underscore_name_is_bound :
    let p := assemble Edu1.architecture "loop_1: DEC A\n.END\n" 16
    p.isOk = true ∧ "loop_1" ∈ p.symbols.names ∧
      Edu1.architecture.rules.labels.accepts "loop_1".toList = false ∧
      (assemble Edu1.architecture "loop_1:\nDEC A\n.END\n" 16).isOk = false := by
  decide +kernel

end Program

end Breadboard
