import Breadboard.Proofs.Assembler.Passes

/-!
# Which instruction a source line selects

A source line that is an instruction with an opcode names an instruction of the tables: its opcode
is the opcode of that instruction, and its operand is encoded in the addressing mode of that
instruction, with the width of that mode (`Architecture.Selects`). Without an opcode the line has a
problem (`selectsOrFails_classify`). The later passes change the value of the operand only, so a
line of a program selects an instruction too (`exists_selects_of_mem_lines`).
-/

namespace Breadboard

/-- A keyword is found for what it means. -/
theorem Keyed.meaning_of_find? {α : Type} {meaning : String → Option α} {words : List String}
    {k : Keyed α} (h : find? meaning words = some k) : meaning k.keyword = some k.meaning := by
  cases words with
  | nil => simp [find?] at h
  | cons first rest =>
    simp only [find?] at h
    -- the keyword is the first word, or the second one behind a label
    split at h
    next m hm =>
      obtain rfl := Option.some.inj h
      exact hm
    next hnone =>
      cases rest with
      | nil => simp at h
      | cons second rest =>
        obtain ⟨m, hm, rfl⟩ := Option.map_eq_some_iff.1 h
        exact hm

/-- What is known of a line before its words are looked up. -/
def SourceLine.toLine (s : SourceLine) : Line := { number := s.number, text := s.text }

namespace Architecture

/-- The instruction line `c` stands for the instruction `i` of the tables: it has the opcode and the
mnemonic of `i`, and an operand of the addressing mode of `i` exactly if `i` has one. -/
structure Selects (arch : Architecture) (c : CodeLine) (i : Instruction arch.modes.length) :
    Prop where
  mem : i ∈ arch.instructions
  opcode : c.opcode = some i.opcode
  mnemonic : i.mnemonic = c.mnemonic
  size : c.size = arch.sizes.opcode
  operand : (c.operand.map fun o => (o.mode, o.size)) =
    i.mode.map fun k => (k.val, (arch.mode k).size)

variable {arch : Architecture}

/-- The value of the operand does not matter to the instruction selected. -/
theorem Selects.withValue {c : CodeLine} {i : Instruction arch.modes.length} (h : arch.Selects c i)
    (v : Int) : arch.Selects (c.withValue v) i := by
  refine ⟨h.mem, h.opcode, h.mnemonic, h.size, ?_⟩
  rw [← h.operand, CodeLine.withValue, Option.map_map]
  rfl

/-- The operand of a line is as wide as some addressing mode. -/
theorem Selects.exists_mode {c : CodeLine} {i : Instruction arch.modes.length}
    (h : arch.Selects c i) {o : SourceOperand} (ho : c.operand = some o) :
    ∃ k : Fin arch.modes.length, (arch.mode k).size = o.size := by
  have hoperand := h.operand
  rw [ho, Option.map_some, eq_comm, Option.map_eq_some_iff] at hoperand
  obtain ⟨k, -, hk⟩ := hoperand
  exact ⟨k, (Prod.mk.inj hk).2⟩

/-! ## Operands -/

/-- An operand is encoded in one of the addressing modes, with the width of that mode. -/
theorem exists_mode_of_operandOf {text : String} {relative : Bool} {o : SourceOperand}
    (h : arch.operandOf text relative = .ok o) :
    ∃ k : Fin arch.modes.length, o.mode = k.val ∧ o.size = (arch.mode k).size := by
  rw [operandOf] at h
  -- the value of a label is left open, any other operand is decoded in the mode found
  split at h
  · simp at h
  next position found hfound =>
    dsimp only at h
    split at h
    · obtain rfl := Except.ok.inj h
      exact ⟨_, rfl, rfl⟩
    · cases hvalue : decoded (arch.mode position).decode found.captured with
      | error e => simp [hvalue, Except.map] at h
      | ok v =>
        rw [hvalue] at h
        obtain rfl := Except.ok.inj h
        exact ⟨position, rfl, rfl⟩

theorem mem_named {word : String} {i : Instruction arch.modes.length} (h : i ∈ arch.named word) :
    i ∈ arch.instructions ∧ i.mnemonic = Text.upper word := by
  simpa [named, List.mem_filter] using h

theorem eq_named_of_mnemonic? {word : String} {is : List (Instruction arch.modes.length)}
    (h : arch.mnemonic? word = some is) : is = arch.named word := by
  rw [mnemonic?] at h
  split at h
  · simp at h
  · exact (Option.some.inj h).symm

/-! ## Lines -/

/-- The line selects an instruction of the tables, or else it has no opcode but a problem. -/
def SelectsOrFails (arch : Architecture) (l : Line) (c : CodeLine) : Prop :=
  (∃ i, arch.Selects c i) ∨ c.opcode = none ∧ l.errors ≠ []

/-- A problem that was just noted is a problem. -/
theorem errors_report_ne_nil (l : Line) (e : LineError) : (l.report e).errors ≠ [] := by
  simp [Line.report]

/-- An instruction line whose opcode was looked up has the opcode of an instruction with the
addressing mode of its operand, or it is as it was and has a problem. -/
theorem encodedLine_cases {modes : Nat} {line : Line} {code c : CodeLine}
    {instructions : List (Instruction modes)}
    (hbody : (encodedLine line code instructions).body = .code c) :
    (∃ i ∈ instructions, c = { code with opcode := some i.opcode } ∧
        i.mode.map (·.val) = code.operand.map (·.mode)) ∨
      c = code ∧ (encodedLine line code instructions).errors ≠ [] := by
  rw [encodedLine] at hbody ⊢
  split at hbody
  next opcode hopcode =>
    obtain ⟨i, hfind, rfl⟩ := Option.map_eq_some_iff.1 hopcode
    refine Or.inl ⟨i, List.mem_of_find?_eq_some hfind, (LineBody.code.inj hbody).symm, ?_⟩
    simpa using List.find?_some hfind
  next => exact Or.inr ⟨(LineBody.code.inj hbody).symm, errors_report_ne_nil _ _⟩

/-- The opcode found for a line that has the operand it was looked up with selects an
instruction. -/
theorem selectsOrFails_encodedLine {line : Line} {code c : CodeLine} {word : String}
    (hmnemonic : code.mnemonic = Text.upper word) (hsize : code.size = arch.sizes.opcode)
    (hnone : code.opcode = none)
    (hoperand : ∀ o, code.operand = some o →
      ∃ k : Fin arch.modes.length, o.mode = k.val ∧ o.size = (arch.mode k).size)
    (hbody : (encodedLine line code (arch.named word)).body = .code c) :
    arch.SelectsOrFails (encodedLine line code (arch.named word)) c := by
  rcases encodedLine_cases hbody with ⟨i, hi, rfl, hmode⟩ | ⟨rfl, herrors⟩
  · obtain ⟨hmem, hname⟩ := mem_named hi
    refine Or.inl ⟨i, hmem, rfl, hname.trans hmnemonic.symm, hsize, ?_⟩
    -- the opcode was looked up by the mode of the operand, so both have the same width
    cases ho : code.operand with
    | none =>
      rw [ho, Option.map_none, Option.map_eq_none_iff] at hmode
      simp [hmode]
    | some o =>
      obtain ⟨k, hk, hwidth⟩ := hoperand o ho
      rw [ho, Option.map_some, Option.map_eq_some_iff] at hmode
      obtain ⟨j, hj, hjo⟩ := hmode
      have hjk : j = k := Fin.ext (hjo.trans hk)
      simp [hj, hjk, hk, hwidth]
  · exact Or.inr ⟨hnone, herrors⟩

/-- A line that was refused before its opcode was looked up has none. -/
theorem selectsOrFails_report {l : Line} {code c : CodeLine} (hcode : l.body = .code code)
    (hnone : code.opcode = none) (e : LineError) (hbody : (l.report e).body = .code c) :
    arch.SelectsOrFails (l.report e) c := by
  obtain rfl : code = c := LineBody.code.inj (hcode.symm.trans hbody)
  exact Or.inr ⟨hnone, errors_report_ne_nil _ _⟩

theorem selectsOrFails_codeLine {line : Line} {k : Keyed (List (Instruction arch.modes.length))}
    {c : CodeLine} (hk : k.meaning = arch.named k.keyword)
    (hbody : (arch.codeLine line k).body = .code c) :
    arch.SelectsOrFails (arch.codeLine line k) c := by
  rw [codeLine, hk] at hbody ⊢
  dsimp only at hbody ⊢
  -- an operand with a separator in it, or one that no mode accepts, leaves a problem
  split
  next harguments =>
    rw [harguments] at hbody
    exact selectsOrFails_encodedLine rfl rfl rfl (by simp) hbody
  next text extra harguments =>
    rw [harguments] at hbody
    dsimp only at hbody
    split
    next hseparator =>
      rw [if_pos hseparator] at hbody
      exact selectsOrFails_report rfl rfl _ hbody
    next hseparator =>
      rw [if_neg hseparator] at hbody
      split
      next e he =>
        rw [he] at hbody
        exact selectsOrFails_report rfl rfl _ hbody
      next o ho =>
        rw [ho] at hbody
        refine selectsOrFails_encodedLine rfl rfl rfl ?_ hbody
        intro o' ho'
        obtain rfl := Option.some.inj ho'
        exact exists_mode_of_operandOf ho

/-! ## Kinds of lines -/

/-- A directive line may have its origin for an address, and problems. -/
theorem directiveLine_eq (line : Line) (s : Section) (arguments : List String) :
    ∃ address argument errors, directiveLine line s arguments =
      { line with body := .directive s.name, address, argument, errors } := by
  unfold directiveLine
  dsimp only
  split
  · split
    · exact ⟨_, _, _, rfl⟩
    · exact ⟨_, _, _, rfl⟩
  · exact ⟨_, _, _, rfl⟩
  · exact ⟨_, _, _, rfl⟩
  · exact ⟨_, _, _, rfl⟩

theorem encodedLine_eq {modes : Nat} (line : Line) (code : CodeLine)
    (instructions : List (Instruction modes)) :
    ∃ c errors, encodedLine line code instructions = { line with body := .code c, errors } := by
  rw [encodedLine]
  split
  · exact ⟨_, _, rfl⟩
  · exact ⟨_, _, rfl⟩

/-- An instruction line has the word in front of the mnemonic for its label. -/
theorem codeLine_eq (arch : Architecture) (line : Line)
    (k : Keyed (List (Instruction arch.modes.length))) :
    ∃ c argument errors, arch.codeLine line k =
      { line with body := .code c, label := k.before.map labelOfWord, argument, errors } := by
  rw [codeLine]
  dsimp only
  split
  · obtain ⟨c, errors, heq⟩ := encodedLine_eq { line with label := k.before.map labelOfWord } _
      k.meaning
    exact ⟨c, _, errors, heq⟩
  · split
    · exact ⟨_, _, _, rfl⟩
    · split
      · exact ⟨_, _, _, rfl⟩
      next =>
        obtain ⟨c, errors, heq⟩ := encodedLine_eq
          { line with label := k.before.map labelOfWord, argument := _, errors := _ } _ k.meaning
        exact ⟨c, _, errors, heq⟩

/-- A data line has the word in front of the keyword for its label. -/
theorem dataLine_eq (arch : Architecture) (line : Line) (k : Keyed DataDirective) :
    ∃ keyword size value address argument errors, arch.dataLine line k =
      { line with
        body := .data keyword size value, label := k.before.map labelOfWord, address, argument
        errors } := by
  rw [dataLine]
  split
  · exact ⟨_, _, _, _, _, _, rfl⟩
  · exact ⟨_, _, _, _, _, _, rfl⟩

/-- A source line is what the first table says that knows one of its first words; otherwise it is a
label, or not recognised. -/
theorem classify_cases (arch : Architecture) (s : SourceLine) :
    (∃ sec, s.words.head?.bind arch.section? = some sec ∧
        arch.classify s = directiveLine s.toLine sec (s.words.drop 1)) ∨
      (∃ k, s.words.head?.bind arch.section? = none ∧
        Keyed.find? arch.mnemonic? s.words = some k ∧ arch.classify s = arch.codeLine s.toLine k) ∨
      (∃ k, s.words.head?.bind arch.section? = none ∧
        Keyed.find? arch.mnemonic? s.words = none ∧
        Keyed.find? arch.dataDirective? s.words = some k ∧
        arch.classify s = arch.dataLine s.toLine k) ∨
      (∃ name, s.words.head?.bind arch.section? = none ∧
        Keyed.find? arch.mnemonic? s.words = none ∧
        Keyed.find? arch.dataDirective? s.words = none ∧ arch.labelOnly? s.words = some name ∧
        arch.classify s = { s.toLine with body := .label, label := some name }) ∨
      (s.words.head?.bind arch.section? = none ∧
        Keyed.find? arch.mnemonic? s.words = none ∧
        Keyed.find? arch.dataDirective? s.words = none ∧ arch.labelOnly? s.words = none ∧
        arch.classify s = s.toLine.report (.invalidMnemonic (s.words.head?.getD ""))) := by
  rw [classify]
  cases hsection : s.words.head?.bind arch.section? with
  | some sec => exact Or.inl ⟨sec, rfl, rfl⟩
  | none =>
    right
    cases hcode : Keyed.find? arch.mnemonic? s.words with
    | some k => exact Or.inl ⟨k, rfl, rfl, rfl⟩
    | none =>
      right
      cases hdata : Keyed.find? arch.dataDirective? s.words with
      | some k => exact Or.inl ⟨k, rfl, rfl, rfl, rfl⟩
      | none =>
        right
        cases hlabel : arch.labelOnly? s.words with
        | some name => exact Or.inl ⟨name, rfl, rfl, rfl, rfl, rfl⟩
        | none => exact Or.inr ⟨rfl, rfl, rfl, rfl, rfl⟩

/-- What a source line is, with the fields that its first words decide: instructions and data have
the word in front of the keyword for their label. -/
inductive Form (arch : Architecture) (s : SourceLine) : Line → Prop
  | directive {sec : Section} {address : Option Int} {argument : String} {errors : List LineError}
      (hsection : s.words.head?.bind arch.section? = some sec) :
      Form arch s { s.toLine with body := .directive sec.name, address, argument, errors }
  | code {k : Keyed (List (Instruction arch.modes.length))} {c : CodeLine} {argument : String}
      {errors : List LineError} (hsection : s.words.head?.bind arch.section? = none)
      (hcode : Keyed.find? arch.mnemonic? s.words = some k) :
      Form arch s
        { s.toLine with body := .code c, label := k.before.map labelOfWord, argument, errors }
  | data {k : Keyed DataDirective} {keyword : String} {size : Nat} {value : Int}
      {address : Option Int} {argument : String} {errors : List LineError}
      (hsection : s.words.head?.bind arch.section? = none)
      (hcode : Keyed.find? arch.mnemonic? s.words = none)
      (hdata : Keyed.find? arch.dataDirective? s.words = some k) :
      Form arch s
        { s.toLine with
          body := .data keyword size value, label := k.before.map labelOfWord, address, argument
          errors }
  | label {name : String} (hsection : s.words.head?.bind arch.section? = none)
      (hcode : Keyed.find? arch.mnemonic? s.words = none)
      (hdata : Keyed.find? arch.dataDirective? s.words = none)
      (hlabel : arch.labelOnly? s.words = some name) :
      Form arch s { s.toLine with body := .label, label := some name }
  | unknown (hsection : s.words.head?.bind arch.section? = none)
      (hcode : Keyed.find? arch.mnemonic? s.words = none)
      (hdata : Keyed.find? arch.dataDirective? s.words = none) :
      Form arch s (s.toLine.report (.invalidMnemonic (s.words.head?.getD "")))

theorem form_classify (arch : Architecture) (s : SourceLine) : arch.Form s (arch.classify s) := by
  rcases arch.classify_cases s with ⟨sec, hsection, heq⟩ | ⟨k, hsection, hcode, heq⟩ |
    ⟨k, hsection, hcode, hdata, heq⟩ | ⟨name, hsection, hcode, hdata, hlabel, heq⟩ |
    ⟨hsection, hcode, hdata, -, heq⟩
  · obtain ⟨address, argument, errors, hline⟩ :=
      directiveLine_eq s.toLine sec (s.words.drop 1)
    rw [heq, hline]
    exact .directive hsection
  · obtain ⟨c, argument, errors, hline⟩ := arch.codeLine_eq s.toLine k
    rw [heq, hline]
    exact .code hsection hcode
  · obtain ⟨keyword, size, value, address, argument, errors, hline⟩ := arch.dataLine_eq s.toLine k
    rw [heq, hline]
    exact .data hsection hcode hdata
  · rw [heq]
    exact .label hsection hcode hdata hlabel
  · rw [heq]
    exact .unknown hsection hcode hdata

/-- A line keeps its number, whatever it is. -/
theorem Form.number_eq {s : SourceLine} {l : Line} (h : arch.Form s l) : l.number = s.number := by
  cases h with
  | directive | code | data | label | unknown => rfl

/-- A source line that is an instruction selects an instruction of the tables, or else it has no
opcode but a problem. -/
theorem selectsOrFails_classify {s : SourceLine} {c : CodeLine}
    (hbody : (arch.classify s).body = .code c) : arch.SelectsOrFails (arch.classify s) c := by
  -- of all kinds of lines only those with a mnemonic have an instruction for their body
  rcases arch.classify_cases s with ⟨sec, -, heq⟩ | ⟨k, -, hk, heq⟩ | ⟨k, -, -, -, heq⟩ |
    ⟨name, -, -, -, -, heq⟩ | ⟨-, -, -, -, heq⟩
  · obtain ⟨address, argument, errors, hline⟩ :=
      directiveLine_eq s.toLine sec (s.words.drop 1)
    rw [heq, hline] at hbody
    simp at hbody
  · rw [heq] at hbody ⊢
    exact selectsOrFails_codeLine (eq_named_of_mnemonic? (Keyed.meaning_of_find? hk)) hbody
  · obtain ⟨keyword, size, value, address, argument, errors, hline⟩ := arch.dataLine_eq s.toLine k
    rw [heq, hline] at hbody
    simp at hbody
  · simp [heq] at hbody
  · simp [heq, Line.report, SourceLine.toLine] at hbody

/-- A source line that is an instruction without a problem selects an instruction of the tables. -/
theorem exists_selects_of_classify {s : SourceLine} {c : CodeLine}
    (hbody : (arch.classify s).body = .code c) (herrors : (arch.classify s).errors = []) :
    ∃ i, arch.Selects c i := by
  rcases selectsOrFails_classify hbody with hselects | ⟨-, hproblem⟩
  · exact hselects
  · exact absurd herrors hproblem

/-- So does one with an opcode, whatever problems it has. -/
theorem exists_selects_of_opcode {s : SourceLine} {c : CodeLine} {opcode : Int}
    (hbody : (arch.classify s).body = .code c) (hopcode : c.opcode = some opcode) :
    ∃ i, arch.Selects c i := by
  rcases selectsOrFails_classify hbody with hselects | ⟨hnone, -⟩
  · exact hselects
  · simp [hnone] at hopcode

/-- An instruction line of a program that has no problem selects an instruction of the tables. -/
theorem exists_selects_of_mem_lines {source : String} {memorySize : Nat} {l : Line} {c : CodeLine}
    (h : l ∈ (Program.assemble arch source memorySize).lines) (hbody : l.body = .code c)
    (herrors : l.errors = []) : ∃ i, arch.Selects c i := by
  obtain ⟨s, state, rfl⟩ := Program.mem_lines_assemble h
  obtain ⟨address, errors, hplaced⟩ := Layout.place_eq memorySize state (arch.classify s)
  -- no pass removes a problem, so the line had none when it was classified
  have hplace := Resolution.errors_of_resolve herrors
  have hclassify : (arch.classify s).errors = [] := by
    rw [hplaced] at hplace
    exact (List.append_eq_nil_iff.1 hplace).1
  -- resolving changes at most the value of the operand
  rcases Resolution.resolve_cases (Program.assemble arch source memorySize).symbols
    (Layout.place memorySize state (arch.classify s)).1 with heq | ⟨e, heq⟩ | ⟨code, v, hcode, heq⟩
  · rw [heq, hplaced] at hbody
    exact exists_selects_of_classify hbody hclassify
  · rw [heq] at herrors
    simp [Line.report] at herrors
  · rw [heq] at hbody
    rw [hplaced] at hcode
    obtain ⟨i, hi⟩ := exists_selects_of_classify hcode hclassify
    obtain rfl := LineBody.code.inj hbody
    exact ⟨i, hi.withValue v⟩

end Architecture

end Breadboard
