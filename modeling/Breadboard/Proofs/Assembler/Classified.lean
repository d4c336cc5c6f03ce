import Breadboard.Proofs.Assembler.Selection

/-!
# What classification establishes

Whatever a source line turns out to be, the line that classification makes of it has these
properties (`Line.Classified`, `Architecture.classified_classify`): its problems are those of the
first pass, an address was read by a decoder for addresses, an instruction has the width of an
opcode and an operand that an addressing mode accepted, and data has the width and a value of a data
directive. The later passes add problems of their own (`Resolution.outside` is one of the second).
-/

namespace Breadboard

/-! ## Whose problem it is -/

/-- The passes over the source. -/
inductive Pass where
  | classifying
  | placing
  | resolving
  deriving DecidableEq, Repr

/-- The pass that finds a problem. -/
def LineError.pass : LineError → Pass
  | .duplicateLabel _ _ | .addressOutOfRange _ _ => .placing
  | .unknownLabel _ | .branchOutOfRange _ | .labelTooWide _ _ => .resolving
  | _ => .classifying

/-- Words too many are noticed by classification. -/
theorem pass_of_mem_complainOf {words : List String} {e : LineError} (h : e ∈ complainOf words) :
    e.pass = .classifying := by
  cases words with
  | nil => simp [complainOf] at h
  | cons extra rest =>
    obtain rfl := List.mem_singleton.1 h
    rfl

/-- What a decoder refuses is noticed by classification. -/
theorem pass_of_decoded {decode : Decoder} {text : String} {e : LineError}
    (h : decoded decode text = .error e) : e.pass = .classifying := by
  rw [decoded] at h
  split at h
  · simp at h
  · obtain rfl := Except.error.inj h
    rfl

theorem decode_of_decoded {decode : Decoder} {text : String} {v : Int}
    (h : decoded decode text = .ok v) : decode text = .ok v := by
  rw [decoded] at h
  split at h
  next w hw =>
    obtain rfl := Except.ok.inj h
    exact hw
  next => simp at h

/-! ## Operands -/

/-- What the mode found in an operand is taken for a label: the mode captures in more than one
alternative, and what it captured has the shape of a label. -/
def AddressingMode.readsLabel (labels : LabelShape) (m : AddressingMode) (found : Pattern.Found) :
    Bool :=
  1 < m.pattern.capturing && labels.accepts found.captured.toList

namespace Architecture

variable {arch : Architecture}

/-- The mode that accepts an operand has found in it what it captures. -/
theorem match?_of_modeOf? {text : String} {position : Fin arch.modes.length}
    {found : Pattern.Found} (h : arch.modeOf? text = some (position, found)) :
    (arch.mode position).pattern.match? arch.rules.labels text = some found := by
  obtain ⟨i, -, hi⟩ := List.exists_of_findSome?_eq_some h
  obtain ⟨found', hmatch, heq⟩ := Option.map_eq_some_iff.1 hi
  obtain ⟨rfl, rfl⟩ := Prod.mk.inj heq
  exact hmatch

/-- An operand is a label, whose value is still open and which has the width of the mode that labels
are encoded in, or it was decoded by the mode that accepted it and has its width. -/
theorem operandOf_eq_ok {text : String} {relative : Bool} {o : SourceOperand}
    (h : arch.operandOf text relative = .ok o) :
    ∃ position found, arch.modeOf? text = some (position, found) ∧
      ((o.label = some found.captured ∧ o.value = 0 ∧
          o.size = (arch.mode
            (if relative then arch.offsetMode.getD position else position)).size) ∨
        (o.label = none ∧ (arch.mode position).readsLabel arch.rules.labels found = false ∧
          (arch.mode position).decode found.captured = .ok o.value ∧ o.mode = position.val ∧
          o.size = (arch.mode position).size)) := by
  rw [operandOf] at h
  split at h
  next => simp at h
  next position found hfound =>
    refine ⟨position, found, hfound, ?_⟩
    dsimp only at h
    split at h
    · obtain rfl := Except.ok.inj h
      exact Or.inl ⟨rfl, rfl, rfl⟩
    next hliteral =>
      right
      cases hvalue : decoded (arch.mode position).decode found.captured with
      | error e => simp [hvalue, Except.map] at h
      | ok v =>
        rw [hvalue] at h
        obtain rfl := Except.ok.inj h
        exact ⟨rfl, Bool.eq_false_iff.2 hliteral, decode_of_decoded hvalue, rfl, rfl⟩

/-- An operand that is refused is refused by classification. -/
theorem pass_of_operandOf {text : String} {relative : Bool} {e : LineError}
    (h : arch.operandOf text relative = .error e) : e.pass = .classifying := by
  rw [operandOf] at h
  split at h
  next =>
    obtain rfl := Except.error.inj h
    rfl
  next position found hfound =>
    dsimp only at h
    split at h
    · simp at h
    · cases hvalue : decoded (arch.mode position).decode found.captured with
      | error e' =>
        rw [hvalue] at h
        obtain rfl := Except.error.inj h
        exact pass_of_decoded hvalue
      | ok v => simp [hvalue, Except.map] at h

/-- The decoder reads origins or the addresses of data lines. -/
def Locates (arch : Architecture) (decode : Decoder) : Prop :=
  (∃ s ∈ arch.sections, s.origin = some decode) ∨ arch.rules.dataAddress = some decode

/-- Every origin and address that can be written is in the range of numbers. -/
def Ranged (arch : Architecture) : Prop :=
  ∀ decode, arch.Locates decode → ∀ text a, decode text = .ok a → Word.inRange a = true

/-- The width of the values that a data directive declares: a word for data that begins with its
address, and otherwise what the directive says. -/
def dataWidth (arch : Architecture) (d : DataDirective) : Nat :=
  if arch.rules.dataAddress.isSome then arch.sizes.word else d.size

end Architecture

/-- What classification establishes of a line. -/
structure Line.Classified (arch : Architecture) (l : Line) : Prop where
  pass : ∀ e ∈ l.errors, e.pass = .classifying
  address : ∀ a, l.address = some a → ∃ decode text, arch.Locates decode ∧ decode text = .ok a
  code : ∀ c, l.body = .code c → c.size = arch.sizes.opcode ∧
    (∃ word, c.mnemonic = Text.upper word ∧
      c.relative = (arch.named word).head?.any (·.relative)) ∧
    ∀ o, c.operand = some o → ∃ text, arch.operandOf text c.relative = .ok o
  data : ∀ keyword size v, l.body = .data keyword size v →
    ∃ d ∈ arch.data, size = arch.dataWidth d ∧ (v = 0 ∨ ∃ text, d.decode text = .ok v)

/-- A problem that classification notices may be added. -/
theorem Line.Classified.report {arch : Architecture} {l : Line} (h : l.Classified arch)
    {e : LineError} (he : e.pass = .classifying) : (l.report e).Classified arch := by
  refine ⟨?_, h.address, h.code, h.data⟩
  intro e' he'
  rcases List.mem_append.1 he' with hold | hnew
  · exact h.pass e' hold
  · rw [List.mem_singleton.1 hnew, he]

namespace Architecture

variable {arch : Architecture}

/-! ## Kinds of lines -/

/-- A directive needs no more than to be without problems of the later passes, and an origin that
was read by its decoder. -/
theorem classified_of_directive {l : Line} {name : String} (hbody : l.body = .directive name)
    (hpass : ∀ e ∈ l.errors, e.pass = .classifying)
    (haddress : ∀ a, l.address = some a →
      ∃ decode text, arch.Locates decode ∧ decode text = .ok a) : l.Classified arch :=
  ⟨hpass, haddress, by simp [hbody], by simp [hbody]⟩

theorem classified_directiveLine (number : Nat) (text : String) {s : Section}
    (hs : s ∈ arch.sections) (arguments : List String) :
    (directiveLine { number, text } s arguments).Classified arch := by
  unfold directiveLine
  dsimp only
  split
  next decode word extra horigin =>
    have hextra : ∀ e ∈ complainOf extra, e.pass = .classifying :=
      fun e he => pass_of_mem_complainOf he
    cases hvalue : decoded decode word with
    | ok origin =>
      apply classified_of_directive rfl
      · exact hextra
      · rintro a ha
        obtain rfl := Option.some.inj ha
        exact ⟨decode, word, Or.inl ⟨s, hs, horigin⟩, decode_of_decoded hvalue⟩
    | error e =>
      apply classified_of_directive rfl
      · exact List.forall_mem_cons.2 ⟨pass_of_decoded hvalue, hextra⟩
      · simp [Line.report]
  next =>
    apply classified_of_directive rfl
    · simp [Line.report, LineError.pass]
    · simp [Line.report]
  next =>
    apply classified_of_directive rfl
    · simp [Line.report, LineError.pass]
    · simp [Line.report]
  next =>
    apply classified_of_directive rfl
    · simp
    · simp

/-- A line whose body is an instruction as classification makes it, without an address. -/
theorem classified_of_code {l : Line} {c : CodeLine} {word : String} (hbody : l.body = .code c)
    (hpass : ∀ e ∈ l.errors, e.pass = .classifying) (haddress : l.address = none)
    (hsize : c.size = arch.sizes.opcode) (hmnemonic : c.mnemonic = Text.upper word)
    (hrelative : c.relative = (arch.named word).head?.any (·.relative))
    (hoperand : ∀ o, c.operand = some o → ∃ text, arch.operandOf text c.relative = .ok o) :
    l.Classified arch := by
  refine ⟨hpass, by simp [haddress], ?_, by simp [hbody]⟩
  rintro c' hc'
  obtain rfl := LineBody.code.inj (hbody.symm.trans hc')
  exact ⟨hsize, ⟨word, hmnemonic, hrelative⟩, hoperand⟩

/-- Looking the opcode up does not change what is known of the line otherwise. -/
theorem classified_encodedLine {line : Line} {code : CodeLine} {word : String} {modes : Nat}
    (instructions : List (Instruction modes))
    (hpass : ∀ e ∈ line.errors, e.pass = .classifying) (haddress : line.address = none)
    (hsize : code.size = arch.sizes.opcode) (hmnemonic : code.mnemonic = Text.upper word)
    (hrelative : code.relative = (arch.named word).head?.any (·.relative))
    (hoperand : ∀ o, code.operand = some o → ∃ text, arch.operandOf text code.relative = .ok o) :
    (encodedLine line code instructions).Classified arch := by
  rw [encodedLine]
  split
  next opcode hopcode =>
    exact classified_of_code rfl hpass haddress hsize hmnemonic hrelative hoperand
  next hnone =>
    apply Line.Classified.report
    · exact classified_of_code rfl hpass haddress hsize hmnemonic hrelative hoperand
    · rfl

theorem classified_codeLine (number : Nat) (text : String)
    {k : Keyed (List (Instruction arch.modes.length))} (hk : k.meaning = arch.named k.keyword) :
    (arch.codeLine { number, text } k).Classified arch := by
  rw [codeLine, hk]
  dsimp only
  split
  next =>
    apply classified_encodedLine
    · simp
    · rfl
    · rfl
    · rfl
    · rfl
    · simp
  next argument extra harguments =>
    have hextra : ∀ e ∈ [] ++ complainOf extra, e.pass = .classifying :=
      fun e he => pass_of_mem_complainOf he
    split
    · refine Line.Classified.report ?_ rfl
      exact classified_of_code rfl hextra rfl rfl rfl rfl (by simp)
    · split
      next e he =>
        refine Line.Classified.report ?_ (pass_of_operandOf he)
        exact classified_of_code rfl hextra rfl rfl rfl rfl (by simp)
      next o ho =>
        apply classified_encodedLine
        · exact hextra
        · rfl
        · rfl
        · rfl
        · rfl
        · rintro o' ho'
          obtain rfl := Option.some.inj ho'
          exact ⟨argument, ho⟩

/-- A data line needs a width and a value that come from a data directive. -/
theorem classified_of_data {l : Line} {keyword : String} {d : DataDirective} {value : Int}
    (hd : d ∈ arch.data) (hbody : l.body = .data keyword (arch.dataWidth d) value)
    (hvalue : value = 0 ∨ ∃ text, d.decode text = .ok value)
    (hpass : ∀ e ∈ l.errors, e.pass = .classifying)
    (haddress : ∀ a, l.address = some a →
      ∃ decode text, arch.Locates decode ∧ decode text = .ok a) : l.Classified arch := by
  refine ⟨hpass, haddress, by simp [hbody], ?_⟩
  rintro keyword' size' value' hbody'
  obtain ⟨rfl, rfl, rfl⟩ := LineBody.data.inj (hbody.symm.trans hbody')
  exact ⟨d, hd, rfl, hvalue⟩

/-- The value that the first argument gives to a data line, and the complaints about it. -/
theorem value_of_arguments (decode : Decoder) (arguments : List String) {missing : List LineError}
    (hmissing : ∀ e ∈ missing, e.pass = .classifying) :
    let read : Int × List LineError := match arguments with
      | [] => (0, missing)
      | text :: _ =>
        match decoded decode text with
        | .ok value => (value, [])
        | .error e => (0, [e])
    (read.1 = 0 ∨ ∃ text, decode text = .ok read.1) ∧ ∀ e ∈ read.2, e.pass = .classifying := by
  intro read
  cases arguments with
  | nil => exact ⟨Or.inl rfl, hmissing⟩
  | cons text rest =>
    cases hvalue : decoded decode text with
    | ok v =>
      have hread : read = (v, []) := by simp only [read, hvalue]
      rw [hread]
      exact ⟨Or.inr ⟨text, decode_of_decoded hvalue⟩, by simp⟩
    | error e =>
      have hread : read = (0, [e]) := by simp only [read, hvalue]
      rw [hread]
      exact ⟨Or.inl rfl, by simpa using pass_of_decoded hvalue⟩

/-- What begins with an address is read by the decoder for addresses of data lines. -/
theorem locates_dataAddressOf (h : arch.rules.dataAddress.isSome = true) :
    arch.Locates arch.dataAddressOf := by
  obtain ⟨decode, hdecode⟩ := Option.isSome_iff_exists.1 h
  right
  rw [hdecode]
  congr 1
  funext word
  rw [dataAddressOf, hdecode]

theorem classified_addressedDataLine (number : Nat) (text : String) (label : Option String)
    {k : Keyed DataDirective} (hk : k.meaning ∈ arch.data)
    (haddressed : arch.rules.dataAddress.isSome = true) :
    (arch.addressedDataLine { number, text, label } k).Classified arch := by
  have hwidth : arch.sizes.word = arch.dataWidth k.meaning := (if_pos haddressed).symm
  obtain ⟨hvalue, hvaluePass⟩ :=
    value_of_arguments k.meaning.decode k.arguments (List.forall_mem_nil _)
  have hextra : ∀ e ∈ complainOf (k.arguments.drop 1), e.pass = .classifying :=
    fun e he => pass_of_mem_complainOf he
  rw [addressedDataLine, hwidth]
  dsimp only
  cases haddress : decoded arch.dataAddressOf (Text.upper k.keyword) with
  | ok address =>
    apply classified_of_data hk rfl hvalue
    · rw [List.append_nil]
      exact List.forall_mem_append.2 ⟨hextra, hvaluePass⟩
    · rintro a ha
      obtain rfl := Option.some.inj ha
      exact ⟨_, _, locates_dataAddressOf haddressed, decode_of_decoded haddress⟩
  | error e =>
    apply classified_of_data hk rfl hvalue
    · have haddressPass : ∀ e' ∈ [e], e'.pass = .classifying := by
        simpa using pass_of_decoded haddress
      exact List.forall_mem_append.2
        ⟨List.forall_mem_append.2 ⟨hextra, haddressPass⟩, hvaluePass⟩
    · simp

theorem classified_keywordDataLine (number : Nat) (text : String) (label : Option String)
    {k : Keyed DataDirective} (hk : k.meaning ∈ arch.data)
    (haddressed : arch.rules.dataAddress.isSome = false) :
    (keywordDataLine { number, text, label } k).Classified arch := by
  have hwidth : k.meaning.size = arch.dataWidth k.meaning := by
    rw [dataWidth, haddressed]
    rfl
  have hmissing : ∀ e ∈ [LineError.operandMissing (Text.upper k.keyword)],
      e.pass = .classifying := by
    intro e he
    obtain rfl := List.mem_singleton.1 he
    rfl
  obtain ⟨hvalue, hvaluePass⟩ := value_of_arguments k.meaning.decode k.arguments hmissing
  have hextra : ∀ e ∈ complainOf (k.arguments.drop 1), e.pass = .classifying :=
    fun e he => pass_of_mem_complainOf he
  rw [keywordDataLine, hwidth]
  dsimp only
  apply classified_of_data hk rfl hvalue
  · exact List.forall_mem_append.2 ⟨hextra, hvaluePass⟩
  · simp

theorem classified_dataLine (number : Nat) (text : String) {k : Keyed DataDirective}
    (hk : k.meaning ∈ arch.data) : (arch.dataLine { number, text } k).Classified arch := by
  rw [dataLine]
  dsimp only
  split
  next h => exact classified_addressedDataLine number text _ hk h
  next h => exact classified_keywordDataLine number text _ hk (by simpa using h)

/-- Classification establishes these properties of every source line. -/
theorem classified_classify (s : SourceLine) : (arch.classify s).Classified arch := by
  rcases arch.classify_cases s with ⟨sec, hsec, heq⟩ | ⟨k, -, hk, heq⟩ | ⟨k, -, -, hk, heq⟩ |
    ⟨name, -, -, -, -, heq⟩ | ⟨-, -, -, -, heq⟩
  · rw [heq]
    apply classified_directiveLine
    obtain ⟨word, -, hword⟩ := Option.bind_eq_some_iff.1 hsec
    exact List.mem_of_find?_eq_some hword
  · rw [heq]
    exact classified_codeLine _ _ (eq_named_of_mnemonic? (Keyed.meaning_of_find? hk))
  · rw [heq]
    apply classified_dataLine
    exact List.mem_of_find?_eq_some (Keyed.meaning_of_find? hk)
  · rw [heq]
    exact ⟨by simp [SourceLine.toLine], by simp [SourceLine.toLine], by simp, by simp⟩
  · rw [heq]
    apply Line.Classified.report
    · exact ⟨by simp [SourceLine.toLine], by simp [SourceLine.toLine], by simp [SourceLine.toLine],
        by simp [SourceLine.toLine]⟩
    · rfl

end Architecture

end Breadboard
