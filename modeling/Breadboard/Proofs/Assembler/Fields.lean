import Breadboard.Proofs.Assembler.Labels
import Breadboard.Proofs.Assembler.Loading

/-!
# Numbers in fields

A line stores an opcode and an operand, or data. The tables were checked for opcodes that do not fit
their field, and resolving refuses labels that do not (`Resolution.representable_of_value`). Literal
operands and data are stored as their decoders read them, so these fields can hold their numbers
where the decoders refuse the others (`AddressingMode.Tight`, `Decoder.Within`). Then all numbers of
a line can be held by their fields (`Program.representable_of_mem_writes`), and are found again in
memory unless a later line is stored over them (`Program.holds_iff_of_load`).
-/

namespace Breadboard

/-! ## Decoders that refuse what does not fit -/

/-- The decoder refuses the numbers that a field of `width` bytes cannot hold. -/
def Decoder.Within (width : Nat) (decode : Decoder) : Prop :=
  ∀ text v, decode text = .ok v → Word.Representable v width

/-- The field of the mode can hold every number that the mode accepts. -/
def AddressingMode.Tight (labels : LabelShape) (m : AddressingMode) : Prop :=
  ∀ text found v, m.pattern.match? labels text = some found → m.readsLabel labels found = false →
    m.decode found.captured = .ok v → Word.Representable v m.size

/-- If the line has a literal operand, the addressing mode of the operand is tight; if the line is
data, the decoders of data as wide as the line refuse the numbers that do not fit. -/
structure Line.Tight (arch : Architecture) (l : Line) : Prop where
  operand : ∀ c o m, l.body = .code c → c.operand = some o → o.label = none →
    arch.modes[o.mode]? = some m → m.Tight arch.rules.labels
  data : ∀ keyword size v d, l.body = .data keyword size v → d ∈ arch.data →
    arch.dataWidth d = size → Decoder.Within size d.decode

/-- The decoder that refuses in addition the numbers that a field of `width` bytes cannot hold. -/
def Decoder.checked (width : Nat) (decode : Decoder) : Decoder := fun text =>
  match decode text with
  | .ok v => if Word.Representable v width then .ok v else .error (.invalidNumber text)
  | .error e => .error e

theorem Decoder.within_checked (width : Nat) (decode : Decoder) :
    Within width (checked width decode) := by
  intro text v h
  rw [checked] at h
  split at h
  · split at h
    next hfits =>
      obtain rfl := Except.ok.inj h
      exact hfits
    next => simp at h
  · simp at h

/-- A literal operand of a tight mode has a number that its field can hold. -/
theorem Architecture.representable_of_operandOf {arch : Architecture} {text : String}
    {relative : Bool} {o : SourceOperand} (h : arch.operandOf text relative = .ok o)
    (hlabel : o.label = none)
    (htight : ∀ m, arch.modes[o.mode]? = some m → m.Tight arch.rules.labels) :
    Word.Representable o.value o.size := by
  obtain ⟨position, found, hfound, ⟨hname, -⟩ | ⟨-, hliteral, hdecode, hmode, hsize⟩⟩ :=
    operandOf_eq_ok h
  · simp [hlabel] at hname
  · have hget : arch.modes[o.mode]? = some (arch.mode position) := by
      rw [hmode]
      exact List.getElem?_eq_getElem position.isLt
    rw [hsize]
    exact htight _ hget text found o.value (match?_of_modeOf? hfound) hliteral hdecode

/-! ## From classification to storing -/

namespace Resolution

variable {symbols : SymbolTable} {line : Line}

/-- The value of a label is accepted only where the operand can hold it. -/
theorem representable_of_value {relative : Bool} {next v : Int} {size : Nat} {name : String}
    (h : value symbols relative next size name = .ok v) : Word.Representable v size := by
  rw [value] at h
  split at h
  · simp at h
  · split at h
    · dsimp only at h
      split at h
      next hfits =>
        obtain rfl := Except.ok.inj h
        exact Word.representable_of_fitsSigned (Bool.and_eq_true_iff.1 hfits).2
      next => simp at h
    · split at h
      next hfits =>
        obtain rfl := Except.ok.inj h
        exact Word.representable_of_fitsUnsigned hfits
      next => simp at h

/-- Data is left as it is. -/
theorem body_of_resolve_data {keyword : String} {size : Nat} {v : Int}
    (h : (resolve symbols line).body = .data keyword size v) :
    line.body = .data keyword size v := by
  rcases resolve_cases symbols line with heq | ⟨e, heq⟩ | ⟨code, w, -, heq⟩
  · rwa [heq] at h
  · rw [heq] at h
    exact h
  · simp [heq] at h

end Resolution

namespace Line

variable {l : Line} {w : MemoryWrite}

/-- What a line stores is data, an opcode or the operand behind it. -/
theorem cases_of_mem_writes (h : w ∈ l.writes) :
    ∃ a, l.address = some a ∧
      ((∃ keyword, l.body = .data keyword w.length w.value ∧ w.address = a) ∨
        ∃ c opcode, l.body = .code c ∧ c.opcode = some opcode ∧
          (w = ⟨a, c.size, opcode⟩ ∨
            ∃ o, c.operand = some o ∧ w = ⟨a + c.size, o.size, o.value⟩)) := by
  rw [writes] at h
  split at h
  next a keyword size v haddress hbody =>
    obtain rfl := List.mem_singleton.1 h
    exact ⟨a, haddress, Or.inl ⟨keyword, hbody, rfl⟩⟩
  next a mnemonic size relative operand opcode haddress hbody =>
    refine ⟨a, haddress, Or.inr ⟨_, opcode, hbody, rfl, ?_⟩⟩
    rcases List.mem_cons.1 h with hopcode | hoperand
    · exact Or.inl hopcode
    · cases operand with
      | none => simp at hoperand
      | some o => exact Or.inr ⟨o, rfl, List.mem_singleton.1 hoperand⟩
  next => simp at h

/-- Where the bytes of a line are in memory, the bytes of its fields are. -/
theorem slice_of_mem_writes {m : Memory} {start : Nat} (haddress : l.address = some (start : Int))
    (hslice : m.slice start l.footprint = l.bytes) (h : w ∈ l.writes) :
    ∃ s : Nat, w.address = s ∧ s + w.length ≤ start + l.footprint ∧
      m.slice s w.length = Word.toBytes w.value w.length := by
  obtain ⟨a, ha, ⟨keyword, hbody, hw⟩ | ⟨c, opcode, hbody, hopcode, hfield⟩⟩ :=
    cases_of_mem_writes h
  · obtain rfl := Option.some.inj (haddress.symm.trans ha)
    rw [footprint, bytes, hbody] at hslice
    rw [footprint, hbody]
    exact ⟨start, hw, le_rfl, hslice⟩
  · obtain rfl := Option.some.inj (haddress.symm.trans ha)
    obtain ⟨mnemonic, size, relative, operand, _⟩ := c
    obtain rfl := hopcode
    rw [footprint, bytes, hbody] at hslice
    rw [footprint, hbody]
    dsimp only [CodeLine.footprint] at hslice ⊢
    -- the bytes of the opcode stand in front of those of the operand
    rw [Memory.slice_append] at hslice
    obtain ⟨hfront, hback⟩ := List.append_inj hslice (by simp)
    rcases hfield with rfl | ⟨o, rfl, rfl⟩
    · refine ⟨start, rfl, ?_, hfront⟩
      dsimp only
      omega
    · refine ⟨start + size, by push_cast; rfl, ?_, hback⟩
      dsimp only [Option.elim_some]
      omega

end Line

/-- No data is wider than the widest field. -/
theorem Architecture.Checked.dataWidth_le {arch : Architecture} (h : arch.Checked)
    {d : DataDirective} (hd : d ∈ arch.data) : arch.dataWidth d ≤ Draft.widest := by
  rw [dataWidth]
  split
  · exact h.word_size.2
  · exact (h.data_size d hd).2

/-! ## Programs -/

namespace Program

variable {arch : Architecture} {source : String} {memorySize : Nat} {l : Line}

/-- A literal operand is stored as it was read. -/
theorem operandOf_of_mem_lines {c : CodeLine} {o : SourceOperand}
    (hl : l ∈ (assemble arch source memorySize).lines) (hbody : l.body = .code c)
    (ho : c.operand = some o) (hlabel : o.label = none) :
    ∃ text, arch.operandOf text c.relative = .ok o := by
  obtain ⟨s, state, v, hclassify, rfl⟩ := exists_classify_of_mem_lines hl hbody
  have ho₀ := c.operand_withValue ho v
  have hplaced : (Layout.place memorySize state (arch.classify s)).1.body =
      .code (c.withValue v) := by
    rw [Layout.body_place, hclassify]
  -- resolving changes nothing, so the operand is the one that was classified
  have hnamed : (Layout.place memorySize state (arch.classify s)).1.named? = none := by
    rw [Line.named?, hplaced]
    dsimp only
    rw [ho₀, Option.bind_some, hlabel]
  rw [Resolution.resolve_of_named? hnamed, hplaced] at hbody
  have hsame := LineBody.code.inj hbody
  rw [hsame, ho] at ho₀
  obtain ⟨-, -, hread⟩ := (Architecture.classified_classify s).code _ hclassify
  rw [hsame] at hread
  exact hread o ho

/-- Data is stored as it was read, or is zero. -/
theorem data_of_mem_lines {keyword : String} {size : Nat} {v : Int}
    (hl : l ∈ (assemble arch source memorySize).lines) (hbody : l.body = .data keyword size v) :
    ∃ d ∈ arch.data, size = arch.dataWidth d ∧ (v = 0 ∨ ∃ text, d.decode text = .ok v) := by
  obtain ⟨s, state, rfl⟩ := mem_lines_assemble hl
  have hplaced := Resolution.body_of_resolve_data hbody
  rw [Layout.body_place] at hplaced
  exact (Architecture.classified_classify s).data keyword size v hplaced

/-- The operand of a tight line without a problem has a number that its field can hold. -/
theorem representable_of_operand {c : CodeLine} {o : SourceOperand}
    (hl : l ∈ (assemble arch source memorySize).lines) (herrors : l.errors = [])
    (htight : l.Tight arch) (hbody : l.body = .code c) (ho : c.operand = some o) :
    Word.Representable o.value o.size := by
  cases hlabel : o.label with
  | none =>
    obtain ⟨text, htext⟩ := operandOf_of_mem_lines hl hbody ho hlabel
    apply Architecture.representable_of_operandOf htext hlabel
    intro m hm
    exact htight.operand c o m hbody ho hlabel hm
  | some name =>
    have hstored : l.isStored = true := by rw [Line.isStored, hbody]
    obtain ⟨start, haddress, -⟩ := (loadable_of_mem_lines hl herrors).inside hstored
    have hsettled := settled_of_mem_lines hl hbody haddress
      (Resolution.outside_of_errors herrors) ho hlabel
    -- a label that does not fit is a problem, and the line has none
    cases hvalue : Resolution.value (assemble arch source memorySize).symbols c.relative
        (start + c.footprint) o.size name with
    | ok v =>
      rw [hvalue] at hsettled
      obtain ⟨rfl, -⟩ := hsettled
      exact Resolution.representable_of_value hvalue
    | error e =>
      rw [hvalue] at hsettled
      obtain ⟨-, hproblem⟩ := hsettled
      simp [Line.resolvingErrors, herrors] at hproblem

/-- Every number that a tight line without a problem stores can be held by its field. -/
theorem representable_of_mem_writes (harch : arch.Checked) {w : MemoryWrite}
    (hl : l ∈ (assemble arch source memorySize).lines) (herrors : l.errors = [])
    (htight : l.Tight arch) (hw : w ∈ l.writes) : Word.Representable w.value w.length := by
  obtain ⟨a, -, ⟨keyword, hbody, -⟩ | ⟨c, opcode, hbody, hopcode, rfl | ⟨o, ho, rfl⟩⟩⟩ :=
    Line.cases_of_mem_writes hw
  -- data
  · obtain ⟨d, hd, hsize, hzero | ⟨text, htext⟩⟩ := data_of_mem_lines hl hbody
    · rw [hzero]
      exact Word.representable_zero w.length
    · exact htight.data keyword w.length w.value d hbody hd hsize.symm text w.value htext
  -- an opcode
  · obtain ⟨i, hi⟩ := Architecture.exists_selects_of_mem_lines hl hbody herrors
    obtain rfl := Option.some.inj (hopcode.symm.trans hi.opcode)
    dsimp only
    rw [hi.size]
    exact Word.representable_of_fitsUnsigned (harch.opcode_fits i hi.mem)
  -- an operand
  · exact representable_of_operand hl herrors htight hbody ho

/-- No field is wider than the widest. -/
theorem length_le_of_mem_writes (harch : arch.Checked) {w : MemoryWrite}
    (hl : l ∈ (assemble arch source memorySize).lines) (hw : w ∈ l.writes) :
    w.length ≤ Draft.widest := by
  obtain ⟨a, -, ⟨keyword, hbody, -⟩ | ⟨c, opcode, hbody, -, rfl | ⟨o, ho, rfl⟩⟩⟩ :=
    Line.cases_of_mem_writes hw
  · obtain ⟨d, hd, hsize, -⟩ := data_of_mem_lines hl hbody
    rw [hsize]
    exact harch.dataWidth_le hd
  · obtain ⟨s, state, v, hclassify, -⟩ := exists_classify_of_mem_lines hl hbody
    obtain ⟨hsize, -, -⟩ := (Architecture.classified_classify s).code _ hclassify
    have hwidth : c.size = arch.sizes.opcode := hsize
    dsimp only
    rw [hwidth]
    exact harch.opcode_size.2
  · exact operand_size_of_mem_lines harch hl hbody ho

/-- After a program was loaded, a field of a line over which no later line is stored holds its
number exactly if it can. -/
theorem holds_iff_of_load (harch : arch.Checked) {m m' : Machine} {entry : Int}
    {front back : List Line} {w : MemoryWrite}
    (hlines : (assemble arch source memorySize).lines = front ++ l :: back)
    (hw : w ∈ l.writes)
    (hload : (assemble arch source memorySize).load m = (.ok entry, m'))
    (hkept : ∀ k ∈ back, ∀ i, l.Covers i → ¬ k.Covers i) :
    m'.memory.Holds w.address w.length w.value ↔ Word.Representable w.value w.length := by
  have hl : l ∈ (assemble arch source memorySize).lines := by
    rw [hlines]
    exact List.mem_append_right front List.mem_cons_self
  have hstored : l.isStored = true := by
    by_contra hno
    rw [Line.writes_of_not_isStored (Bool.eq_false_iff.2 hno)] at hw
    simp at hw
  obtain ⟨hsize, start, haddress, hfit, hslice⟩ := slice_of_load hload hlines hstored hkept
  obtain ⟨s, hs, hend, hfield⟩ := Line.slice_of_mem_writes haddress hslice hw
  have hnarrow := length_le_of_mem_writes harch hl hw
  have hwidest : Draft.widest = 4 := rfl
  rw [hs]
  exact Memory.holds_iff_of_slice (by omega) (by omega) hfield

end Program

end Breadboard
