import Breadboard.Proofs.Assembler.Saturation

/-!
# What labels stand for

A label stands for the address of the first line of the program that defines it, wherever that line
is (`Program.find?_symbols`). An instruction that lies inside memory and has a label for its operand
gets the address of the label, or its distance from the end of the instruction, if that fits the
operand, and otherwise one problem and no value (`Program.Resolves`,
`Program.resolves_of_mem_lines`).
-/

namespace Breadboard

/-! ## Definitions -/

/-- The line is an instruction, data or a label of its own and defines the label `name`. -/
def Line.defines (name : String) (l : Line) : Bool :=
  (l.isStored || l.isLabel) && l.label == some name

/-- The first line that defines the label `name`. -/
def Program.definition? (p : Program) (name : String) : Option Line :=
  p.lines.find? (·.defines name)

namespace Layout

/-- Binding the label of a line defines it, unless it is defined already. -/
theorem find?_bind (symbols : SymbolTable) (line : Line) (address : Int) (name : String) :
    (bind symbols line address).2.find? name = (symbols.find? name).or
      (if line.label = some name then some ⟨name, address, line.number⟩ else none) := by
  rw [bind]
  cases hlabel : line.label with
  | none => simp
  | some word =>
    dsimp only
    split
    next s hbound =>
      -- the label was defined by an earlier line, which counts
      by_cases hname : word = name
      · rw [← hname, hbound, Option.some_or]
      · simp [hname]
    next hfree =>
      dsimp only
      rw [SymbolTable.find?_define]
      by_cases hname : word = name
      · simp [hname]
      · simp [hname]

/-- The line `l` was made of `line` by placing it at `a` and binding its label, so it defines the
label `name` exactly if `name` gets bound to `a`, unless it is bound already. -/
theorem defines_of_bind {symbols : SymbolTable} {line l : Line} {a : Int} {errors : List LineError}
    (hl : l = { line with address := some a, errors })
    (hkind : (line.isStored || line.isLabel) = true) (name : String) :
    let bound := (bind symbols { line with address := some a } a).2
    (l.defines name = true ∧ ∃ a, l.address = some a ∧
        bound.find? name = (symbols.find? name).or (some ⟨name, a, l.number⟩)) ∨
      (l.defines name = false ∧ bound.find? name = symbols.find? name) := by
  intro bound
  have hbound : bound.find? name = (symbols.find? name).or
      (if line.label = some name then some ⟨name, a, line.number⟩ else none) :=
    find?_bind symbols { line with address := some a } a name
  have hdefines : l.defines name = (line.label == some name) := by
    have hsame : l.defines name = line.defines name := by
      rw [hl]
      rfl
    rw [hsame, Line.defines, hkind, Bool.true_and]
  rw [hdefines, hbound]
  by_cases hlabel : line.label = some name
  · left
    rw [if_pos hlabel, hl]
    exact ⟨by simp [hlabel], a, rfl, rfl⟩
  · right
    rw [if_neg hlabel, Option.or_none]
    exact ⟨by simp [hlabel], rfl⟩

/-- What placing one line means for the label `name`: if the line defines it, it has an address and
the label is bound to it unless it was bound before; otherwise nothing changes. -/
theorem place_defines (memorySize : Nat) (state : State) (line : Line) (name : String) :
    let l := (place memorySize state line).1
    let symbols := (place memorySize state line).2.symbols
    (l.defines name = true ∧ ∃ a, l.address = some a ∧
        symbols.find? name = (state.symbols.find? name).or (some ⟨name, a, l.number⟩)) ∨
      (l.defines name = false ∧ symbols.find? name = state.symbols.find? name) := by
  have hnone : ∀ l : Line, (l.isStored || l.isLabel) = false → l.defines name = false := by
    intro l hkind
    rw [Line.defines, hkind, Bool.false_and]
  rw [place]
  split
  next word hbody => exact Or.inr ⟨hnone line (by simp [Line.isStored, Line.isLabel, hbody]), rfl⟩
  next hbody =>
    obtain ⟨errors, hbind⟩ :=
      bind_eq state.symbols { line with address := some state.cursor } state.cursor
    exact defines_of_bind hbind (by simp [Line.isLabel, hbody]) name
  next keyword size value hbody =>
    obtain ⟨errors, hplace⟩ := placeAt_eq memorySize state line (line.address.getD state.cursor)
    exact defines_of_bind hplace (by simp [Line.isStored, hbody]) name
  next c hbody =>
    obtain ⟨errors, hplace⟩ := placeAt_eq memorySize state line state.cursor
    exact defines_of_bind hplace (by simp [Line.isStored, hbody]) name
  next hbody => exact Or.inr ⟨hnone line (by simp [Line.isStored, Line.isLabel, hbody]), rfl⟩

/-- After the walk a label is bound to the address of the first line that defines it, unless it was
bound before the walk. -/
theorem find?_placeAll (memorySize : Nat) (state : State) (lines : List Line) (name : String) :
    (placeAll memorySize state lines).2.symbols.find? name = (state.symbols.find? name).or
      (((placeAll memorySize state lines).1.find? (·.defines name)).bind fun l =>
        l.address.map fun a => ⟨name, a, l.number⟩) := by
  induction lines generalizing state with
  | nil => simp [placeAll]
  | cons line rest ih =>
    rw [placeAll_cons, ih]
    rcases place_defines memorySize state line name with ⟨hyes, a, ha, hbound⟩ | ⟨hno, hsame⟩
    · -- later definitions no longer matter
      rw [hbound, List.find?_cons_of_pos hyes, Option.or_assoc, Option.some_or, Option.bind_some,
        ha, Option.map_some]
    · rw [hsame, List.find?_cons_of_neg (by simp [hno])]

end Layout

namespace Resolution

@[simp] theorem label_resolve (symbols : SymbolTable) (line : Line) :
    (resolve symbols line).label = line.label := by
  rcases resolve_cases symbols line with heq | ⟨e, heq⟩ | ⟨code, v, -, heq⟩
  · rw [heq]
  · rw [heq, Line.report]
  · rw [heq]

@[simp] theorem isLabel_resolve (symbols : SymbolTable) (line : Line) :
    (resolve symbols line).isLabel = line.isLabel := by
  rcases resolve_cases symbols line with heq | ⟨e, heq⟩ | ⟨code, v, hbody, heq⟩
  · rw [heq]
  · rw [heq]
    rfl
  · rw [heq, Line.isLabel, Line.isLabel, hbody]

/-- Resolving does not change what a line defines. -/
@[simp] theorem defines_resolve (symbols : SymbolTable) (line : Line) (name : String) :
    (resolve symbols line).defines name = line.defines name := by
  rw [Line.defines, Line.defines, isStored_resolve, isLabel_resolve, label_resolve]

end Resolution

/-- The symbols of a program are its definitions: a label that no line defines is not bound, and
otherwise it is bound to the address of the first line that defines it, which has one. -/
theorem Program.find?_symbols (arch : Architecture) (source : String) (memorySize : Nat)
    (name : String) :
    let p := assemble arch source memorySize
    (p.definition? name = none ∧ p.symbols.find? name = none) ∨
      ∃ k T s, p.definition? name = some k ∧ k.address = some T ∧
        p.symbols.find? name = some s ∧ s.address = T := by
  intro p
  let placed := Layout.placeAll memorySize {}
    ((SourceLine.split arch.rules.comment source).map arch.classify)
  have hsymbols : p.symbols.find? name =
      ((placed.1.find? (·.defines name)).bind fun l =>
        l.address.map fun a => ⟨name, a, l.number⟩) :=
    Layout.find?_placeAll memorySize {} _ name
  have hdefinition : p.definition? name =
      (placed.1.find? (·.defines name)).map (Resolution.resolve p.symbols) := by
    have hsame : (fun l : Line => l.defines name) ∘ Resolution.resolve p.symbols =
        fun l => l.defines name := by
      funext l
      exact Resolution.defines_resolve p.symbols l name
    rw [← hsame]
    exact List.find?_map
  rw [hsymbols, hdefinition]
  cases hfind : placed.1.find? (·.defines name) with
  | none => exact Or.inl ⟨rfl, rfl⟩
  | some k =>
    right
    -- what defines a label was placed, so it has an address
    obtain ⟨line, -, state, rfl⟩ := Layout.mem_placeAll (List.mem_of_find?_eq_some hfind)
    rcases Layout.place_defines memorySize state line name with ⟨-, T, hT, -⟩ | ⟨hno, -⟩
    · let k := (Layout.place memorySize state line).1
      refine ⟨_, T, ⟨name, T, k.number⟩, rfl, ?_, ?_, rfl⟩
      · rw [Resolution.address_resolve, hT]
      · rw [Option.bind_some, hT]
        rfl
    · have hyes := List.find?_some hfind
      rw [hno] at hyes
      exact absurd hyes Bool.false_ne_true

/-! ## Resolving -/

/-- The problems that resolving found. -/
def Line.resolvingErrors (l : Line) : List LineError := l.errors.filter (·.pass = .resolving)

namespace Layout

theorem resolvingErrors_bind (symbols : SymbolTable) (line : Line) (address : Int) :
    (bind symbols line address).1.resolvingErrors = line.resolvingErrors := by
  rw [bind]
  split
  · rfl
  · split
    · simp [Line.resolvingErrors, Line.report, LineError.pass]
    · rfl

/-- Placing finds problems of its own only. -/
theorem resolvingErrors_place (memorySize : Nat) (state : State) (line : Line) :
    (place memorySize state line).1.resolvingErrors = line.resolvingErrors := by
  have hplaceAt : ∀ a, (placeAt memorySize state line a).1.resolvingErrors =
      line.resolvingErrors := by
    intro a
    have hbind := resolvingErrors_bind state.symbols { line with address := some a } a
    rw [placeAt]
    dsimp only
    split
    · exact hbind
    · have hnone : [LineError.addressOutOfRange a line.footprint].filter
          (·.pass = .resolving) = [] := rfl
      rw [Line.resolvingErrors, Line.report, List.filter_append, hnone, List.append_nil]
      exact hbind
  rw [place]
  split
  · rfl
  · exact resolvingErrors_bind _ _ _
  · exact hplaceAt _
  · exact hplaceAt _
  · rfl

/-- An instruction or data that placing does not report lies inside memory. -/
theorem inside_of_place {memorySize : Nat} {state : State} {line : Line}
    (hstored : line.isStored = true) (h : Resolution.outside line = false)
    (hinside : Resolution.outside (place memorySize state line).1 = false) :
    ∃ a, (place memorySize state line).1.address = some a ∧
      0 ≤ a ∧ a + line.footprint ≤ memorySize := by
  obtain ⟨a, heq⟩ := exists_place_of_isStored hstored memorySize state
  obtain ⟨errors, hplaced⟩ := placeAt_eq memorySize state line a
  have hreport : Resolution.outside (placeAt memorySize state line a).1 =
      !fits a line.footprint memorySize := outside_placeAtBy h past state a
  rw [heq] at hinside ⊢
  refine ⟨a, by rw [hplaced], ?_⟩
  -- a line that does not fit is reported
  rw [← fits_eq_true_iff, ← Bool.not_eq_false', ← hreport]
  exact hinside

end Layout

theorem CodeLine.withValue_withValue (c : CodeLine) (v w : Int) :
    (c.withValue v).withValue w = c.withValue w := by
  obtain ⟨mnemonic, size, relative, operand, opcode⟩ := c
  cases operand with
  | none => rfl
  | some o => rfl

theorem CodeLine.exists_withValue_eq (c : CodeLine) : ∃ v, c.withValue v = c := by
  obtain ⟨mnemonic, size, relative, operand, opcode⟩ := c
  cases operand with
  | none => exact ⟨0, rfl⟩
  | some o => exact ⟨o.value, rfl⟩

theorem CodeLine.operand_withValue {c : CodeLine} {o : SourceOperand} (h : c.operand = some o)
    (v : Int) : (c.withValue v).operand = some { o with value := v } := by
  rw [withValue, h]
  rfl

namespace Resolution

variable {symbols : SymbolTable} {line : Line}

/-- What is refused here is a problem of resolving. -/
theorem pass_of_value {relative : Bool} {next : Int} {size : Nat} {name : String} {e : LineError}
    (h : value symbols relative next size name = .error e) : e.pass = .resolving := by
  rw [value] at h
  split at h
  · obtain rfl := Except.error.inj h
    rfl
  · split at h
    · dsimp only at h
      split at h
      · simp at h
      · obtain rfl := Except.error.inj h
        rfl
    · split at h
      · simp at h
      · obtain rfl := Except.error.inj h
        rfl

theorem outside_of_resolve (h : outside (resolve symbols line) = false) : outside line = false := by
  rcases resolve_cases symbols line with heq | ⟨e, heq⟩ | ⟨code, v, -, heq⟩
  · rwa [heq] at h
  · rw [heq, outside, Line.report, List.any_append, Bool.or_eq_false_iff] at h
    exact h.1
  · rwa [heq] at h

/-- An instruction is resolved from an instruction that differs at most in the value of its
operand. -/
theorem exists_of_body_resolve {c : CodeLine} (h : (resolve symbols line).body = .code c) :
    ∃ v, line.body = .code (c.withValue v) := by
  obtain ⟨v, hv⟩ := c.exists_withValue_eq
  rcases resolve_cases symbols line with heq | ⟨e, heq⟩ | ⟨code, w, hbody, heq⟩
  · rw [heq] at h
    exact ⟨v, by rw [h, hv]⟩
  · rw [heq] at h
    exact ⟨v, h.trans (congrArg LineBody.code hv.symm)⟩
  · rw [heq] at h
    obtain rfl := LineBody.code.inj h
    obtain ⟨v₀, hv₀⟩ := code.exists_withValue_eq
    exact ⟨v₀, by rw [CodeLine.withValue_withValue, hv₀, hbody]⟩

/-- An instruction that lies inside memory and names a label gets the value of the label. -/
theorem resolve_of_value {c : CodeLine} {a v : Int} {o : SourceOperand} {name : String}
    (hbody : line.body = .code c) (haddress : line.address = some a) (ho : c.operand = some o)
    (hlabel : o.label = some name) (hinside : outside line = false)
    (hvalue : value symbols c.relative (a + c.footprint) o.size name = .ok v) :
    resolve symbols line = { line with body := .code (c.withValue v) } := by
  obtain ⟨text, mode, label, v₀, size⟩ := o
  obtain rfl : label = some name := hlabel
  rw [resolve, hbody, haddress]
  simp only [ho, CodeLine.withValue]
  rw [hinside, if_neg Bool.false_ne_true, Option.elim_some, hvalue]

/-- Such an instruction gets the problem with the label, if there is one. -/
theorem resolve_of_problem {c : CodeLine} {a : Int} {o : SourceOperand} {name : String}
    {e : LineError} (hbody : line.body = .code c) (haddress : line.address = some a)
    (ho : c.operand = some o) (hlabel : o.label = some name) (hinside : outside line = false)
    (hvalue : value symbols c.relative (a + c.footprint) o.size name = .error e) :
    resolve symbols line = line.report e := by
  obtain ⟨text, mode, label, v, size⟩ := o
  obtain rfl : label = some name := hlabel
  rw [resolve, hbody, haddress]
  simp only [ho]
  rw [hinside, if_neg Bool.false_ne_true, Option.elim_some, hvalue]

/-- An operand has the value that it resolves to, and resolving found no problem with its line; or
it found exactly the problem, and the operand has the value zero. -/
def Settled (result : Except LineError Int) (operand : Int) (errors : List LineError) : Prop :=
  match result with
  | .ok v => operand = v ∧ errors = []
  | .error e => operand = 0 ∧ errors = [e]

/-- A value that is accepted under a condition settles the operand, or else the problem does. -/
theorem settled_ite {accepted : Bool} {P : Prop} [Decidable P] {v operand : Int} {e : LineError}
    {errors : List LineError} (hiff : accepted = true ↔ P)
    (h : Settled (if accepted = true then .ok v else .error e) operand errors) :
    if P then operand = v ∧ errors = [] else operand = 0 ∧ errors = [e] := by
  by_cases hP : P
  · rw [if_pos (hiff.2 hP)] at h
    rwa [if_pos hP]
  · rw [if_neg (mt hiff.1 hP)] at h
    rwa [if_neg hP]

/-- Such an instruction, whose operand had no value yet, has the value of the label, or else one
problem of resolving and still no value. -/
theorem value_of_resolve {c₀ c : CodeLine} {a : Int} {o₀ o : SourceOperand} {name : String}
    (hbody₀ : line.body = .code c₀) (haddress : line.address = some a)
    (ho₀ : c₀.operand = some o₀) (hlabel : o₀.label = some name) (hopen : o₀.value = 0)
    (hinside : outside line = false) (hnone : line.resolvingErrors = [])
    (hbody : (resolve symbols line).body = .code c) (ho : c.operand = some o) :
    Settled (value symbols c₀.relative (a + c₀.footprint) o₀.size name) o.value
      (resolve symbols line).resolvingErrors := by
  cases hvalue : value symbols c₀.relative (a + c₀.footprint) o₀.size name with
  | ok v =>
    rw [resolve_of_value hbody₀ haddress ho₀ hlabel hinside hvalue] at hbody ⊢
    obtain rfl := LineBody.code.inj hbody
    rw [CodeLine.withValue, ho₀] at ho
    obtain rfl := Option.some.inj ho
    exact ⟨rfl, hnone⟩
  | error e =>
    rw [resolve_of_problem hbody₀ haddress ho₀ hlabel hinside hvalue] at hbody ⊢
    obtain rfl := LineBody.code.inj (hbody₀.symm.trans hbody)
    obtain rfl := Option.some.inj (ho₀.symm.trans ho)
    have hfound : [e].filter (·.pass = .resolving) = [e] := by simp [pass_of_value hvalue]
    refine ⟨hopen, ?_⟩
    rw [Line.resolvingErrors, Line.report, List.filter_append, hfound, ← Line.resolvingErrors,
      hnone, List.nil_append]

end Resolution

/-- Classification finds no problem of resolving. -/
theorem Line.Classified.resolvingErrors {arch : Architecture} {l : Line} (h : l.Classified arch) :
    l.resolvingErrors = [] := by
  rw [Line.resolvingErrors, List.filter_eq_nil_iff]
  intro e he
  rw [h.pass e he]
  decide

namespace Program

-- what the passes do is known by now, and unfolding them only slows unification down
attribute [local irreducible] assemble

variable {arch : Architecture} {source : String} {memorySize : Nat} {l : Line} {c : CodeLine}
  {a : Int} {o : SourceOperand} {name : String}

/-- An instruction of a program was classified as this instruction, apart from the value of its
operand, then placed and resolved. -/
theorem exists_classify_of_mem_lines (hl : l ∈ (assemble arch source memorySize).lines)
    (hbody : l.body = .code c) :
    ∃ s state v, (arch.classify s).body = .code (c.withValue v) ∧
      l = Resolution.resolve (assemble arch source memorySize).symbols
        (Layout.place memorySize state (arch.classify s)).1 := by
  obtain ⟨s, state, rfl⟩ := mem_lines_assemble hl
  obtain ⟨v, hplaced⟩ := Resolution.exists_of_body_resolve hbody
  rw [Layout.body_place] at hplaced
  exact ⟨s, state, v, hplaced, rfl⟩

/-- An instruction that was not reported to lie outside memory lies inside. -/
theorem inside_of_mem_lines (hl : l ∈ (assemble arch source memorySize).lines)
    (hbody : l.body = .code c) (haddress : l.address = some a)
    (hinside : Resolution.outside l = false) : 0 ≤ a ∧ a + c.footprint ≤ memorySize := by
  obtain ⟨s, state, v, hclassify, rfl⟩ := exists_classify_of_mem_lines hl hbody
  have hstored : (arch.classify s).isStored = true := by rw [Line.isStored, hclassify]
  have hfootprint : (arch.classify s).footprint = c.footprint := by
    rw [Line.footprint, hclassify]
    exact c.footprint_withValue v
  obtain ⟨a', ha', hfits⟩ := Layout.inside_of_place hstored
    (Architecture.classified_classify s).inside (Resolution.outside_of_resolve hinside)
  rw [Resolution.address_resolve, ha'] at haddress
  obtain rfl := Option.some.inj haddress
  rwa [hfootprint] at hfits

/-- The operand of an instruction that names a label and lies inside memory has the value that the
label resolves to, or there is one problem. -/
theorem settled_of_mem_lines (hl : l ∈ (assemble arch source memorySize).lines)
    (hbody : l.body = .code c) (haddress : l.address = some a)
    (hinside : Resolution.outside l = false) (ho : c.operand = some o)
    (hlabel : o.label = some name) :
    Resolution.Settled (Resolution.value (assemble arch source memorySize).symbols c.relative
      (a + c.footprint) o.size name) o.value l.resolvingErrors := by
  obtain ⟨s, state, v, hclassify, rfl⟩ := exists_classify_of_mem_lines hl hbody
  have hclassified : (arch.classify s).Classified arch := Architecture.classified_classify s
  have ho₀ := c.operand_withValue ho v
  -- classification left the value of the label open
  have hopen : v = 0 := by
    obtain ⟨-, -, hread⟩ := hclassified.code _ hclassify
    obtain ⟨text, htext⟩ := hread _ ho₀
    obtain ⟨-, -, -, ⟨-, hzero, -⟩ | ⟨hnone, -, -⟩⟩ := Architecture.operandOf_eq_ok htext
    · exact hzero
    · rw [hlabel] at hnone
      simp at hnone
  have hplaced : (Layout.place memorySize state (arch.classify s)).1.body =
      .code (c.withValue v) := by
    rw [Layout.body_place, hclassify]
  have hnone : (Layout.place memorySize state (arch.classify s)).1.resolvingErrors = [] := by
    rw [Layout.resolvingErrors_place, hclassified.resolvingErrors]
  rw [Resolution.address_resolve] at haddress
  have hsettled := Resolution.value_of_resolve hplaced haddress ho₀ hlabel hopen
    (Resolution.outside_of_resolve hinside) hnone hbody ho
  rwa [CodeLine.footprint_withValue] at hsettled

/-- The operand of an instruction is narrow. -/
theorem operand_size_of_mem_lines (harch : arch.Checked)
    (hl : l ∈ (assemble arch source memorySize).lines) (hbody : l.body = .code c)
    (ho : c.operand = some o) : o.size ≤ Draft.widest := by
  obtain ⟨s, state, v, hclassify, -⟩ := exists_classify_of_mem_lines hl hbody
  have hlimit := (Architecture.classified_classify s).operand_size harch hclassify
    (c.operand_withValue ho v)
  exact hlimit

/-- The operand `o`, which names the label `name`, of the instruction `c` on the line `l` at the
address `a` is resolved. If no line of the program defines the label, that is the one problem of
resolving. Otherwise the first line that defines it has an address `T`, and the operand of an
instruction that is not relative is `T`, if that fits an unsigned operand; the operand of a relative
instruction is the distance to `T` from the end of the line, if that fits a signed operand. Where
the value does not fit, that is the one problem. With a problem the operand stays zero. -/
structure Resolves (p : Program) (l : Line) (c : CodeLine) (a : Int) (o : SourceOperand)
    (name : String) : Prop where
  unknown : p.definition? name = none → o.value = 0 ∧ l.resolvingErrors = [.unknownLabel name]
  address : ∀ k, p.definition? name = some k → ∃ T, k.address = some T
  absolute : ∀ k T, p.definition? name = some k → k.address = some T → c.relative = false →
    if 0 ≤ T ∧ T < Word.modulus o.size then o.value = T ∧ l.resolvingErrors = []
    else o.value = 0 ∧ l.resolvingErrors = [.labelTooWide name o.size]
  relative : ∀ k T, p.definition? name = some k → k.address = some T → c.relative = true →
    let distance := T - (a + l.footprint)
    if -(Word.weight (8 * o.size - 1) : Int) ≤ distance ∧
        distance < Word.weight (8 * o.size - 1) then
      o.value = distance ∧ l.resolvingErrors = []
    else o.value = 0 ∧ l.resolvingErrors = [.branchOutOfRange name]

/-- In a program of an accepted architecture for a memory that is not larger than the greatest
number, every label that is the operand of an instruction, in at least one byte, is resolved, unless
the instruction was reported to lie outside memory. -/
theorem resolves_of_mem_lines (harch : arch.Checked) (hsize : (memorySize : Int) ≤ Word.greatest)
    (hl : l ∈ (assemble arch source memorySize).lines) (hbody : l.body = .code c)
    (haddress : l.address = some a) (hinside : Resolution.outside l = false)
    (ho : c.operand = some o) (hlabel : o.label = some name) (hwidth : 1 ≤ o.size) :
    (assemble arch source memorySize).Resolves l c a o name := by
  have hplace := inside_of_mem_lines hl hbody haddress hinside
  have hsettled := settled_of_mem_lines hl hbody haddress hinside ho hlabel
  have hfootprint : l.footprint = c.footprint := by rw [Line.footprint, hbody]
  have hnarrow : o.size < 8 := by
    have hwidest : Draft.widest = 4 := rfl
    have hlimit := operand_size_of_mem_lines harch hl hbody ho
    omega
  -- inside memory no number is out of range
  rw [← Resolution.exactValue_eq_value _ ⟨by omega, by omega⟩ hnarrow, Resolution.exactValue]
    at hsettled
  rcases find?_symbols arch source memorySize name with
    ⟨hundefined, hfree⟩ | ⟨k, T, s, hdefined, hT, hbound, rfl⟩
  · rw [hfree] at hsettled
    refine ⟨fun _ => hsettled, ?_, ?_, ?_⟩
    · intro k hk
      simp [hundefined] at hk
    · intro k T hk
      simp [hundefined] at hk
    · intro k T hk
      simp [hundefined] at hk
  · rw [hbound] at hsettled
    dsimp only at hsettled
    have hfirst : ∀ k' T, (assemble arch source memorySize).definition? name = some k' →
        k'.address = some T → T = s.address := by
      intro k' T hk' hT'
      obtain rfl := Option.some.inj (hdefined.symm.trans hk')
      exact Option.some.inj (hT'.symm.trans hT)
    refine ⟨?_, ?_, ?_, ?_⟩
    · intro hundefined
      simp [hundefined] at hdefined
    · intro k' hk'
      obtain rfl := Option.some.inj (hdefined.symm.trans hk')
      exact ⟨s.address, hT⟩
    · intro k' T hk' hT' hrelative
      obtain rfl := hfirst k' T hk' hT'
      rw [if_neg (by simp [hrelative])] at hsettled
      exact Resolution.settled_ite (Word.fitsUnsigned_eq_true_iff hnarrow) hsettled
    · intro k' T hk' hT' hrelative
      obtain rfl := hfirst k' T hk' hT'
      rw [if_pos hrelative] at hsettled
      rw [hfootprint]
      exact Resolution.settled_ite (Word.fitsSigned_eq_true_iff_weight hwidth hnarrow) hsettled

end Program

end Breadboard
