import Breadboard.Edu1
import Breadboard.Mos6502
import Breadboard.Proofs.Assembler.Fields
import Breadboard.Proofs.Assembler.Symbols

/-!
# Programs at another origin

Lines that give no addresses are placed from zero on, or from the origin that a directive in front
of them gives. The second walk runs through the states of the first one, moved by the origin
(`Layout.State.moved`, `Layout.place_moved`), as long as the cursor is not held back at the greatest
number. So every address is that of the first program, moved by the origin, a distance stays what it
is, and an address that is encoded for a label is moved too (`Resolution.resolve_moved`). What is
held back is not moved: `Program.held_back_of_origin` shows it in a memory that goes on beyond the
greatest number.
-/

namespace Breadboard

/-! ## Moving -/

/-- The label at an address that is `k` further on. -/
def Symbol.moved (k : Int) (s : Symbol) : Symbol := { s with address := s.address + k }

namespace SymbolTable

/-- All labels at addresses that are `k` further on. -/
def moved (k : Int) (t : SymbolTable) : SymbolTable := t.map (Symbol.moved k)

theorem find?_moved (k : Int) (t : SymbolTable) (name : String) :
    (t.moved k).find? name = (t.find? name).map (Symbol.moved k) := by
  rw [find?, find?, moved, List.find?_map]
  rfl

/-- What is bound does not depend on the addresses. -/
theorem define_moved (k : Int) (t : SymbolTable) (s : Symbol) :
    (t.moved k).define (s.moved k) = (t.define s).moved k := by
  have hname : (s.moved k).name = s.name := rfl
  rw [define, define, find?_moved, hname]
  cases t.find? s.name with
  | some found => rfl
  | none =>
    dsimp only [Option.map_none]
    rw [moved, moved, List.map_append, List.map_singleton]

end SymbolTable

/-- The operand is a label, and its address is encoded. -/
def CodeLine.namesAddress (c : CodeLine) : Bool :=
  ! c.relative && c.operand.any (·.label.isSome)

/-- The instruction where the label that it names is `k` further on, if it encodes the address of
the label. -/
def CodeLine.moved (k : Int) (c : CodeLine) : CodeLine :=
  if c.namesAddress then
    { c with operand := c.operand.map fun o => { o with value := o.value + k } }
  else c

/-- So for an instruction; nothing else names a label. -/
def LineBody.moved (k : Int) : LineBody → LineBody
  | .code c => .code (c.moved k)
  | body => body

namespace Line

/-- The line is an instruction that encodes the address of a label. -/
def namesAddress (l : Line) : Bool :=
  match l.body with
  | .code c => c.namesAddress
  | _ => false

/-- The line at an address that is `k` further on. -/
def shifted (k : Int) (l : Line) : Line := { l with address := l.address.map (· + k) }

/-- The line in a program that is `k` further on. -/
def moved (k : Int) (l : Line) : Line := { l.shifted k with body := l.body.moved k }

/-- Unless it encodes the address of a label, only the address of a line is another. -/
theorem moved_of_not_namesAddress {l : Line} (h : l.namesAddress = false) (k : Int) :
    l.moved k = l.shifted k := by
  have hbody : l.body.moved k = l.body := by
    rw [namesAddress] at h
    cases hl : l.body with
    | code c =>
      rw [hl] at h
      dsimp only at h
      rw [LineBody.moved, CodeLine.moved, h]
      rfl
    | directive name => rfl
    | data keyword size v => rfl
    | label => rfl
    | unknown => rfl
  rw [moved, hbody]
  rfl

/-- So it has the same bytes. -/
theorem bytes_moved {l : Line} (h : l.namesAddress = false) (k : Int) :
    (l.moved k).bytes = l.bytes := by
  rw [moved_of_not_namesAddress h]
  rfl

theorem exists_of_named? {l : Line} {name : String} (h : l.named? = some name) :
    ∃ c o, l.body = .code c ∧ c.operand = some o ∧ o.label = some name := by
  rw [named?] at h
  split at h
  next c hbody =>
    obtain ⟨o, ho, hlabel⟩ := Option.bind_eq_some_iff.1 h
    exact ⟨c, o, hbody, ho, hlabel⟩
  next => simp at h

theorem not_namesAddress_of_named? {l : Line} (h : l.named? = none) : l.namesAddress = false := by
  rw [namesAddress]
  rw [named?] at h
  split
  next c hbody =>
    rw [hbody] at h
    dsimp only at h
    rw [CodeLine.namesAddress]
    cases ho : c.operand with
    | none => simp
    | some o =>
      rw [ho, Option.bind_some] at h
      simp [h]
  next => rfl

end Line

namespace Layout

/-- The state of a walk that is `k` further on. -/
def State.moved (k : Int) (s : State) : State :=
  { cursor := s.cursor + k, symbols := s.symbols.moved k }

/-! ## Placing -/

variable {memorySize : Nat} {k : Int} {line : Line}

theorem bind_moved (k : Int) (symbols : SymbolTable) (line : Line) (address : Int) :
    bind (symbols.moved k) (line.shifted k) (address + k) =
      ((bind symbols line address).1.shifted k, (bind symbols line address).2.moved k) := by
  have hlabel : (line.shifted k).label = line.label := rfl
  rw [bind, bind, hlabel]
  cases line.label with
  | none => rfl
  | some name =>
    dsimp only
    rw [SymbolTable.find?_moved]
    cases symbols.find? name with
    | some s => rfl
    | none =>
      have hdefine := SymbolTable.define_moved k symbols ⟨name, address, line.number⟩
      exact congrArg (Prod.mk (line.shifted k)) hdefine

/-- A line that fits is placed as it is, and its label is bound. -/
theorem placeAt_of_fits {address : Int} (h : fits address line.footprint memorySize = true)
    (state : State) :
    placeAt memorySize state line address =
      ((bind state.symbols { line with address := some address } address).1,
        { cursor := past address line.footprint
          symbols := (bind state.symbols { line with address := some address } address).2 }) := by
  rw [placeAt, h]
  rfl

/-- A line that is placed at the cursor, and fits, has its label bound there. -/
theorem place_of_atCursor (h : line.AtCursor) {state : State}
    (hfits : line.isStored = true → fits state.cursor line.footprint memorySize = true) :
    (place memorySize state line).1 =
        (bind state.symbols { line with address := some state.cursor } state.cursor).1 ∧
      (place memorySize state line).2.symbols =
        (bind state.symbols { line with address := some state.cursor } state.cursor).2 := by
  obtain ⟨hkind, haddress⟩ := h
  rw [Line.isStored] at hfits
  rw [Line.isStored, Line.isLabel] at hkind
  rw [place]
  split
  next name hbody => simp [hbody] at hkind
  next => exact ⟨rfl, rfl⟩
  next keyword size v hbody =>
    rw [haddress, Option.getD_none, placeAt_of_fits (hfits (by rw [hbody]))]
    exact ⟨rfl, rfl⟩
  next c hbody =>
    rw [placeAt_of_fits (hfits (by rw [hbody]))]
    exact ⟨rfl, rfl⟩
  next hbody => simp [hbody] at hkind

/-- A line without a problem fits where it was placed. -/
theorem fits_of_errors_place (h : line.AtCursor) {state : State}
    (herrors : (place memorySize state line).1.errors = []) (hstored : line.isStored = true) :
    fits state.cursor line.footprint memorySize = true := by
  obtain ⟨start, haddress, hfit⟩ := place_inside hstored herrors
  rw [address_place h.1, target_of_address_eq_none h.2, Option.some.injEq] at haddress
  rw [haddress, fits_eq_true_iff]
  omega

theorem advance_of_atCursor (h : line.AtCursor) (cursor : Int) :
    advance cursor line = if line.isStored then past cursor line.footprint else cursor := by
  obtain ⟨hkind, haddress⟩ := h
  have htarget := target_of_address_eq_none haddress cursor
  rw [Line.isStored, Line.isLabel] at hkind
  rw [advance, Line.isStored]
  split
  next name hbody => simp [hbody] at hkind
  next hbody => rw [htarget, hbody]; rfl
  next hbody => rw [htarget, hbody]; rfl
  next hbody => rw [hbody]; rfl
  next hbody => simp [hbody] at hkind

/-- Placing a line at the cursor moves with the cursor, if it has no problem in either walk. -/
theorem place_moved (h : line.AtCursor) {state : State}
    (herrors : (place memorySize state line).1.errors = [])
    (herrors' : (place memorySize (state.moved k) line).1.errors = []) :
    (place memorySize (state.moved k) line).1 = (place memorySize state line).1.shifted k ∧
      (place memorySize (state.moved k) line).2.symbols =
        (place memorySize state line).2.symbols.moved k := by
  have hbind := bind_moved k state.symbols { line with address := some state.cursor } state.cursor
  obtain ⟨hline, hsymbols⟩ := place_of_atCursor h (fits_of_errors_place h herrors)
  obtain ⟨hline', hsymbols'⟩ := place_of_atCursor h (fits_of_errors_place h herrors')
  rw [hline, hsymbols, hline', hsymbols']
  exact ⟨congrArg Prod.fst hbind, congrArg Prod.snd hbind⟩

/-- So does the cursor, unless it would be held back. The first line that takes room begins at zero,
so the second walk can only be further on. -/
theorem cursor_place_moved (h : line.AtCursor) {state : State}
    (herrors : (place memorySize state line).1.errors = [])
    (herrors' : (place memorySize (state.moved k) line).1.errors = [])
    (hk : state.cursor = 0 ∨ 0 ≤ k)
    (hroom : (memorySize : Int) ≤ Word.greatest ∨
      (place memorySize state line).2.cursor + k ≤ Word.greatest) :
    (place memorySize (state.moved k) line).2.cursor =
        (place memorySize state line).2.cursor + k ∧
      ((place memorySize state line).2.cursor = 0 ∨ 0 ≤ k) := by
  have hfits := fits_of_errors_place h herrors
  have hfits' := fits_of_errors_place h herrors'
  have hmoved : (state.moved k).cursor = state.cursor + k := rfl
  rw [cursor_place, advance_of_atCursor h] at hroom ⊢
  rw [cursor_place, advance_of_atCursor h, hmoved]
  cases hstored : line.isStored with
  | false => exact ⟨rfl, hk⟩
  | true =>
    have hin := fits_eq_true_iff.1 (hfits hstored)
    have hin' := fits_eq_true_iff.1 (hfits' hstored)
    rw [hmoved] at hin'
    rw [hstored] at hroom
    simp only [if_true, past] at hroom ⊢
    omega

attribute [ext] State

/-- The whole walk moves with the cursor, if no line has a problem in either walk, and nothing that
is placed in the first one would be held back in the second one. -/
theorem placeAll_moved {lines : List Line} (hlines : ∀ l ∈ lines, l.AtCursor) {state : State}
    (hok : ∀ l ∈ (placeAll memorySize state lines).1, l.errors = [])
    (hok' : ∀ l ∈ (placeAll memorySize (state.moved k) lines).1, l.errors = [])
    (hk : state.cursor = 0 ∨ 0 ≤ k)
    (hroom : (memorySize : Int) ≤ Word.greatest ∨
      ∀ l ∈ (placeAll memorySize state lines).1, ∀ a, l.address = some a →
        a + k ≤ Word.greatest) :
    (placeAll memorySize (state.moved k) lines).1 =
        (placeAll memorySize state lines).1.map (Line.shifted k) ∧
      (placeAll memorySize (state.moved k) lines).2.symbols =
        (placeAll memorySize state lines).2.symbols.moved k := by
  induction lines generalizing state with
  | nil => exact ⟨rfl, rfl⟩
  | cons line rest ih =>
    have hline := hlines line List.mem_cons_self
    have hrest : ∀ l ∈ rest, l.AtCursor := fun l hl => hlines l (List.mem_cons_of_mem _ hl)
    rw [placeAll_cons] at hok hok' hroom
    rw [placeAll_cons, placeAll_cons, List.map_cons]
    obtain ⟨herrors, hok⟩ := List.forall_mem_cons.1 hok
    obtain ⟨herrors', hok'⟩ := List.forall_mem_cons.1 hok'
    obtain ⟨hplaced, hsymbols⟩ := place_moved hline herrors herrors'
    rw [hplaced]
    cases rest with
    | nil => exact ⟨rfl, hsymbols⟩
    | cons next rest =>
      -- the next line is placed where the cursor is, so the cursor is not held back
      have hnext : (memorySize : Int) ≤ Word.greatest ∨
          (place memorySize state line).2.cursor + k ≤ Word.greatest := by
        rcases hroom with hsmall | hroom
        · exact Or.inl hsmall
        · right
          have hfirst := hrest next List.mem_cons_self
          apply hroom _ (List.mem_cons_of_mem _ (by rw [placeAll_cons]; exact List.mem_cons_self))
          rw [address_place hfirst.1, target_of_address_eq_none hfirst.2]
      obtain ⟨hcursor, hk⟩ := cursor_place_moved hline herrors herrors' hk hnext
      have hstate : (place memorySize (state.moved k) line).2 =
          (place memorySize state line).2.moved k := State.ext hcursor hsymbols
      rw [hstate] at hok' ⊢
      obtain ⟨hlines, hsymbols⟩ := ih hrest hok hok' hk (hroom.imp_right fun h l hl =>
        h l (List.mem_cons_of_mem _ hl))
      exact ⟨congrArg _ hlines, hsymbols⟩

end Layout

/-! ## Resolving -/

namespace Resolution

variable {symbols : SymbolTable} {k : Int} {line : Line}

/-- A distance stays what it is, and an address moves with the labels. -/
theorem value_moved {relative : Bool} {next v v' : Int} {size : Nat} {name : String}
    (h : value symbols relative next size name = .ok v)
    (h' : value (symbols.moved k) relative (next + k) size name = .ok v') :
    v' = if relative then v else v + k := by
  rw [value, SymbolTable.find?_moved] at h'
  rw [value] at h
  cases hfind : symbols.find? name with
  | none => simp [hfind] at h
  | some target =>
    rw [hfind] at h h'
    dsimp only [Option.map_some, Symbol.moved] at h h'
    cases relative with
    | true =>
      rw [if_pos rfl] at h h' ⊢
      split at h
      · split at h'
        · have hv := Except.ok.inj h
          have hv' := Except.ok.inj h'
          omega
        · simp at h'
      · simp at h
    | false =>
      rw [if_neg Bool.false_ne_true] at h h' ⊢
      split at h
      · split at h'
        · have hv := Except.ok.inj h
          have hv' := Except.ok.inj h'
          omega
        · simp at h'
      · simp at h

/-- The value of an operand without a problem. -/
theorem exists_value_of_errors {c : CodeLine} {a : Int} {o : SourceOperand} {name : String}
    (hbody : line.body = .code c) (haddress : line.address = some a) (ho : c.operand = some o)
    (hlabel : o.label = some name) (herrors : (resolve symbols line).errors = []) :
    ∃ v, value symbols c.relative (a + c.footprint) o.size name = .ok v ∧
      resolve symbols line = { line with body := .code (c.withValue v) } := by
  have hinside := outside_of_errors (errors_of_resolve herrors)
  cases hvalue : value symbols c.relative (a + c.footprint) o.size name with
  | ok v => exact ⟨v, rfl, resolve_of_value hbody haddress ho hlabel hinside hvalue⟩
  | error e =>
    rw [resolve_of_problem hbody haddress ho hlabel hinside hvalue] at herrors
    simp [Line.report] at herrors

/-- Where a label is named, the value moves with it if it is its address. -/
theorem moved_withValue {c : CodeLine} {o : SourceOperand} {name : String}
    (ho : c.operand = some o) (hlabel : o.label = some name) (v : Int) :
    (c.withValue v).moved k = c.withValue (if c.relative then v else v + k) := by
  obtain ⟨mnemonic, size, relative, operand, opcode⟩ := c
  obtain ⟨text, mode, label, v₀, width⟩ := o
  obtain rfl : operand = _ := ho
  obtain rfl : label = _ := hlabel
  cases relative with
  | true => rfl
  | false => rfl

/-- A placed line without a problem is resolved to the line moved. -/
theorem resolve_moved {a : Int} (haddress : line.address = some a)
    (herrors : (resolve symbols line).errors = [])
    (herrors' : (resolve (symbols.moved k) (line.shifted k)).errors = []) :
    resolve (symbols.moved k) (line.shifted k) = (resolve symbols line).moved k := by
  cases hnamed : line.named? with
  | none =>
    have hnamed' : (line.shifted k).named? = none := hnamed
    rw [resolve_of_named? hnamed, resolve_of_named? hnamed',
      Line.moved_of_not_namesAddress (Line.not_namesAddress_of_named? hnamed)]
  | some name =>
    obtain ⟨c, o, hbody, ho, hlabel⟩ := Line.exists_of_named? hnamed
    have hbody' : (line.shifted k).body = .code c := hbody
    have haddress' : (line.shifted k).address = some (a + k) := by
      rw [Line.shifted, haddress]
      rfl
    obtain ⟨v, hvalue, hline⟩ := exists_value_of_errors hbody haddress ho hlabel herrors
    obtain ⟨v', hvalue', hline'⟩ := exists_value_of_errors hbody' haddress' ho hlabel herrors'
    -- the end of the instruction has moved as well
    have hend : a + k + (c.footprint : Int) = a + c.footprint + k := by omega
    rw [hend] at hvalue'
    rw [hline, hline', value_moved hvalue hvalue', ← moved_withValue ho hlabel]
    rfl

end Resolution

/-! ## Programs -/

namespace Layout

/-- Every line that is placed at the cursor has an address. -/
theorem exists_address_of_mem_placeAll {memorySize : Nat} {state : State} {lines : List Line}
    (hlines : ∀ l ∈ lines, l.AtCursor) {l : Line}
    (hl : l ∈ (placeAll memorySize state lines).1) : ∃ a, l.address = some a := by
  obtain ⟨line, hmem, state', rfl⟩ := mem_placeAll hl
  exact ⟨_, address_place (hlines line hmem).1 memorySize state'⟩

end Layout

namespace Program

/-- The program that lines make which are classified already. -/
def ofLines (memorySize : Nat) (lines : List Line) : Program :=
  let (lines, state) := Layout.placeAll memorySize {} lines
  { lines := lines.map (Resolution.resolve state.symbols), symbols := state.symbols }

theorem assemble_eq_ofLines (arch : Architecture) (source : String) (memorySize : Nat) :
    assemble arch source memorySize = ofLines memorySize (arch.classified source) := by
  rw [assemble, ofLines, Architecture.classified]

theorem ofLines_eq (memorySize : Nat) (lines : List Line) :
    ofLines memorySize lines =
      { lines := (Layout.placeAll memorySize {} lines).1.map
          (Resolution.resolve (Layout.placeAll memorySize {} lines).2.symbols)
        symbols := (Layout.placeAll memorySize {} lines).2.symbols } := rfl

/-- Behind an origin, the walk goes on from the origin. -/
theorem ofLines_cons {memorySize : Nat} {origin : Line} {name : String} {k : Int}
    (hbody : origin.body = .directive name) (horigin : origin.address = some k)
    (lines : List Line) :
    let stop := Layout.placeAll memorySize (({} : Layout.State).moved k) lines
    ofLines memorySize (origin :: lines) =
      { lines := origin :: stop.1.map (Resolution.resolve stop.2.symbols)
        symbols := stop.2.symbols } := by
  intro stop
  have hplace : Layout.place memorySize {} origin =
      (origin, ({} : Layout.State).moved k) := by
    rw [Layout.place, hbody, Layout.State.moved]
    dsimp only
    rw [horigin, Option.getD_some, Int.zero_add]
    rfl
  have hnamed : origin.named? = none := by rw [Line.named?, hbody]
  rw [ofLines_eq, Layout.placeAll_cons, hplace, List.map_cons, Resolution.resolve_of_named? hnamed]

/-- Take instructions, data and labels that give no addresses, and a directive with the origin `k`
in front of them. If both make a program without problems, the second has the addresses of the
first, each `k` further on, and so have its symbols and the operands that encode the address of a
label; every other operand has the value that it has in the first, and every line without such an
address has the same bytes. This holds in a memory that ends before the greatest number, and in any
memory where no address of the first program is beyond the greatest number once it is moved. -/
theorem moved_of_origin {memorySize : Nat} {origin : Line} {name : String} {k : Int}
    {lines : List Line} (hbody : origin.body = .directive name) (horigin : origin.address = some k)
    (hlines : ∀ l ∈ lines, l.AtCursor) (hok : (ofLines memorySize lines).isOk = true)
    (hok' : (ofLines memorySize (origin :: lines)).isOk = true)
    (hroom : (memorySize : Int) ≤ Word.greatest ∨
      ∀ l ∈ (ofLines memorySize lines).lines, ∀ a, l.address = some a → a + k ≤ Word.greatest) :
    let p := ofLines memorySize lines
    let q := ofLines memorySize (origin :: lines)
    q.lines = origin :: p.lines.map (Line.moved k) ∧ q.symbols = p.symbols.moved k ∧
      ∀ l ∈ p.lines, l.namesAddress = false → (l.moved k).bytes = l.bytes := by
  dsimp only
  rw [isOk_eq_true_iff] at hok hok'
  rw [ofLines_cons hbody horigin] at hok' ⊢
  rw [ofLines_eq] at hok hroom ⊢
  dsimp only at hok hok' hroom ⊢
  have hresolved := List.forall_mem_map.1 hok
  have hresolved' := List.forall_mem_map.1 (List.forall_mem_cons.1 hok').2
  -- resolving leaves the addresses alone, and takes no problem away
  have haddresses : (memorySize : Int) ≤ Word.greatest ∨
      ∀ l ∈ (Layout.placeAll memorySize {} lines).1, ∀ a, l.address = some a →
        a + k ≤ Word.greatest := by
    refine hroom.imp_right fun h l hl a ha => h _ (List.mem_map_of_mem hl) a ?_
    rw [Resolution.address_resolve, ha]
  obtain ⟨hplaced, hsymbols⟩ := Layout.placeAll_moved hlines
    (fun l hl => Resolution.errors_of_resolve (hresolved l hl))
    (fun l hl => Resolution.errors_of_resolve (hresolved' l hl)) (Or.inl rfl) haddresses
  rw [hplaced, hsymbols] at hresolved' ⊢
  refine ⟨?_, rfl, fun l _ hl => Line.bytes_moved hl k⟩
  rw [List.map_map, List.map_map]
  congr 1
  apply List.map_congr_left
  intro l hl
  obtain ⟨a, ha⟩ := Layout.exists_address_of_mem_placeAll hlines hl
  exact Resolution.resolve_moved ha (hresolved l hl)
    (hresolved' (l.shifted k) (List.mem_map_of_mem hl))

/-- A loop with a distance and an address in it, at the origin 32. -/
theorem moved_of_origin_mos6502 :
    let origin := Mos6502.architecture.classify ⟨1, "ORG $20", ["ORG", "$20"]⟩
    let lines := Mos6502.architecture.classified "\nloop: DEX\nBNE loop\nJMP loop\nEND\n"
    (ofLines 256 (origin :: lines)).lines =
        origin :: (ofLines 256 lines).lines.map (Line.moved 32) ∧
      (ofLines 256 lines).symbols = [⟨"loop", 0, 2⟩] ∧
      (ofLines 256 (origin :: lines)).symbols = [⟨"loop", 32, 2⟩] := by
  intro origin lines
  have hlines : ∀ l ∈ lines, (l.isStored || l.isLabel) = true ∧ l.address = none := by
    decide +kernel
  have hsymbols : (ofLines 256 lines).symbols = [⟨"loop", 0, 2⟩] := by decide +kernel
  have hbody : origin.body = .directive "ORG" := by decide +kernel
  have horigin : origin.address = some 32 := by decide +kernel
  obtain ⟨hmoved, hsymbols', -⟩ := moved_of_origin hbody horigin hlines
    (show (ofLines 256 lines).isOk = true by decide +kernel) (by decide +kernel)
    (Or.inl (by decide))
  refine ⟨hmoved, hsymbols, ?_⟩
  rw [hsymbols', hsymbols]
  rfl

/-- In a memory that goes on beyond the greatest number, the last instruction is held back there: it
is one byte behind the first one instead of two. -/
theorem held_back_of_origin :
    let origin := Edu1.architecture.classify
      ⟨1, ".CODE 9223372036854775806", [".CODE", "9223372036854775806"]⟩
    let lines := Edu1.architecture.classified "\nMOVA #1\n.END\n"
    let p := ofLines 18446744073709551615 lines
    let q := ofLines 18446744073709551615 (origin :: lines)
    origin.body = .directive ".CODE" ∧ origin.address = some 9223372036854775806 ∧
      (∀ l ∈ lines, (l.isStored || l.isLabel) = true ∧ l.address = none) ∧
      p.isOk = true ∧ q.isOk = true ∧ p.lines.map (·.address) = [some 0, some 2] ∧
      q.lines.map (·.address) =
        [some 9223372036854775806, some 9223372036854775806, some 9223372036854775807] ∧
      q.lines ≠ origin :: p.lines.map (Line.moved 9223372036854775806) := by
  decide +kernel

end Program

end Breadboard
