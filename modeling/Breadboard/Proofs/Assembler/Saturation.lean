import Breadboard.Edu1
import Breadboard.Proofs.Architecture.Checks
import Breadboard.Proofs.Assembler.Classified
import Breadboard.Proofs.Numeral

/-!
# Saturation

Placing holds the cursor back at the greatest number, and resolving refuses numbers that are out of
range. Beside them stand the same passes over integers without any bound (`Layout.exactPast`,
`Resolution.exactValue`). Only a line that ends beyond memory can take the cursor so far that it is
held back, and what is placed there lies outside memory as well, so both walks report the same lines
(`placeAll_tracks`). Where no line is reported, both walks are the same
(`placeAllBy_past_of_inside`) and labels are resolved alike (`resolveBy_exactValue`). So the bound
is never seen in a program without problems (`placeAll_refines_exact`).
-/

namespace Breadboard

/-! ## The passes without bounds -/

namespace Layout

/-- Just past `size` bytes at `address`, however far that is. -/
def exactPast (address : Int) (size : Nat) : Int := address + size

section

variable (advance : Int → Nat → Int) (memorySize : Nat)

/-- Places a line of some bytes at `address`; `advance` tells where the cursor goes. -/
def placeAtBy (state : State) (line : Line) (address : Int) : Line × State :=
  let size := line.footprint
  let (line, symbols) := bind state.symbols { line with address := some address } address
  let line :=
    if fits address size memorySize then line else line.report (.addressOutOfRange address size)
  (line, { cursor := advance address size, symbols })

/-- Places one line; `advance` tells where the cursor goes past an instruction or data. -/
def placeBy (state : State) (line : Line) : Line × State :=
  match line.body with
  | .directive _ => (line, { state with cursor := line.address.getD state.cursor })
  | .label =>
    let (line, symbols) :=
      bind state.symbols { line with address := some state.cursor } state.cursor
    (line, { state with symbols })
  | .data _ _ _ => placeAtBy advance memorySize state line (line.address.getD state.cursor)
  | .code _ => placeAtBy advance memorySize state line state.cursor
  | .unknown => (line, state)

/-- Places lines in order. -/
def placeAllBy (state : State) : List Line → List Line × State
  | [] => ([], state)
  | line :: rest =>
    let (line, state) := placeBy advance memorySize state line
    let (rest, state) := placeAllBy state rest
    (line :: rest, state)

end

/-- The assembler places lines with a cursor that is held back. -/
theorem placeAllBy_past (memorySize : Nat) (state : State) (lines : List Line) :
    placeAllBy past memorySize state lines = placeAll memorySize state lines := by
  induction lines generalizing state with
  | nil => rfl
  | cons line rest ih =>
    have hline : placeBy past memorySize state line = place memorySize state line := rfl
    rw [placeAllBy, placeAll, hline]
    dsimp only
    rw [ih]

end Layout

namespace Resolution

/-- The value of an operand that names a label, where no number is out of range. -/
def exactValue (symbols : SymbolTable) (relative : Bool) (next : Int) (size : Nat)
    (name : String) : Except LineError Int :=
  match symbols.find? name with
  | none => .error (.unknownLabel name)
  | some target =>
    if relative then
      let distance := target.address - next
      if Word.fitsSigned distance size then .ok distance else .error (.branchOutOfRange name)
    else if Word.fitsUnsigned target.address size then .ok target.address
    else .error (.labelTooWide name size)

/-- Resolves the label that the operand of a line names; `valueOf` tells its value. -/
def resolveBy (valueOf : SymbolTable → Bool → Int → Nat → String → Except LineError Int)
    (symbols : SymbolTable) (line : Line) : Line :=
  match line.body, line.address with
  | .code code, some address =>
    match code.operand with
    | some ({ label := some name, .. } : SourceOperand) =>
      if outside line then line
      else
        let next := address + code.footprint
        match valueOf symbols code.relative next (code.operand.elim 0 (·.size)) name with
        | .ok v =>
          { line with
            body := .code { code with operand := code.operand.map fun o => { o with value := v } } }
        | .error e => line.report e
    | _ => line
  | _, _ => line

theorem resolveBy_value : resolveBy value = resolve := rfl

end Resolution

/-! ## One line in both walks -/

/-- The line is ready to be placed: it was not reported to lie outside memory, an address that it
gives is in range, and if it is stored, it has at least one byte. -/
structure Line.Placeable (l : Line) : Prop where
  inside : Resolution.outside l = false
  address_le : ∀ a, l.address = some a → a ≤ Word.greatest
  footprint_pos : l.isStored = true → 0 < l.footprint

theorem Layout.isStored_bind (symbols : SymbolTable) (line : Line) (address : Int) :
    (bind symbols line address).1.isStored = line.isStored := by
  obtain ⟨errors, heq⟩ := bind_eq symbols line address
  rw [heq]
  rfl

theorem Resolution.outside_bind (symbols : SymbolTable) (line : Line) (address : Int) :
    outside (Layout.bind symbols line address).1 = outside line := by
  rw [Layout.bind]
  split
  · rfl
  · split
    · simp [outside, Line.report]
    · rfl

namespace Layout

open Resolution (outside)

/-- What the two walks make of one line: `l` with the cursor held back, `e` without. Both report it
or neither does; an instruction or data is reported exactly if its bytes at the exact address do not
lie inside memory, and unless it is reported, it has the exact address. -/
structure Tracks (memorySize : Nat) (l e : Line) : Prop where
  outside_eq : outside l = outside e
  exact_address : l.isStored = true → ∃ a, e.address = some a ∧
    (outside l = true ↔ ¬ (0 ≤ a ∧ a + l.footprint ≤ memorySize)) ∧
    (outside l = false → l.address = some a)

theorem placeAtBy_eq (advance : Int → Nat → Int) (memorySize : Nat) (state : State) (line : Line)
    (address : Int) : ∃ errors, (placeAtBy advance memorySize state line address).1 =
      { line with address := some address, errors := line.errors ++ errors } :=
  placeAt_eq memorySize state line address

variable {memorySize : Nat} {line : Line}

/-- A line that was not reported before is reported exactly if it does not fit. -/
theorem outside_placeAtBy (h : outside line = false) (advance : Int → Nat → Int) (state : State)
    (address : Int) : outside (placeAtBy advance memorySize state line address).1 =
      ! fits address line.footprint memorySize := by
  have hbind : outside (bind state.symbols { line with address := some address } address).1 =
      false :=
    (Resolution.outside_bind _ _ _).trans h
  rw [placeAtBy]
  dsimp only
  split
  next hfits => rw [hbind, hfits, Bool.not_true]
  next hfits => simp [hfits, outside, Line.report]

theorem fits_eq_true_iff {address : Int} {size memorySize : Nat} :
    fits address size memorySize = true ↔ 0 ≤ address ∧ address + size ≤ memorySize := by
  simp only [fits, Bool.and_eq_true, decide_eq_true_eq]
  omega

/-- Held back or not, an address leaves the line inside memory or outside of it, and where the line
is inside, it was not held back. -/
theorem tracks_placeAtBy (hsize : (memorySize : Int) ≤ Word.greatest) (h : line.Placeable)
    (hstored : line.isStored = true) (s e : State) (a : Int) :
    Tracks memorySize (placeAtBy past memorySize s line (min a Word.greatest)).1
      (placeAtBy exactPast memorySize e line a).1 := by
  have hpos := h.footprint_pos hstored
  -- an address that is held back is the end of memory or beyond it
  have hfits : fits (min a Word.greatest) line.footprint memorySize =
      fits a line.footprint memorySize := by
    rw [Bool.eq_iff_iff, fits_eq_true_iff, fits_eq_true_iff]
    omega
  obtain ⟨errors, hl⟩ := placeAtBy_eq past memorySize s line (min a Word.greatest)
  obtain ⟨errors', he⟩ := placeAtBy_eq exactPast memorySize e line a
  have houtside : outside (placeAtBy past memorySize s line (min a Word.greatest)).1 =
      ! fits a line.footprint memorySize := by
    rw [outside_placeAtBy h.inside, hfits]
  refine ⟨?_, fun _ => ⟨a, by rw [he], ?_, ?_⟩⟩
  · rw [houtside, outside_placeAtBy h.inside]
  · rw [houtside, hl, Bool.not_eq_true', ← fits_eq_true_iff, Bool.not_eq_true]
    rfl
  · intro hinside
    rw [houtside, Bool.not_eq_false', fits_eq_true_iff] at hinside
    rw [hl]
    have hheld : min a Word.greatest = a := by omega
    simp only [hheld]

/-- One line, placed from a cursor that was held back and from the exact one. -/
theorem placeBy_tracks (hsize : (memorySize : Int) ≤ Word.greatest) (h : line.Placeable)
    {s e : State} (hcursor : s.cursor = min e.cursor Word.greatest) :
    Tracks memorySize (placeBy past memorySize s line).1 (placeBy exactPast memorySize e line).1 ∧
      (placeBy past memorySize s line).2.cursor =
        min (placeBy exactPast memorySize e line).2.cursor Word.greatest := by
  have hnotStored : ∀ {l k : Line}, l.isStored = false → outside l = outside k →
      Tracks memorySize l k :=
    fun hno heq => ⟨heq, fun hyes => absurd hyes (by simp [hno])⟩
  have hheld : ∀ a : Int, past (min a Word.greatest) line.footprint =
      min (exactPast a line.footprint) Word.greatest := by
    intro a
    rw [past, exactPast]
    omega
  rw [placeBy, placeBy]
  cases hbody : line.body with
  | directive name =>
    refine ⟨hnotStored (by simp [Line.isStored, hbody]) rfl, ?_⟩
    cases haddress : line.address with
    | none => exact hcursor
    | some a => exact (min_eq_left (h.address_le a haddress)).symm
  | label =>
    refine ⟨hnotStored ?_ ?_, hcursor⟩
    · rw [isStored_bind]
      rfl
    · rw [Resolution.outside_bind, Resolution.outside_bind]
      rfl
  | data keyword size value =>
    have hstored : line.isStored = true := by rw [Line.isStored, hbody]
    have hstart : line.address.getD s.cursor = min (line.address.getD e.cursor) Word.greatest := by
      cases haddress : line.address with
      | none => exact hcursor
      | some a => exact (min_eq_left (h.address_le a haddress)).symm
    dsimp only
    rw [hstart]
    exact ⟨tracks_placeAtBy hsize h hstored s e _, hheld _⟩
  | code c =>
    have hstored : line.isStored = true := by rw [Line.isStored, hbody]
    dsimp only
    rw [hcursor]
    exact ⟨tracks_placeAtBy hsize h hstored s e _, hheld _⟩
  | unknown => exact ⟨hnotStored (by simp [Line.isStored, hbody]) rfl, hcursor⟩

/-! ## All lines in both walks -/

/-- The walk whose cursor is held back tracks the exact one. -/
theorem placeAllBy_tracks (hsize : (memorySize : Int) ≤ Word.greatest) {lines : List Line}
    (h : ∀ l ∈ lines, l.Placeable) {s e : State} (hcursor : s.cursor = min e.cursor Word.greatest) :
    List.Forall₂ (Tracks memorySize) (placeAllBy past memorySize s lines).1
      (placeAllBy exactPast memorySize e lines).1 := by
  -- the invariant is that one cursor is the other, held back
  induction lines generalizing s e with
  | nil => exact .nil
  | cons line rest ih =>
    obtain ⟨hline, hnext⟩ := placeBy_tracks hsize (h line List.mem_cons_self) hcursor
    have hrest := ih (fun l hl => h l (List.mem_cons_of_mem _ hl)) hnext
    exact .cons hline hrest

/-- The assembler tracks the exact walk: both start with the cursor at zero. -/
theorem placeAll_tracks (hsize : (memorySize : Int) ≤ Word.greatest) {lines : List Line}
    (h : ∀ l ∈ lines, l.Placeable) :
    List.Forall₂ (Tracks memorySize) (placeAll memorySize {} lines).1
      (placeAllBy exactPast memorySize {} lines).1 := by
  have hstart : ({} : State).cursor = min ({} : State).cursor Word.greatest := by decide
  rw [← placeAllBy_past]
  exact placeAllBy_tracks hsize h hstart

/-- A line that the exact walk does not report leaves the same cursor in both walks. -/
theorem placeBy_past_of_inside (hsize : (memorySize : Int) ≤ Word.greatest) (h : line.Placeable)
    (state : State) (hinside : outside (placeBy exactPast memorySize state line).1 = false) :
    placeBy past memorySize state line = placeBy exactPast memorySize state line := by
  have hat : ∀ a, outside (placeAtBy exactPast memorySize state line a).1 = false →
      placeAtBy past memorySize state line a = placeAtBy exactPast memorySize state line a := by
    intro a ha
    rw [outside_placeAtBy h.inside, Bool.not_eq_false', fits_eq_true_iff] at ha
    have hpast : past a line.footprint = exactPast a line.footprint := by
      rw [past, exactPast]
      omega
    rw [placeAtBy, placeAtBy, hpast]
  rw [placeBy] at hinside ⊢
  rw [placeBy]
  cases hbody : line.body with
  | data keyword size value =>
    rw [hbody] at hinside
    exact hat _ hinside
  | code c =>
    rw [hbody] at hinside
    exact hat _ hinside
  | directive name => rfl
  | label => rfl
  | unknown => rfl

/-- If no line is reported, both walks are the same. -/
theorem placeAllBy_past_of_inside (hsize : (memorySize : Int) ≤ Word.greatest) {lines : List Line}
    (h : ∀ l ∈ lines, l.Placeable) (state : State)
    (hinside : ∀ e ∈ (placeAllBy exactPast memorySize state lines).1, outside e = false) :
    placeAllBy past memorySize state lines = placeAllBy exactPast memorySize state lines := by
  induction lines generalizing state with
  | nil => rfl
  | cons line rest ih =>
    rw [placeAllBy] at hinside
    have hline := placeBy_past_of_inside hsize (h line List.mem_cons_self) state
      (hinside _ List.mem_cons_self)
    have hrest := ih (fun l hl => h l (List.mem_cons_of_mem _ hl))
      (placeBy exactPast memorySize state line).2
      (fun e he => hinside e (List.mem_cons_of_mem _ he))
    rw [placeAllBy, placeAllBy, hline]
    dsimp only
    rw [hrest]

end Layout

/-! ## Resolving in both versions -/

namespace Resolution

/-- Inside memory, no number that a distance is computed from or that fits an operand is out of
range. -/
theorem exactValue_eq_value (symbols : SymbolTable) {next : Int} {size : Nat}
    (hnext : 0 ≤ next ∧ next ≤ Word.greatest) (hsize : size < 8) (relative : Bool)
    (name : String) :
    exactValue symbols relative next size name = value symbols relative next size name := by
  have hnextRange : Word.inRange next = true := by
    rw [Word.inRange, Word.least, Bool.and_eq_true, decide_eq_true_eq, decide_eq_true_eq]
    omega
  rw [exactValue, value]
  cases symbols.find? name with
  | none => rfl
  | some target =>
    dsimp only
    have hdistance : (Word.inRange next && Word.inRange (target.address - next) &&
        Word.fitsSigned (target.address - next) size) =
          Word.fitsSigned (target.address - next) size := by
      cases hfits : Word.fitsSigned (target.address - next) size with
      | false => rw [Bool.and_false]
      | true => rw [hnextRange, Word.inRange_of_fitsSigned hsize hfits]; rfl
    rw [hdistance]

/-- An instruction that is reported, or else lies inside memory, is resolved alike in both
versions. -/
theorem resolveBy_exactValue {line : Line}
    (hnarrow : ∀ c, line.body = .code c → ∀ o, c.operand = some o → o.size < 8)
    (hinside : outside line = false → ∀ c a, line.body = .code c → line.address = some a →
      0 ≤ a ∧ a + c.footprint ≤ Word.greatest) (symbols : SymbolTable) :
    resolveBy exactValue symbols line = resolve symbols line := by
  rw [← resolveBy_value, resolveBy, resolveBy]
  cases hbody : line.body with
  | code c =>
    cases haddress : line.address with
    | none => rfl
    | some a =>
      cases ho : c.operand with
      | none => simp only [ho]
      | some o =>
        obtain ⟨text, mode, label, v, size⟩ := o
        cases label with
        | none => simp only [ho]
        | some name =>
          simp only [ho]
          cases houtside : outside line with
          | true => rw [if_pos rfl, if_pos rfl]
          | false =>
            obtain ⟨hle, hend⟩ := hinside houtside c a hbody haddress
            have hvalue := exactValue_eq_value symbols ⟨by omega, hend⟩
              (hnarrow c hbody _ ho) c.relative name
            rw [if_neg Bool.false_ne_true, if_neg Bool.false_ne_true, Option.elim_some, hvalue]
  | _ => rfl

/-- A line that has no problem after it was resolved had none before, in either version. -/
theorem errors_of_resolveBy
    {valueOf : SymbolTable → Bool → Int → Nat → String → Except LineError Int}
    {symbols : SymbolTable} {line : Line} (h : (resolveBy valueOf symbols line).errors = []) :
    line.errors = [] := by
  rw [resolveBy] at h
  split at h
  · split at h
    · split at h
      · exact h
      · dsimp only at h
        split at h
        · exact h
        · simp [Line.report] at h
    · exact h
  · exact h

theorem outside_of_errors {line : Line} (h : line.errors = []) : outside line = false := by
  rw [outside, h]
  rfl

end Resolution

/-! ## Both versions of a program -/

namespace Layout

open Resolution (outside)

theorem Tracks.map_outside {memorySize : Nat} {ls es : List Line}
    (h : List.Forall₂ (Tracks memorySize) ls es) : ls.map outside = es.map outside := by
  induction h with
  | nil => rfl
  | cons hline _ ih => rw [List.map_cons, List.map_cons, hline.outside_eq, ih]

variable {memorySize : Nat} {lines : List Line}

/-- If no line is reported, both versions resolve the lines to the same program. -/
theorem map_resolve_of_inside (hsize : (memorySize : Int) ≤ Word.greatest)
    (h : ∀ l ∈ lines, l.Placeable)
    (hnarrow : ∀ l ∈ lines, ∀ c, l.body = .code c → ∀ o, c.operand = some o → o.size < 8)
    (hinside : ∀ e ∈ (placeAllBy exactPast memorySize {} lines).1, outside e = false) :
    let held := placeAll memorySize {} lines
    let exact := placeAllBy exactPast memorySize {} lines
    held.1.map (Resolution.resolve held.2.symbols) =
      exact.1.map (Resolution.resolveBy Resolution.exactValue exact.2.symbols) := by
  intro held exact
  have hsame : held = exact :=
    (placeAllBy_past memorySize {} lines).symm.trans (placeAllBy_past_of_inside hsize h {} hinside)
  have htracks : List.Forall₂ (Tracks memorySize) held.1 exact.1 := placeAll_tracks hsize h
  rw [hsame, List.forall₂_same] at htracks
  rw [hsame]
  apply List.map_congr_left
  intro l hl
  refine (Resolution.resolveBy_exactValue ?_ ?_ _).symm
  · -- placing keeps the width of the operand
    rw [← hsame] at hl
    obtain ⟨line, hline, state, rfl⟩ := mem_placeAll hl
    rw [body_place]
    exact hnarrow line hline
  · intro houtside c a hbody haddress
    obtain ⟨a', ha', hreport, -⟩ := (htracks l hl).exact_address (by rw [Line.isStored, hbody])
    obtain rfl := Option.some.inj (haddress.symm.trans ha')
    rw [Line.footprint, hbody, houtside] at hreport
    have hfits := not_not.1 (mt hreport.2 Bool.false_ne_true)
    exact ⟨hfits.1, hfits.2.trans hsize⟩

end Layout

/-- To lie outside memory is noticed by placing, not before. -/
theorem Line.Classified.inside {arch : Architecture} {l : Line} (h : l.Classified arch) :
    Resolution.outside l = false := by
  rw [← Bool.not_eq_true, Resolution.outside, List.any_eq_true]
  rintro ⟨e, he, hreport⟩
  have hpass := h.pass e he
  split at hreport
  · simp [LineError.pass] at hpass
  · simp at hreport

/-- What classification makes of a source line can be placed. -/
theorem Line.Classified.placeable {arch : Architecture} (harch : arch.Checked)
    (hranged : arch.Ranged) {l : Line} (h : l.Classified arch) : l.Placeable := by
  refine ⟨h.inside, ?_, ?_⟩
  · intro a ha
    obtain ⟨decode, text, hlocates, hdecode⟩ := h.address a ha
    have hrange := hranged decode hlocates text a hdecode
    rw [Word.inRange, Bool.and_eq_true, decide_eq_true_eq, decide_eq_true_eq] at hrange
    exact hrange.2
  · intro hstored
    have hopcode := harch.opcode_size
    have hword := harch.word_size
    rw [Line.isStored] at hstored
    split at hstored
    next c hbody =>
      obtain ⟨hsize, -, -⟩ := h.code c hbody
      rw [Line.footprint, hbody]
      show 0 < c.size + _
      omega
    next keyword size value hbody =>
      obtain ⟨d, hd, rfl, -⟩ := h.data keyword size value hbody
      have hdata := harch.data_size d hd
      rw [Line.footprint, hbody]
      show 0 < arch.dataWidth d
      rw [Architecture.dataWidth]
      split <;> omega
    next => simp at hstored

/-- The operand of a classified line is narrow. -/
theorem Line.Classified.operand_size {arch : Architecture} (harch : arch.Checked) {l : Line}
    (h : l.Classified arch) {c : CodeLine} (hbody : l.body = .code c) {o : SourceOperand}
    (ho : c.operand = some o) : o.size ≤ Draft.widest := by
  obtain ⟨-, -, hoperand⟩ := h.code c hbody
  obtain ⟨text, htext⟩ := hoperand o ho
  obtain ⟨position, -, hsize⟩ := Architecture.exists_mode_of_operandOf htext
  rw [hsize]
  exact harch.mode_size (arch.mode position) (List.get_mem _ _)

open Layout Resolution in
/-- For every accepted architecture whose origins and addresses are numbers, every memory that is
not larger than the greatest number and all source lines, the assembler does what the same passes do
without any bound on integers. An instruction or data is reported to lie outside memory exactly if
its bytes at its exact address do not all lie inside, and unless it is reported, it has its exact
address. The program is without problems in one version exactly if it is in the other, and then it
is the same program, with the same addresses, operand values and bytes. -/
theorem Architecture.placeAll_refines_exact {d : Draft} {arch : Architecture}
    (hbuild : d.build = .ok arch) (hranged : arch.Ranged) {memorySize : Nat}
    (hsize : (memorySize : Int) ≤ Word.greatest) (sources : List SourceLine) :
    let lines := sources.map arch.classify
    let held := placeAll memorySize {} lines
    let exact := placeAllBy exactPast memorySize {} lines
    let resolved := held.1.map (resolve held.2.symbols)
    let resolvedExactly := exact.1.map (resolveBy exactValue exact.2.symbols)
    List.Forall₂ (fun l e : Line => l.isStored = true → ∃ a : Int, e.address = some a ∧
        (outside l = true ↔ ¬ (0 ≤ a ∧ a + l.footprint ≤ memorySize)) ∧
        (outside l = false → l.address = some a)) held.1 exact.1 ∧
      ((∀ l ∈ resolved, l.errors = []) ↔ ∀ l ∈ resolvedExactly, l.errors = []) ∧
      ((∀ l ∈ resolved, l.errors = []) → resolved = resolvedExactly) := by
  intro lines held exact resolved resolvedExactly
  have harch := checked_of_build hbuild
  have hclassified : ∀ l ∈ lines, l.Classified arch := by
    intro l hl
    obtain ⟨s, -, rfl⟩ := List.mem_map.1 hl
    exact classified_classify s
  have hplaceable : ∀ l ∈ lines, l.Placeable :=
    fun l hl => (hclassified l hl).placeable harch hranged
  have hnarrow : ∀ l ∈ lines, ∀ c, l.body = .code c → ∀ o, c.operand = some o → o.size < 8 := by
    intro l hl c hbody o ho
    have hwidest : Draft.widest = 4 := rfl
    have hwidth := (hclassified l hl).operand_size harch hbody ho
    omega
  have htracks : List.Forall₂ (Tracks memorySize) held.1 exact.1 :=
    placeAll_tracks hsize hplaceable
  have hsame : (∀ e ∈ exact.1, outside e = false) → resolved = resolvedExactly :=
    map_resolve_of_inside hsize hplaceable hnarrow
  -- without problems no line is reported, and both walks report the same lines
  have hfree : (∀ l ∈ resolved, l.errors = []) → ∀ e ∈ exact.1, outside e = false := by
    intro hok
    have hheld : ∀ b ∈ held.1.map outside, b = false := by
      intro b hb
      obtain ⟨l, hl, rfl⟩ := List.mem_map.1 hb
      exact outside_of_errors (errors_of_resolve (hok _ (List.mem_map_of_mem hl)))
    rw [Tracks.map_outside htracks] at hheld
    intro e he
    exact hheld _ (List.mem_map_of_mem he)
  have hfreeExactly : (∀ l ∈ resolvedExactly, l.errors = []) →
      ∀ e ∈ exact.1, outside e = false := by
    intro hok e he
    exact outside_of_errors (errors_of_resolveBy (hok _ (List.mem_map_of_mem he)))
  refine ⟨htracks.imp fun l e h => h.exact_address, ⟨?_, ?_⟩, fun hok => hsame (hfree hok)⟩
  · intro hok
    rwa [← hsame (hfree hok)]
  · intro hok
    rwa [hsame (hfreeExactly hok)]

/-! ## Numbers beyond the range -/

theorem Edu1.ranged : architecture.Ranged := by
  -- origins and the addresses of data are decimal numbers
  rintro decode hlocates text a hdecode
  have hdecimal : decode = Numeral.decimal := by
    rcases hlocates with ⟨s, hs, horigin⟩ | hdata
    · rcases List.mem_cons.1 hs with rfl | hs
      · simp at horigin
      · obtain rfl := List.mem_singleton.1 hs
        exact (Option.some.inj horigin).symm
    · exact (Option.some.inj hdata).symm
  rw [hdecimal] at hdecode
  exact (Numeral.decimal_eq_ok_iff.1 hdecode).2

open Layout Resolution in
/-- An origin two below the end of the range: the third line has an address that is no number, and
the assembler holds it back at the greatest one. Neither version accepts the program. -/
theorem Architecture.placeAll_refines_exact_edu1 :
    let source := ".CODE 9223372036854775806\nMOVA #1\n.END\n"
    let lines := (SourceLine.split ";" source).map Edu1.architecture.classify
    let held := placeAll 16 {} lines
    let exact := placeAllBy exactPast 16 {} lines
    held.1.map (·.address) =
        [some 9223372036854775806, some 9223372036854775806, some 9223372036854775807] ∧
      exact.1.map (·.address) =
        [some 9223372036854775806, some 9223372036854775806, some 9223372036854775808] ∧
      (∃ l ∈ held.1.map (resolve held.2.symbols), l.errors ≠ []) ∧
      ∃ l ∈ exact.1.map (resolveBy exactValue exact.2.symbols), l.errors ≠ [] := by
  intro source lines held exact
  obtain ⟨-, hiff, -⟩ := placeAll_refines_exact Edu1.build_draft Edu1.ranged
    (show ((16 : Nat) : Int) ≤ Word.greatest by decide) (SourceLine.split ";" source)
  have hbad : ∃ l ∈ held.1.map (resolve held.2.symbols), l.errors ≠ [] := by decide
  refine ⟨by decide, by decide, hbad, ?_⟩
  by_contra hnone
  obtain ⟨l, hl, herrors⟩ := hbad
  apply herrors
  refine hiff.2 ?_ l hl
  intro e he
  by_contra hne
  exact hnone ⟨e, he, hne⟩

end Breadboard
