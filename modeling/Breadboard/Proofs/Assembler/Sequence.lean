import Breadboard.Proofs.Assembler.Loading

/-!
# Instructions one behind another

Instruction lines without labels are placed one behind another from the cursor on, and none of them
gets a problem as long as they fit into memory (`Layout.placeAll_of_plain`). There is nothing to
resolve in them (`Resolution.resolve_of_plain`), and what they leave in memory is one block: their
bytes in order (`Line.foldl_imprint_sequence`).
-/

namespace Breadboard

/-- An instruction line without a problem that neither defines a label nor names one. -/
structure Line.Plain (l : Line) : Prop where
  code : ∃ c, l.body = .code c ∧ c.opcode.isSome = true ∧ ∀ o, c.operand = some o → o.label = none
  label : l.label = none
  errors : l.errors = []

/-- The lines at addresses one behind another, from `start` on. -/
def Line.sequence (start : Nat) : List Line → List Line
  | [] => []
  | l :: rest => { l with address := some (start : Int) } :: sequence (start + l.footprint) rest

/-- The number of bytes that the lines occupy. -/
def Line.extent (lines : List Line) : Nat := (lines.map footprint).sum

theorem Line.extent_cons (l : Line) (rest : List Line) :
    extent (l :: rest) = l.footprint + extent rest := by
  rw [extent, extent, List.map_cons, List.sum_cons]

theorem Line.Plain.withAddress {l : Line} (h : l.Plain) (address : Option Int) :
    Line.Plain { l with address } := ⟨h.code, h.label, h.errors⟩

/-- Giving plain lines addresses keeps them plain. -/
theorem Line.plain_of_mem_sequence {lines : List Line} (h : ∀ l ∈ lines, l.Plain) {start : Nat}
    {l : Line} (hl : l ∈ sequence start lines) : l.Plain := by
  induction lines generalizing start with
  | nil => simp [sequence] at hl
  | cons k rest ih =>
    rw [sequence, List.mem_cons] at hl
    rcases hl with rfl | hl
    · exact (h k List.mem_cons_self).withAddress _
    · exact ih (fun j hj => h j (List.mem_cons_of_mem _ hj)) hl

/-! ## Placing -/

namespace Layout

/-- A plain line that fits into memory is placed at the cursor. -/
theorem place_of_plain {memorySize start : Nat} {symbols : SymbolTable} {l : Line} (h : l.Plain)
    (hfit : start + l.footprint ≤ memorySize) (hsize : (memorySize : Int) ≤ Word.greatest) :
    place memorySize { cursor := start, symbols } l =
      ({ l with address := some (start : Int) },
        { cursor := ((start + l.footprint : Nat) : Int), symbols }) := by
  obtain ⟨c, hbody, -, -⟩ := h.code
  have hfits : fits (start : Int) l.footprint memorySize = true := by
    simp only [fits, Bool.and_eq_true, decide_eq_true_eq]
    exact ⟨by omega, by simpa using hfit⟩
  -- the cursor is not held back at the greatest number, since memory ends before it
  have hpast : past (start : Int) l.footprint = ((start + l.footprint : Nat) : Int) := by
    rw [past]
    omega
  rw [place, hbody]
  simp only [placeAt, bind, h.label, hfits, hpast, if_true]
  rw [hbody]

/-- Plain lines that fit into memory are placed one behind another. -/
theorem placeAll_of_plain {memorySize start : Nat} {symbols : SymbolTable} {lines : List Line}
    (h : ∀ l ∈ lines, l.Plain) (hfit : start + Line.extent lines ≤ memorySize)
    (hsize : (memorySize : Int) ≤ Word.greatest) :
    (placeAll memorySize { cursor := start, symbols } lines).1 = Line.sequence start lines := by
  induction lines generalizing start with
  | nil => rfl
  | cons l rest ih =>
    rw [Line.extent_cons] at hfit
    -- the line is placed at the cursor and moves it to its own end
    have hplace : place memorySize { cursor := start, symbols } l = _ :=
      place_of_plain (h l List.mem_cons_self) (by omega) hsize
    have hrest := ih (fun k hk => h k (List.mem_cons_of_mem _ hk))
      (show start + l.footprint + Line.extent rest ≤ memorySize by omega)
    rw [placeAll, hplace]
    dsimp only
    rw [hrest, Line.sequence]

end Layout

/-! ## Resolving -/

/-- A plain line names no label, and is left alone. -/
theorem Resolution.resolve_of_plain (symbols : SymbolTable) {l : Line} (h : l.Plain) :
    resolve symbols l = l := by
  obtain ⟨c, hbody, -, hlabel⟩ := h.code
  apply resolve_of_named?
  rw [Line.named?, hbody]
  exact Option.bind_eq_none_iff.2 hlabel

/-! ## What is left in memory -/

namespace Line

theorem Plain.isStored {l : Line} (h : l.Plain) : l.isStored = true := by
  obtain ⟨c, hbody, -⟩ := h.code
  rw [Line.isStored, hbody]

theorem Plain.length_bytes {l : Line} (h : l.Plain) : l.bytes.length = l.footprint := by
  obtain ⟨c, hbody, hopcode, -⟩ := h.code
  apply Line.length_bytes
  rintro c' hbody'
  obtain rfl := LineBody.code.inj (hbody.symm.trans hbody')
  exact hopcode

/-- Plain lines occupy as many bytes as they have. -/
theorem extent_eq_length {lines : List Line} (h : ∀ l ∈ lines, l.Plain) :
    extent lines = (lines.flatMap bytes).length := by
  induction lines with
  | nil => rfl
  | cons l rest ih =>
    rw [extent_cons, ih fun k hk => h k (List.mem_cons_of_mem _ hk), List.flatMap_cons,
      List.length_append, (h l List.mem_cons_self).length_bytes]

theorem filter_isStored_sequence {lines : List Line} (h : ∀ l ∈ lines, l.Plain) (start : Nat) :
    (sequence start lines).filter Line.isStored = sequence start lines :=
  List.filter_eq_self.2 fun _ hl => (plain_of_mem_sequence h hl).isStored

/-- Lines one behind another leave one block of bytes. -/
theorem foldl_imprint_sequence {lines : List Line} (h : ∀ l ∈ lines, l.Plain) (start : Nat)
    (m : Memory) : (sequence start lines).foldl imprint m =
      m.overlay start (lines.flatMap bytes) := by
  induction lines generalizing start m with
  | nil => rfl
  | cons l rest ih =>
    -- the address of a line does not matter to its bytes
    have hbytes : ({ l with address := some (start : Int) } : Line).bytes = l.bytes := rfl
    rw [sequence, List.foldl_cons, imprint_of_address rfl, hbytes,
      ih (fun k hk => h k (List.mem_cons_of_mem _ hk)), List.flatMap_cons, Memory.overlay_append,
      (h l List.mem_cons_self).length_bytes]

end Line

end Breadboard
