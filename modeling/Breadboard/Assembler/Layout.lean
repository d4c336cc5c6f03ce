import Breadboard.Assembler.Line

/-!
# Addresses and labels

Lines are placed one after another. A cursor starts at zero; an origin moves it, an instruction or a
data line is placed at it and moves it past its end, and a label line takes its address. Data with
an address of its own is placed there, and the cursor follows. Every label is bound where it is
first defined (`find?_define`); defining it again is an error of the later line. The cursor never
goes beyond the greatest number.
-/

namespace Breadboard

/-- A label, its address and the number of the line that defines it. -/
structure Symbol where
  name : String
  address : Int
  line : Nat
  deriving DecidableEq, Repr

/-- Labels in the order of their definitions. -/
abbrev SymbolTable := List Symbol

namespace SymbolTable

/-- The definition of a label. -/
def find? (t : SymbolTable) (name : String) : Option Symbol := List.find? (·.name = name) t

/-- Binds a label that is not bound yet. -/
def define (t : SymbolTable) (s : Symbol) : SymbolTable :=
  match t.find? s.name with
  | some _ => t
  | none => t ++ [s]

/-- A definition binds its label unless the label is bound already, and binds no other label. -/
theorem find?_define (t : SymbolTable) (s : Symbol) (name : String) :
    (t.define s).find? name = (t.find? name).or (if s.name = name then some s else none) := by
  unfold define
  split
  next found h =>
    by_cases hn : s.name = name
    · rw [← hn, h]; rfl
    · simp [hn]
  next h =>
    by_cases hn : s.name = name <;> simp [find?, List.find?_append, hn]

end SymbolTable

namespace Layout

/-- The state of a walk over the lines: where the next line goes and the labels bound so far. -/
structure State where
  cursor : Int := 0
  symbols : SymbolTable := []
  deriving DecidableEq, Repr

/-- The range of `size` bytes at `address` lies inside a memory of `memorySize` bytes. -/
def fits (address : Int) (size memorySize : Nat) : Bool :=
  0 ≤ address && address.toNat + size ≤ memorySize

/-- The address just past `size` bytes at `address`, or the greatest number if that is less. -/
def past (address : Int) (size : Nat) : Int := min (address + size) Word.greatest

/-- Binds the label of `line`, if it has one, to `address`. A label that is bound already is an
error of the line. -/
def bind (symbols : SymbolTable) (line : Line) (address : Int) : Line × SymbolTable :=
  match line.label with
  | none => (line, symbols)
  | some name =>
    match symbols.find? name with
    | some s => (line.report (.duplicateLabel name s.line), symbols)
    | none => (line, symbols.define { name, address, line := line.number })

/-- Places a line of `size` bytes at `address`. -/
def placeAt (memorySize : Nat) (state : State) (line : Line) (address : Int) : Line × State :=
  let size := line.footprint
  -- the label is bound even where the line does not fit
  let (line, symbols) := bind state.symbols { line with address := some address } address
  let line :=
    if fits address size memorySize then line else line.report (.addressOutOfRange address size)
  (line, { cursor := past address size, symbols })

/-- Places one line. -/
def place (memorySize : Nat) (state : State) (line : Line) : Line × State :=
  match line.body with
  | .directive _ => (line, { state with cursor := line.address.getD state.cursor })
  | .label =>
    let (line, symbols) :=
      bind state.symbols { line with address := some state.cursor } state.cursor
    (line, { state with symbols })
  | .data _ _ _ => placeAt memorySize state line (line.address.getD state.cursor)
  | .code _ => placeAt memorySize state line state.cursor
  | .unknown => (line, state)

/-- Places lines in order. -/
def placeAll (memorySize : Nat) (state : State) : List Line → List Line × State
  | [] => ([], state)
  | line :: rest =>
    let (line, state) := place memorySize state line
    let (rest, state) := placeAll memorySize state rest
    (line :: rest, state)

/-- Placing changes addresses and problems but not the number of lines. -/
@[simp] theorem length_placeAll (memorySize : Nat) (state : State) (lines : List Line) :
    (placeAll memorySize state lines).1.length = lines.length := by
  induction lines generalizing state with
  | nil => rfl
  | cons line rest ih => simp [placeAll, ih]

end Layout

end Breadboard
