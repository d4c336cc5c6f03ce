import Breadboard.Assembler.Layout

/-!
# Resolving labels

An operand that names a label is encoded as the address of the label or, in a relative instruction,
as the distance from the end of the instruction to it. Either must fit the operand; a distance is
signed and an address is not. Instructions that lie outside memory are left alone.
-/

namespace Breadboard.Resolution

/-- The value of an operand of `size` bytes that names the label `name`, in an instruction that ends
at `next`. -/
def value (symbols : SymbolTable) (relative : Bool) (next : Int) (size : Nat) (name : String) :
    Except LineError Int :=
  match symbols.find? name with
  | none => .error (.unknownLabel name)
  | some target =>
    if relative then
      let distance := target.address - next
      if Word.inRange next && Word.inRange distance && Word.fitsSigned distance size then
        .ok distance
      else .error (.branchOutOfRange name)
    else if Word.fitsUnsigned target.address size then .ok target.address
    else .error (.labelTooWide name size)

/-- The line was found to lie outside memory. -/
def outside (line : Line) : Bool :=
  line.errors.any fun
    | .addressOutOfRange _ _ => true
    | _ => false

/-- Resolves the label that the operand of a line names, if it names one. -/
def resolve (symbols : SymbolTable) (line : Line) : Line :=
  match line.body, line.address with
  | .code code, some address =>
    match code.operand with
    | some ({ label := some name, .. } : SourceOperand) =>
      if outside line then line
      else
        let next := address + code.footprint
        match value symbols code.relative next (code.operand.elim 0 (·.size)) name with
        | .ok v =>
          { line with
            body := .code { code with operand := code.operand.map fun o => { o with value := v } } }
        | .error e => line.report e
    | _ => line
  | _, _ => line

end Breadboard.Resolution
