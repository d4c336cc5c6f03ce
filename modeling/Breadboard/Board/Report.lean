import Breadboard.Board

/-!
# Reports

Texts for the reader: the listing of a program and the state of a board.
-/

namespace Breadboard.Report

/-- The text with as many blanks after it as bring it to `width` characters. -/
def padRight (width : Nat) (text : String) : String :=
  text ++ String.ofList (List.replicate (width - text.length) ' ')

/-- The text with as many blanks before it as bring it to `width` characters. -/
def padLeft (width : Nat) (text : String) : String :=
  String.ofList (List.replicate (width - text.length) ' ') ++ text

/-- The row of one line: its address, its bytes, its number and its text. -/
def row (addressSize : Nat) (l : Line) : String :=
  let address := match l.address with
    | some address => Word.hex address addressSize
    | none => String.ofList (List.replicate (2 * addressSize) ' ')
  let bytes := " ".intercalate (l.bytes.map fun b => Word.hex b.toNat 1)
  let text := String.ofList (Text.trim l.text.toList)
  s!"{address}: {padRight 12 bytes} {padLeft 3 (toString l.number)}  {text}\n"

/-- One row for every line of the program. -/
def listing (p : Program) (addressSize : Nat) : String :=
  String.join (p.lines.map (row addressSize))

/-- A register in base sixteen, and in base ten too if it is signed. -/
def registerRow (r : RegisterCell) : String :=
  let decimal := match r.format with
    | .signed => s!" {Word.decimal r.value r.size}"
    | .unsigned => ""
  s!"{padRight 4 r.name} {Word.hex r.value r.size}{decimal}\n"

/-- All indicators in one row, if there are any. -/
def indicatorRow (indicators : List IndicatorCell) : String :=
  match indicators with
  | [] => ""
  | _ =>
    " ".intercalate (indicators.map fun i => i.name ++ if i.value then "=1" else "=0") ++ "\n"

/-- The registers, the indicators and the devices of a board. -/
def state (b : Board) : String :=
  let cpu := b.machine.cpu
  String.join (cpu.registers.map registerRow) ++ indicatorRow cpu.indicators ++
    String.join (b.machine.devices.map fun p => s!"{Panel.deviceName}: {p.render}\n")

end Breadboard.Report
