import Breadboard.Architecture
import Breadboard.Assembler.Line
import Breadboard.Assembler.Source

/-!
# What a source line is

A source line is compared with the tables of an architecture in this order: section directive,
instruction, data, label on a line of its own. The first that fits decides. An instruction or a data
keyword may stand in the second place, and then the word before it is a label; a colon at the end of
that word does not belong to the label. Problems are noted on the line and do not change what it is.
-/

namespace Breadboard

/-! ## Words of a line -/

/-- A keyword found among the first two words of a line, with what it stands for. -/
structure Keyed (α : Type) where
  /-- The word before the keyword. -/
  before : Option String
  keyword : String
  meaning : α
  /-- The words after the keyword. -/
  arguments : List String

/-- The first of the first two words that means something. -/
def Keyed.find? {α : Type} (meaning : String → Option α) : List String → Option (Keyed α)
  | [] => none
  | first :: rest =>
    match meaning first with
    | some m => some ⟨none, first, m, rest⟩
    | none =>
      match rest with
      | [] => none
      | second :: rest => (meaning second).map fun m => ⟨some first, second, m, rest⟩

/-- The word without a colon at its end, if it ends with one. -/
def dropColon? (word : String) : Option String :=
  if word.toList.getLast? = some ':' then some (String.ofList word.toList.dropLast) else none

/-- The label that a word in front of a keyword defines: a colon at its end does not belong to
it. -/
def labelOfWord (word : String) : String := (dropColon? word).getD word

/-- The complaint about the first of the words that nothing asks for. -/
def complainOf : List String → List LineError
  | [] => []
  | extra :: _ => [.unexpectedToken extra]

/-- The value that a decoder reads from `text`, or the complaint about it. -/
def decoded (decode : Decoder) (text : String) : Except LineError Int :=
  match decode text with
  | .ok v => .ok v
  | .error e => .error (.value e)

namespace Architecture

variable (arch : Architecture)

/-! ## Operands and opcodes -/

/-- Reads an operand in the first addressing mode that accepts it. Where that mode captures in more
than one alternative, what was captured is a label if it has the shape of one; a relative
instruction encodes labels in the offset mode. -/
def operandOf (text : String) (relative : Bool) : Except LineError SourceOperand :=
  match arch.modeOf? text with
  | none => .error (.operandNotRecognized text)
  | some (position, found) =>
    let mode := arch.mode position
    if 1 < mode.pattern.capturing && arch.rules.labels.accepts found.captured.toList then
      let encoded := if relative then arch.offsetMode.getD position else position
      .ok
        { text, mode := encoded.val, label := some found.captured
          size := (arch.mode encoded).size }
    else
      (decoded mode.decode found.captured).map fun value =>
        { text, mode := position.val, value, size := mode.size }

/-- The opcode of the first of `instructions` whose addressing mode is that of the operand. -/
def selectOpcode? {modes : Nat} (instructions : List (Instruction modes))
    (operand : Option SourceOperand) : Option Int :=
  (instructions.find? fun i => i.mode.map (·.val) = operand.map (·.mode)).map (·.opcode)

/-! ## Looking words up -/

/-- The section with a name, in any case. -/
def section? (word : String) : Option Section :=
  arch.sections.find? fun s => Text.sameName s.name word

/-- The instructions of a mnemonic, if there are any. -/
def mnemonic? (word : String) : Option (List (Instruction arch.modes.length)) :=
  match arch.named word with
  | [] => none
  | instructions => some instructions

/-- The data directive that accepts a word in upper case. -/
def dataDirective? (word : String) : Option DataDirective :=
  arch.data.find? fun d => (d.pattern.match? arch.rules.labels (Text.upper word)).isSome

/-! ## Kinds of lines -/

/-- A section directive and the words after it. -/
def directiveLine (line : Line) (s : Section) (arguments : List String) : Line :=
  let line := { line with body := .directive s.name }
  match s.origin, arguments with
  | some decode, text :: extra =>
    let line := { line with argument := text }
    let line := match decoded decode text with
      | .ok origin => { line with address := some origin }
      | .error e => line.report e
    { line with errors := line.errors ++ complainOf extra }
  | some _, [] => line.report (.operandMissing s.name)
  | none, _ :: _ => line.report (.noOperandExpected s.name)
  | none, [] => line

/-- An instruction after its operand was read: the opcode is looked up. -/
def encodedLine {modes : Nat} (line : Line) (code : CodeLine)
    (instructions : List (Instruction modes)) : Line :=
  match selectOpcode? instructions code.operand with
  | some opcode => { line with body := .code { code with opcode := some opcode } }
  | none => { line with body := .code code }.report (.operandMismatch code.mnemonic)

/-- An instruction and the words around it. -/
def codeLine (line : Line) (k : Keyed (List (Instruction arch.modes.length))) : Line :=
  -- the first instruction of that name decides how a label is encoded
  let code : CodeLine :=
    { mnemonic := Text.upper k.keyword
      size := arch.sizes.opcode
      relative := k.meaning.head?.any (·.relative) }
  let line := { line with label := k.before.map labelOfWord }
  match k.arguments with
  | [] => encodedLine line code k.meaning
  | text :: extra =>
    let line := { line with argument := text, errors := line.errors ++ complainOf extra }
    if arch.rules.separator.any text.toList.contains then
      { line with body := .code code }.report (.multipleOperands code.mnemonic)
    else
      match arch.operandOf text code.relative with
      | .error e => { line with body := .code code }.report e
      | .ok operand => encodedLine line { code with operand := some operand } k.meaning

/-- Data of the form `ADDRESS [VALUE]`: a word of memory at the address. -/
def addressedDataLine (line : Line) (k : Keyed DataDirective) : Line :=
  let (address, addressErrors) := match decoded arch.dataAddressOf (Text.upper k.keyword) with
    | .ok address => (some address, [])
    | .error e => (none, [e])
  let (value, valueErrors) := match k.arguments with
    | [] => (0, [])
    | text :: _ =>
      match decoded k.meaning.decode text with
      | .ok value => (value, [])
      | .error e => (0, [e])
  { line with
    body := .data "" arch.sizes.word value
    address
    argument := k.arguments.head?.getD ""
    errors := line.errors ++ complainOf (k.arguments.drop 1) ++ addressErrors ++ valueErrors }

/-- Data after a keyword, as wide as the keyword says. -/
def keywordDataLine (line : Line) (k : Keyed DataDirective) : Line :=
  let keyword := Text.upper k.keyword
  let (value, errors) := match k.arguments with
    | [] => (0, [.operandMissing keyword])
    | text :: _ =>
      match decoded k.meaning.decode text with
      | .ok value => (value, [])
      | .error e => (0, [e])
  { line with
    body := .data keyword k.meaning.size value
    argument := k.arguments.head?.getD ""
    errors := line.errors ++ complainOf (k.arguments.drop 1) ++ errors }

/-- A data declaration and the words around it. -/
def dataLine (line : Line) (k : Keyed DataDirective) : Line :=
  let line := { line with label := k.before.map labelOfWord }
  if arch.rules.dataAddress.isSome then arch.addressedDataLine line k else keywordDataLine line k

/-- The label that is all of a line. -/
def labelOnly? : List String → Option String
  | [word] => (dropColon? word).filter fun name => arch.rules.labels.accepts name.toList
  | _ => none

/-- What a source line is. -/
def classify (source : SourceLine) : Line :=
  let line : Line := { number := source.number, text := source.text }
  let first := source.words.head?.getD ""
  match source.words.head?.bind arch.section? with
  | some s => directiveLine line s (source.words.drop 1)
  | none =>
    match Keyed.find? arch.mnemonic? source.words with
    | some k => arch.codeLine line k
    | none =>
      match Keyed.find? arch.dataDirective? source.words with
      | some k => arch.dataLine line k
      | none =>
        match arch.labelOnly? source.words with
        | some name => { line with body := .label, label := some name }
        | none => line.report (.invalidMnemonic first)

end Architecture

end Breadboard
