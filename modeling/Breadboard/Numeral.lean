import Breadboard.Word

/-!
# Reading numbers

An operand, a data value or an origin is written as text and read by the decoder that its table
names. Two decoders are shared by all tables: `decimal`, and `dollarHex`, which also takes a `$`
followed by hexadecimal digits. Neither ever wraps: a text whose value is not in the range of
numbers is refused like any other malformed text, and the refusal carries the whole text.
-/

namespace Breadboard

/-- Why the text of a value is refused. -/
inductive ValueError where
  | invalidNumber (text : String)
  | invalidRegister (text : String)
  deriving DecidableEq, Repr

/-- The text of the error. -/
def ValueError.message : ValueError → String
  | .invalidNumber text => s!"invalid numeric syntax `{text}`"
  | .invalidRegister text => s!"invalid register name `{text}`"

/-- How the text of a value is turned into a number. -/
abbrev Decoder := String → Except ValueError Int

namespace Numeral

/-- The integer that `cs` writes in base `base`: one optional sign, then at least one digit. The
result must lie in the range of numbers. -/
def int? (base : Nat) (cs : List Char) : Option Int :=
  let value : Option Int :=
    match cs with
    | '-' :: digits => (Text.value? base digits).map fun n => -(n : Int)
    | '+' :: digits => (Text.value? base digits).map fun n => (n : Int)
    | digits => (Text.value? base digits).map fun n => (n : Int)
  value.filter Word.inRange

/-- The count that `cs` writes in base ten: an optional plus sign, then at least one digit. The
result must fit eight bytes. -/
def count? (cs : List Char) : Option Nat :=
  let value :=
    match cs with
    | '+' :: digits => Text.value? 10 digits
    | digits => Text.value? 10 digits
  value.filter (· < Word.modulus 8)

/-- A decimal integer with an optional sign. -/
def decimal : Decoder := fun text =>
  match int? 10 text.toList with
  | some v => .ok v
  | none => .error (.invalidNumber text)

/-- A `$` followed by hexadecimal digits with an optional sign, or a decimal integer. -/
def dollarHex : Decoder := fun text =>
  match text.toList with
  | '$' :: digits =>
    match int? 16 digits with
    | some v => .ok v
    | none => .error (.invalidNumber text)
  | _ => decimal text

end Numeral

end Breadboard
