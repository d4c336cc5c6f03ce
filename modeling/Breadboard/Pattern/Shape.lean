import Breadboard.Text.Ascii

/-!
# Shapes of labels and numbers

A label or a number is recognised at the front of a text by the characters that it may consist of.
Each `split?` takes the longest stretch that has the shape and gives back what follows it, so
nothing of the text is lost (`LabelShape.split?_append`, `NumberShape.split?_append`).
-/

namespace Breadboard

/-- A class of ASCII characters. -/
inductive CharClass where
  | alphabetic
  | alphanumeric
  | word
  | digit
  | hexDigit
  deriving DecidableEq, Repr

/-- Whether `c` belongs to the class. A word character is a letter, a digit or `_`. -/
def CharClass.accepts : CharClass → Char → Bool
  | .alphabetic, c => Text.isLetter c
  | .alphanumeric, c => Text.isLetter c || Text.isDecimalDigit c
  | .word, c => Text.isLetter c || Text.isDecimalDigit c || c == '_'
  | .digit, c => Text.isDecimalDigit c
  | .hexDigit, c => Text.isHexDigit c

/-- Label names: one character of the class `first`, then any number of the class `rest`. -/
structure LabelShape where
  first : CharClass := .alphabetic
  rest : CharClass := .alphanumeric
  deriving DecidableEq, Repr

/-- The longest label in front of `cs`, and what follows it. -/
def LabelShape.split? (shape : LabelShape) : List Char → Option (List Char × List Char)
  | [] => none
  | c :: cs =>
    if shape.first.accepts c then
      some (c :: cs.takeWhile shape.rest.accepts, cs.dropWhile shape.rest.accepts)
    else none

/-- All of `cs` is a label. -/
def LabelShape.accepts (shape : LabelShape) : List Char → Bool
  | [] => false
  | c :: cs => shape.first.accepts c && cs.all shape.rest.accepts

/-- Number literals: a minus sign if `signed` allows one, the text `lead`, then between `least` and
`most` characters of the class `digits`. -/
structure NumberShape where
  signed : Bool := false
  lead : String := ""
  digits : CharClass
  least : Nat := 1
  most : Option Nat := none
  deriving DecidableEq, Repr

/-- The minus sign in front of `cs`, if the shape allows one, and what follows it. -/
def NumberShape.splitSign (shape : NumberShape) : List Char → List Char × List Char
  | '-' :: cs => if shape.signed then (['-'], cs) else ([], '-' :: cs)
  | cs => ([], cs)

/-- The digits in front of `cs`, at most `most` of them, and what follows them. -/
def NumberShape.splitDigits (shape : NumberShape) (cs : List Char) : List Char × List Char :=
  let digits := cs.takeWhile shape.digits.accepts
  let count := match shape.most with
    | some most => min most digits.length
    | none => digits.length
  cs.splitAt count

/-- The longest number in front of `cs`, and what follows it. -/
def NumberShape.split? (shape : NumberShape) (cs : List Char) : Option (List Char × List Char) :=
  let (sign, unsigned) := shape.splitSign cs
  if shape.lead.toList.isPrefixOf unsigned then
    let (digits, rest) := shape.splitDigits (unsigned.drop shape.lead.toList.length)
    if shape.least ≤ digits.length then some (sign ++ shape.lead.toList ++ digits, rest) else none
  else none

/-- A decimal number of one or more digits. -/
def NumberShape.decimal : NumberShape := { digits := .digit }

/-- A hexadecimal number of `least` to `most` digits after the text `lead`. -/
def NumberShape.hex (lead : String) (least most : Nat) : NumberShape :=
  { lead, digits := .hexDigit, least, most := some most }

namespace LabelShape

/-- The label and what follows it make up the text. -/
theorem split?_append {shape : LabelShape} {cs label rest : List Char}
    (h : shape.split? cs = some (label, rest)) : label ++ rest = cs := by
  cases cs with
  | nil => simp [split?] at h
  | cons c cs =>
    simp only [split?] at h
    split at h
    · simp only [Option.some.injEq, Prod.mk.injEq] at h
      rw [← h.1, ← h.2, List.cons_append, List.takeWhile_append_dropWhile]
    · simp at h

end LabelShape

namespace NumberShape

theorem splitSign_append (shape : NumberShape) (cs : List Char) :
    (shape.splitSign cs).1 ++ (shape.splitSign cs).2 = cs := by
  unfold splitSign
  split
  · split <;> rfl
  · rfl

theorem splitDigits_append (shape : NumberShape) (cs : List Char) :
    (shape.splitDigits cs).1 ++ (shape.splitDigits cs).2 = cs := by
  simp [splitDigits, List.splitAt_eq]

/-- The number and what follows it make up the text. -/
theorem split?_append {shape : NumberShape} {cs number rest : List Char}
    (h : shape.split? cs = some (number, rest)) : number ++ rest = cs := by
  have hs := shape.splitSign_append cs
  simp only [split?] at h
  split at h
  next hl =>
    have hd := shape.splitDigits_append ((shape.splitSign cs).2.drop shape.lead.toList.length)
    split at h
    · simp only [Option.some.injEq, Prod.mk.injEq] at h
      obtain ⟨tail, ht⟩ := List.isPrefixOf_iff_prefix.1 hl
      rw [← h.1, ← h.2, List.append_assoc, hd, List.append_assoc, ← ht, List.drop_left, ht,
        hs]
    · simp at h
  next => simp at h

end NumberShape

end Breadboard
