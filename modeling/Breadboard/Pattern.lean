import Breadboard.Pattern.Shape

/-!
# Operand patterns

The way an operand may be written is a list of alternatives, each a sequence of pieces. A piece is
literal text, or it captures a number, a label or one of several words. A text is matched from its
front, every piece taking the longest stretch that fits it and never giving any of it back; the
first alternative that takes the whole text wins. What a piece takes and what it leaves make up the
text (`Piece.split?_append`).
-/

namespace Breadboard

/-- One part of an alternative. -/
inductive Piece where
  | literal (text : String)
  | number (shape : NumberShape)
  | label
  | choice (words : List String)
  deriving DecidableEq, Repr

/-- All pieces but literal text capture what they take. -/
def Piece.captures : Piece → Bool
  | .literal _ => false
  | _ => true

/-- The word in front of `cs`, and what follows it. -/
def Piece.splitWord? (word : String) (cs : List Char) : Option (List Char × List Char) :=
  if word.toList.isPrefixOf cs then some (word.toList, cs.drop word.toList.length) else none

/-- The longer of two words; the first if they are of one length. -/
def Piece.longer (v w : String) : String :=
  if v.toList.length < w.toList.length then w else v

/-- The longest nonempty word of `words` that `cs` begins with, or the empty text. -/
def Piece.longestWord (words : List String) (cs : List Char) : String :=
  (words.filter fun w => w.toList.isPrefixOf cs).foldl Piece.longer ""

/-- What the piece takes from the front of `cs`, and what it leaves. Labels have the shape
`labels`. -/
def Piece.split? (labels : LabelShape) : Piece → List Char → Option (List Char × List Char)
  | .literal text, cs => splitWord? text cs
  | .number shape, cs => shape.split? cs
  | .label, cs => labels.split? cs
  | .choice words, cs =>
    let word := longestWord words cs
    if word = "" then none else splitWord? word cs

/-- One way to write an operand: its pieces in order. -/
abbrev Alternative := List Piece

/-- Matches the pieces one after another against all of `cs`. The result is what the last capture
took, or `captured` if there is none. -/
def Alternative.matchFrom? (labels : LabelShape) (captured : List Char) :
    Alternative → List Char → Option (List Char)
  | [], cs => if cs = [] then some captured else none
  | piece :: pieces, cs =>
    (piece.split? labels cs).bind fun (taken, rest) =>
      matchFrom? labels (if piece.captures then taken else captured) pieces rest

/-- Matches all of `cs` and gives the text of the last capture, empty if there is none. -/
def Alternative.match? (alternative : Alternative) (labels : LabelShape) (cs : List Char) :
    Option (List Char) :=
  alternative.matchFrom? labels [] cs

/-- Some piece of the alternative captures. -/
def Alternative.captures (alternative : Alternative) : Bool :=
  alternative.any Piece.captures

/-- The alternatives of an operand, in the order in which they are tried. -/
abbrev Pattern := List Alternative

/-- A text that a pattern accepts: what was captured, and which alternative matched. -/
structure Pattern.Found where
  captured : String
  alternative : Nat
  deriving DecidableEq, Repr

/-- The first alternative that matches all of `text`, counting from `index`. -/
def Pattern.matchFrom? (labels : LabelShape) (text : List Char) (index : Nat) :
    Pattern → Option Pattern.Found
  | [] => none
  | alternative :: rest =>
    match Alternative.match? alternative labels text with
    | some captured => some ⟨String.ofList captured, index⟩
    | none => matchFrom? labels text (index + 1) rest

/-- The first alternative that matches all of `text`. -/
def Pattern.match? (pattern : Pattern) (labels : LabelShape) (text : String) :
    Option Pattern.Found :=
  pattern.matchFrom? labels text.toList 0

/-- How many alternatives capture. With more than one, what was captured may be a value or a
label. -/
def Pattern.capturing (pattern : Pattern) : Nat :=
  pattern.countP Alternative.captures

/-- A pattern that accepts `word` alone. -/
def Pattern.keyword (word : String) : Pattern := [[.literal word]]

namespace Piece

theorem splitWord?_append {word : String} {cs taken rest : List Char}
    (h : splitWord? word cs = some (taken, rest)) : taken ++ rest = cs := by
  simp only [splitWord?] at h
  split at h
  next hp =>
    obtain ⟨tail, ht⟩ := List.isPrefixOf_iff_prefix.1 hp
    simp only [Option.some.injEq, Prod.mk.injEq] at h
    rw [← h.1, ← h.2, ← ht, List.drop_left]
  next => simp at h

/-- What a piece takes and what it leaves make up the text. -/
theorem split?_append {labels : LabelShape} {piece : Piece} {cs taken rest : List Char}
    (h : piece.split? labels cs = some (taken, rest)) : taken ++ rest = cs := by
  cases piece with
  | literal text => exact splitWord?_append h
  | number shape => exact NumberShape.split?_append h
  | label => exact LabelShape.split?_append h
  | choice words =>
    simp only [split?] at h
    split at h
    · simp at h
    · exact splitWord?_append h

end Piece

end Breadboard
