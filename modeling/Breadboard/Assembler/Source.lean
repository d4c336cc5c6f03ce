import Breadboard.Text.Lines

/-!
# Source lines

Source text is read line by line. A line loses its comment and the blanks at its end and is divided
into words. Lines without a word are dropped, but every line keeps its number in the whole text,
where lines are counted from one (`number_ofText?`).
-/

namespace Breadboard

/-- A line of source text that has at least one word. -/
structure SourceLine where
  number : Nat
  /-- The text without its comment and without blanks at its end. -/
  text : String
  words : List String
  deriving DecidableEq, Repr

namespace SourceLine

/-- The line up to the first occurrence of the comment marker. An empty marker disables comments. -/
def stripComment (marker line : String) : String :=
  String.ofList (Text.before marker.toList line.toList)

/-- The line with a number, unless it has no word. -/
def ofText? (marker : List Char) (number : Nat) (line : List Char) : Option SourceLine :=
  let text := Text.trimEnd (Text.before marker line)
  match Text.words text with
  | [] => none
  | words => some { number, text := String.ofList text, words := words.map String.ofList }

/-- The lines of `source` that have a word. -/
def split (marker source : String) : List SourceLine :=
  (Text.lines source.toList).zipIdx.filterMap fun (line, i) => ofText? marker.toList (i + 1) line

theorem number_ofText? {marker line : List Char} {number : Nat} {l : SourceLine}
    (h : ofText? marker number line = some l) : l.number = number := by
  simp only [ofText?] at h
  split at h
  · simp at h
  · simp only [Option.some.injEq] at h
    rw [← h]

end SourceLine

end Breadboard
