import Breadboard.Text.Blank

/-!
# Lines of a text

A line ends at a line feed, and a carriage return just before that line feed belongs to the line
end. A text that ends with a line feed has no further empty line after it. `before` cuts a line at
the first occurrence of a marker.
-/

namespace Breadboard.Text

/-- The text without one carriage return at its end, if it has one there. -/
def dropCarriageReturn (cs : List Char) : List Char :=
  if cs.getLast? = some '\r' then cs.dropLast else cs

/-- The lines of `cs`, without their line ends. What follows the last line feed is a line too,
unless it is empty; it has no line end, so a carriage return there stays. -/
def lines (cs : List Char) : List (List Char) :=
  let parts := splitWhere (· == '\n') cs
  parts.dropLast.map dropCarriageReturn ++ (parts.getLast?.toList.filter (· ≠ []))

/-- The part of `cs` in front of the first occurrence of `marker`, and all of `cs` if there is none.
An empty marker occurs nowhere. -/
def before (marker : List Char) : List Char → List Char
  | [] => []
  | c :: rest =>
    if marker ≠ [] && marker.isPrefixOf (c :: rest) then [] else c :: before marker rest

end Breadboard.Text
