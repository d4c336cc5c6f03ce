/-!
# ASCII letter case and characters

Mnemonics, section names and register names are compared without regard to the case of the letters
`a` to `z`; every other character stands only for itself. `upper` is the normal form under which two
names are the same name.
-/

namespace Breadboard.Text

/-- The text with the letters `a` to `z` in upper case and every other character unchanged. -/
def upper (s : String) : String :=
  String.ofList (s.toList.map Char.toUpper)

/-- Two texts are the same name when they differ at most in the case of ASCII letters. -/
def sameName (s t : String) : Bool :=
  upper s == upper t

/-- An ASCII letter. -/
def isLetter (c : Char) : Bool :=
  ('a' ≤ c && c ≤ 'z') || ('A' ≤ c && c ≤ 'Z')

/-- A decimal digit `0` to `9`. -/
def isDecimalDigit (c : Char) : Bool :=
  '0' ≤ c && c ≤ '9'

/-- A hexadecimal digit of either case. -/
def isHexDigit (c : Char) : Bool :=
  isDecimalDigit c || ('a' ≤ c && c ≤ 'f') || ('A' ≤ c && c ≤ 'F')

end Breadboard.Text
