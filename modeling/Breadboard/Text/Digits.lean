import Breadboard.Text.Ascii

/-!
# Positional digits

Numbers are written in base ten or sixteen, with upper-case digits and no more digits than needed;
`padded` fills a text up with zeros. `value?` reads digits of either case back.
-/

namespace Breadboard.Text

/-- The shortest way to write `n` in base ten. -/
def decimalDigits (n : Nat) : List Char :=
  Nat.toDigits 10 n

/-- The shortest way to write `n` in base sixteen, with upper-case letters. -/
def hexDigits (n : Nat) : List Char :=
  (Nat.toDigits 16 n).map Char.toUpper

/-- The text with as many `0` in front as bring it to `count` characters; a longer text is
unchanged. -/
def padded (count : Nat) (cs : List Char) : List Char :=
  List.replicate (count - cs.length) '0' ++ cs

/-- An integer in base ten, with a minus sign in front of a negative one. -/
def decimalInt (v : Int) : List Char :=
  if v < 0 then '-' :: decimalDigits v.natAbs else decimalDigits v.natAbs

/-- The number that a digit of either case stands for in base `base`, which is at most sixteen. -/
def digitValue? (base : Nat) (c : Char) : Option Nat :=
  let value :=
    if isDecimalDigit c then c.toNat - '0'.toNat
    else if 'a' ≤ c && c ≤ 'f' then c.toNat - 'a'.toNat + 10
    else if 'A' ≤ c && c ≤ 'F' then c.toNat - 'A'.toNat + 10
    else base
  if value < base then some value else none

/-- The number written by the digits read into `acc` followed by `cs`. -/
def valueFrom? (base acc : Nat) : List Char → Option Nat
  | [] => some acc
  | c :: cs => (digitValue? base c).bind fun d => valueFrom? base (acc * base + d) cs

/-- The number that `cs` writes in base `base`; at least one digit is required. -/
def value? (base : Nat) (cs : List Char) : Option Nat :=
  if cs = [] then none else valueFrom? base 0 cs

theorem valueFrom?_append (base acc : Nat) (cs ds : List Char) :
    valueFrom? base acc (cs ++ ds) =
      (valueFrom? base acc cs).bind fun n => valueFrom? base n ds := by
  induction cs generalizing acc with
  | nil => rfl
  | cons c cs ih =>
    simp only [List.cons_append, valueFrom?]
    cases digitValue? base c with
    | none => rfl
    | some d => simp [ih]

@[simp] theorem length_padded (count : Nat) (cs : List Char) :
    (padded count cs).length = max count cs.length := by
  simp [padded]
  omega

end Breadboard.Text
