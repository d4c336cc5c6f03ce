/-!
# Blank characters

Source text is divided at blanks, and trailing or surrounding blanks are dropped. A blank is a
character with the Unicode property `White_Space`, so tabs, no-break spaces and the line and
paragraph separators all count. `words_eq_nil_iff` says when a text has no word at all.
-/

namespace Breadboard.Text

/-- The code points with the property `White_Space`, as ranges with both ends included. -/
def blankRanges : List (Nat × Nat) :=
  [(0x0009, 0x000D), (0x0020, 0x0020), (0x0085, 0x0085), (0x00A0, 0x00A0), (0x1680, 0x1680),
   (0x2000, 0x200A), (0x2028, 0x2029), (0x202F, 0x202F), (0x205F, 0x205F), (0x3000, 0x3000)]

/-- A character with the property `White_Space`. -/
def isBlank (c : Char) : Bool :=
  blankRanges.any fun r => r.1 ≤ c.toNat && c.toNat ≤ r.2

/-- The text without the blanks at its end. -/
def trimEnd (cs : List Char) : List Char :=
  (cs.reverse.dropWhile isBlank).reverse

/-- The text without the blanks at either end. -/
def trim (cs : List Char) : List Char :=
  trimEnd (cs.dropWhile isBlank)

/-- The stretches of `cs` between the characters that satisfy `p`: one more than there are such
characters, and possibly empty. -/
def splitWhere (p : Char → Bool) (cs : List Char) : List (List Char) :=
  cs.foldr (fun c parts =>
    if p c then [] :: parts
    else match parts with
      | [] => [[c]]
      | part :: rest => (c :: part) :: rest) [[]]

/-- The words of `cs`: its longest stretches without a blank. -/
def words (cs : List Char) : List (List Char) :=
  (splitWhere isBlank cs).filter (· ≠ [])

@[simp] theorem splitWhere_nil (p : Char → Bool) : splitWhere p [] = [[]] := rfl

theorem splitWhere_cons (p : Char → Bool) (c : Char) (cs : List Char) :
    splitWhere p (c :: cs) =
      if p c then [] :: splitWhere p cs
      else match splitWhere p cs with
        | [] => [[c]]
        | part :: rest => (c :: part) :: rest := rfl

/-- There is always at least one stretch. -/
theorem splitWhere_ne_nil (p : Char → Bool) (cs : List Char) : splitWhere p cs ≠ [] := by
  cases cs with
  | nil => simp
  | cons c cs =>
    rw [splitWhere_cons]
    split
    · simp
    · split <;> simp

/-- A text has no word exactly when each of its characters is blank. -/
theorem words_eq_nil_iff (cs : List Char) : words cs = [] ↔ ∀ c ∈ cs, isBlank c = true := by
  induction cs with
  | nil => simp [words]
  | cons c cs ih =>
    simp only [words, splitWhere_cons, List.forall_mem_cons] at ih ⊢
    by_cases h : isBlank c = true
    · simp [h, ← ih]
    · cases hs : splitWhere isBlank cs <;> simp [h]

end Breadboard.Text
