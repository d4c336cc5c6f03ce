import Breadboard.Edu1
import Breadboard.Mos6502
import Mathlib.Tactic

/-!
# The grammar of operand patterns

A piece of a pattern stands for a set of texts, and an alternative for the texts that its pieces
make up, one behind another (`Piece.Derives`, `Alternative.Derives`). Matching gives every piece the
longest stretch that fits it and never takes any of it back. What is accepted is in the language of
the alternative (`Alternative.derives_of_matchFrom?`), but the converse fails for pieces that
overlap. It holds where the text behind a capture cannot go on with it (`Alternative.Decisive`): a
text then divides among the pieces in one way only, and this is the greedy way
(`Alternative.match?_of_derives`). All patterns of `edu1` and of the 6502 are of this kind
(`Pattern.match?_recognises`).
-/

namespace Breadboard

/-! ## The texts of a pattern -/

/-- The text is one that the piece stands for. A literal piece stands for its own text, and a choice
for each of its words that is not empty; a number is a minus sign, if it may have one, then the lead
and as many digits as it may have; a label is a character that begins labels and any number of
those that may follow it. -/
inductive Piece.Derives (labels : LabelShape) : Piece → List Char → Prop where
  | literal (text : String) : Derives labels (.literal text) text.toList
  | number {shape : NumberShape} {sign digits : List Char}
      (hsign : sign = [] ∨ shape.signed = true ∧ sign = ['-'])
      (hdigits : ∀ d ∈ digits, shape.digits.accepts d = true)
      (hleast : shape.least ≤ digits.length)
      (hmost : ∀ most, shape.most = some most → digits.length ≤ most) :
      Derives labels (.number shape) (sign ++ (shape.lead.toList ++ digits))
  | label {c : Char} {cs : List Char} (hfirst : labels.first.accepts c = true)
      (hrest : ∀ d ∈ cs, labels.rest.accepts d = true) : Derives labels .label (c :: cs)
  | choice {words : List String} {word : String} (hword : word ∈ words) (hne : word ≠ "") :
      Derives labels (.choice words) word.toList

/-- The text is made up of texts of the pieces, one behind another. The last of those that belong to
a capture is given, if there is one. -/
inductive Alternative.Derives (labels : LabelShape) :
    Alternative → List Char → Option (List Char) → Prop where
  | nil : Derives labels [] [] none
  | cons {piece : Piece} {pieces : Alternative} {taken rest : List Char}
      {last : Option (List Char)} (hpiece : piece.Derives labels taken)
      (hrest : Derives labels pieces rest last) :
      Derives labels (piece :: pieces) (taken ++ rest)
        (last.or (if piece.captures then some taken else none))

/-! ## What is accepted is in the language -/

namespace NumberShape

variable {shape : NumberShape}

theorem sign_of_splitSign (shape : NumberShape) (cs : List Char) :
    (shape.splitSign cs).1 = [] ∨ shape.signed = true ∧ (shape.splitSign cs).1 = ['-'] := by
  rw [splitSign.eq_def]
  split
  · split
    next hsigned => exact Or.inr ⟨hsigned, rfl⟩
    next => exact Or.inl rfl
  · exact Or.inl rfl

/-- How many of `count` digits the shape has room for. -/
def room (shape : NumberShape) (count : Nat) : Nat := shape.most.elim count (min · count)

theorem room_le (shape : NumberShape) (count : Nat) : shape.room count ≤ count := by
  rw [room]
  cases shape.most with
  | none => exact Nat.le_refl count
  | some most => exact Nat.min_le_right most count

theorem room_le_most {most : Nat} (h : shape.most = some most) (count : Nat) :
    shape.room count ≤ most := by
  rw [room, h]
  exact Nat.min_le_left most count

/-- There is room for all digits unless there are too many. -/
theorem room_eq_self {count : Nat} (h : ∀ most, shape.most = some most → count ≤ most) :
    shape.room count = count := by
  rw [room]
  cases hmost : shape.most with
  | none => rfl
  | some most => exact Nat.min_eq_right (h most hmost)

/-- Of the digits in front, a number takes as many as it has room for. -/
theorem splitDigits_eq (shape : NumberShape) (cs : List Char) :
    shape.splitDigits cs =
      cs.splitAt (shape.room (cs.takeWhile shape.digits.accepts).length) := by
  rw [splitDigits, room]
  cases shape.most with
  | none => rfl
  | some most => rfl

/-- What a number takes is a sign, the lead and digits that its shape allows. -/
theorem exists_of_split? {cs number rest : List Char}
    (h : shape.split? cs = some (number, rest)) :
    ∃ sign digits, number = sign ++ (shape.lead.toList ++ digits) ∧
      (sign = [] ∨ shape.signed = true ∧ sign = ['-']) ∧
      (∀ d ∈ digits, shape.digits.accepts d = true) ∧ shape.least ≤ digits.length ∧
      ∀ most, shape.most = some most → digits.length ≤ most := by
  rw [split?] at h
  dsimp only at h
  obtain ⟨-, hdigits⟩ := Option.ite_none_right_eq_some.1 h
  obtain ⟨hleast, heq⟩ := Option.ite_none_right_eq_some.1 hdigits
  obtain ⟨rfl, -⟩ := Prod.mk.inj (Option.some.inj heq)
  generalize (shape.splitSign cs).2.drop shape.lead.toList.length = behind at hleast ⊢
  have hroom := shape.room_le (behind.takeWhile shape.digits.accepts).length
  rw [splitDigits_eq, List.splitAt_eq] at hleast ⊢
  -- the digits are the beginning of the longest stretch of digits
  have hfront : behind.take (shape.room (behind.takeWhile shape.digits.accepts).length) <+:
      behind.takeWhile shape.digits.accepts := by
    apply List.prefix_of_prefix_length_le (List.take_prefix _ _) (List.takeWhile_prefix _)
    rw [List.length_take]
    omega
  refine ⟨_, _, List.append_assoc _ _ _, shape.sign_of_splitSign cs, ?_, hleast, ?_⟩
  · intro d hd
    exact List.all_eq_true.1 List.all_takeWhile d (hfront.subset hd)
  · intro most hmost
    have hle := room_le_most hmost (behind.takeWhile shape.digits.accepts).length
    rw [List.length_take]
    omega

end NumberShape

namespace Piece

/-- The longest of some words and `w` is one of them. -/
theorem foldl_longer_mem (words : List String) (w : String) :
    words.foldl longer w ∈ w :: words := by
  induction words generalizing w with
  | nil => exact List.mem_singleton_self w
  | cons v words ih =>
    rw [List.foldl_cons, longer]
    split
    · exact List.mem_cons_of_mem w (ih v)
    · rcases List.mem_cons.1 (ih w) with heq | hmem
      · rw [heq]
        exact List.mem_cons_self
      · exact List.mem_cons_of_mem w (List.mem_cons_of_mem v hmem)

/-- No other of them is longer. -/
theorem length_le_foldl_longer {words : List String} {v w : String} (h : v ∈ w :: words) :
    v.toList.length ≤ (words.foldl longer w).toList.length := by
  induction words generalizing v w with
  | nil =>
    obtain rfl := List.mem_singleton.1 h
    exact Nat.le_refl _
  | cons u words ih =>
    rw [List.foldl_cons]
    -- the longer of the first two is no shorter than either, and the rest is compared with it
    have hlonger := ih (v := longer w u) List.mem_cons_self
    rcases List.mem_cons.1 h with rfl | hrest
    · refine Nat.le_trans ?_ hlonger
      rw [longer]
      split
      · omega
      · exact Nat.le_refl _
    · rcases List.mem_cons.1 hrest with rfl | hmem
      · refine Nat.le_trans ?_ hlonger
        rw [longer]
        split
        · exact Nat.le_refl _
        · omega
      · exact ih (List.mem_cons_of_mem _ hmem)

/-- A word that is found in front of a text is taken off it. -/
theorem splitWord?_eq_some_iff {word : String} {cs taken rest : List Char} :
    splitWord? word cs = some (taken, rest) ↔ taken = word.toList ∧ cs = word.toList ++ rest := by
  rw [splitWord?, Option.ite_none_right_eq_some, List.isPrefixOf_iff_prefix]
  constructor
  · rintro ⟨⟨tail, rfl⟩, heq⟩
    obtain ⟨rfl, rfl⟩ := Prod.mk.inj (Option.some.inj heq)
    exact ⟨rfl, by rw [List.drop_left]⟩
  · rintro ⟨rfl, rfl⟩
    exact ⟨List.prefix_append _ _, by rw [List.drop_left]⟩

variable {labels : LabelShape}

/-- What a piece takes is a text that it stands for. -/
theorem derives_of_split? {piece : Piece} {cs taken rest : List Char}
    (h : piece.split? labels cs = some (taken, rest)) : piece.Derives labels taken := by
  cases piece with
  | literal text =>
    obtain ⟨rfl, -⟩ := splitWord?_eq_some_iff.1 h
    exact .literal text
  | number shape =>
    obtain ⟨sign, digits, rfl, hsign, hdigits, hleast, hmost⟩ := NumberShape.exists_of_split? h
    exact .number hsign hdigits hleast hmost
  | label =>
    cases cs with
    | nil => simp [split?, LabelShape.split?] at h
    | cons c cs =>
      obtain ⟨hfirst, heq⟩ := Option.ite_none_right_eq_some.1 h
      obtain ⟨rfl, -⟩ := Prod.mk.inj (Option.some.inj heq)
      exact .label hfirst (List.all_eq_true.1 List.all_takeWhile)
  | choice words =>
    obtain ⟨hne, hsplit⟩ := Option.ite_none_left_eq_some.1 h
    obtain ⟨rfl, -⟩ := splitWord?_eq_some_iff.1 hsplit
    rcases List.mem_cons.1 (foldl_longer_mem _ _) with hempty | hmem
    · exact absurd hempty hne
    · exact .choice (List.mem_of_mem_filter hmem) hne

end Piece

namespace Alternative

variable {labels : LabelShape}

/-- An alternative accepts only texts of its language, and finds what the last capture stands for;
if there is no capture, it gives back what it was given. -/
theorem derives_of_matchFrom? {alternative : Alternative} {cs captured result : List Char}
    (h : alternative.matchFrom? labels captured cs = some result) :
    ∃ last, alternative.Derives labels cs last ∧ result = last.getD captured := by
  induction alternative generalizing cs captured with
  | nil =>
    obtain ⟨rfl, heq⟩ := Option.ite_none_right_eq_some.1 h
    exact ⟨none, .nil, (Option.some.inj heq).symm⟩
  | cons piece pieces ih =>
    obtain ⟨⟨taken, rest⟩, hsplit, hrest⟩ := Option.bind_eq_some_iff.1 h
    obtain ⟨last, hlast, hresult⟩ := ih hrest
    obtain rfl := Piece.split?_append hsplit
    refine ⟨_, .cons (Piece.derives_of_split? hsplit) hlast, ?_⟩
    rw [hresult]
    -- a later capture counts, and otherwise this one, if it is one
    cases last with
    | some found => rfl
    | none =>
      rw [Option.none_or]
      split
      · rfl
      · rfl

end Alternative

/-! ## What is in the language is accepted -/

/-- The character may go on with what the piece captures. Any character may go on with a word. -/
def Piece.goesOn (labels : LabelShape) : Piece → Char → Bool
  | .literal _, _ => false
  | .number shape, c => c == '-' || shape.digits.accepts c
  | .label, c => c == '-' || labels.rest.accepts c
  | .choice _, _ => true

/-- What the piece captures, if it captures, is ended by `next`: this is a literal text whose first
character cannot go on with it. -/
def Piece.endedBy (labels : LabelShape) (piece next : Piece) : Bool :=
  ! piece.captures ||
    match next with
    | .literal text => text.toList.head?.any fun c => ! piece.goesOn labels c
    | _ => false

/-- No minus sign stands at the beginning of the lead of a number that may have a sign. -/
def Piece.hasClearSign : Piece → Bool
  | .number shape => ! (shape.signed && shape.lead.toList.head? == some '-')
  | _ => true

/-- Empty texts apart, every capture stands last or is ended by the piece behind it; in particular a
choice stands last. Signs are clear. -/
structure Alternative.Decisive (labels : LabelShape) (alternative : Alternative) : Prop where
  ended : (alternative.filter (· ≠ .literal "")).IsChain fun piece next =>
    piece.endedBy labels next = true
  clear : ∀ piece ∈ alternative, piece.hasClearSign = true

instance (labels : LabelShape) (alternative : Alternative) :
    Decidable (alternative.Decisive labels) :=
  decidable_of_iff (_ ∧ _) ⟨fun h => ⟨h.1, h.2⟩, fun h => ⟨h.ended, h.clear⟩⟩

/-- All alternatives are decisive. -/
def Pattern.Decisive (labels : LabelShape) (pattern : Pattern) : Prop :=
  ∀ alternative ∈ pattern, Alternative.Decisive labels alternative

instance (labels : LabelShape) (pattern : Pattern) : Decidable (pattern.Decisive labels) :=
  inferInstanceAs (Decidable (∀ alternative ∈ pattern, Alternative.Decisive labels alternative))

/-- A stretch of characters of a class ends where the next character is not of the class. -/
theorem Text.takeWhile_append_of_stop {p : Char → Bool} {ds rest : List Char}
    (hds : ∀ d ∈ ds, p d = true) (hrest : ∀ c, rest.head? = some c → p c = false) :
    (ds ++ rest).takeWhile p = ds := by
  rw [List.takeWhile_append_of_pos hds]
  cases rest with
  | nil => exact List.append_nil ds
  | cons c rest => rw [List.takeWhile_cons_of_neg (by simp [hrest c rfl]), List.append_nil]

theorem CharClass.accepts_minus (k : CharClass) : k.accepts '-' = false := by
  cases k with
  | _ => rfl

namespace NumberShape

variable {shape : NumberShape}

/-- A sign is taken off, and nothing is if there is no sign. -/
theorem splitSign_append_of_sign {sign cs : List Char}
    (hsign : sign = [] ∨ shape.signed = true ∧ sign = ['-'])
    (hcs : shape.signed = true → cs.head? ≠ some '-') :
    shape.splitSign (sign ++ cs) = (sign, cs) := by
  rcases hsign with rfl | ⟨hsigned, rfl⟩
  · rw [List.nil_append, splitSign.eq_def]
    split
    · rw [if_neg]
      intro hsigned
      exact hcs hsigned rfl
    · rfl
  · show (if shape.signed = true then _ else _) = _
    rw [if_pos hsigned]
    rfl

/-- A number in front of a text that cannot go on with it is taken off. -/
theorem split?_append_of_digits {sign digits rest : List Char}
    (hsign : sign = [] ∨ shape.signed = true ∧ sign = ['-'])
    (hdigits : ∀ d ∈ digits, shape.digits.accepts d = true)
    (hleast : shape.least ≤ digits.length)
    (hmost : ∀ most, shape.most = some most → digits.length ≤ most)
    (hclear : shape.signed = true → shape.lead.toList.head? ≠ some '-')
    (hrest : ∀ c, rest.head? = some c → c ≠ '-' ∧ shape.digits.accepts c = false) :
    shape.split? (sign ++ (shape.lead.toList ++ digits) ++ rest) =
      some (sign ++ (shape.lead.toList ++ digits), rest) := by
  -- without a sign, nothing in front of the rest can be taken for one
  have hunsigned : shape.signed = true →
      (shape.lead.toList ++ (digits ++ rest)).head? ≠ some '-' := by
    intro hsigned hhead
    rw [List.head?_append, List.head?_append, Option.or_eq_some_iff, Option.or_eq_some_iff] at hhead
    rcases hhead with hlead | ⟨-, hdigit | ⟨-, hbehind⟩⟩
    · exact hclear hsigned hlead
    · have haccepts := hdigits '-' (List.mem_of_head? hdigit)
      rw [CharClass.accepts_minus] at haccepts
      exact absurd haccepts (by decide)
    · exact (hrest '-' hbehind).1 rfl
  have hstretch : (digits ++ rest).takeWhile shape.digits.accepts = digits :=
    Text.takeWhile_append_of_stop hdigits fun c hc => (hrest c hc).2
  have hsplit : shape.splitDigits (digits ++ rest) = (digits, rest) := by
    rw [splitDigits_eq, hstretch, room_eq_self hmost, List.splitAt_eq, List.take_left,
      List.drop_left]
  rw [split?, List.append_assoc, List.append_assoc, splitSign_append_of_sign hsign hunsigned]
  dsimp only
  rw [if_pos (List.isPrefixOf_iff_prefix.2 (List.prefix_append _ _)), List.drop_left, hsplit]
  dsimp only
  rw [if_pos hleast, List.append_assoc]

end NumberShape

/-- A label in front of a text that cannot go on with it is taken off. -/
theorem LabelShape.split?_append_of_rest {shape : LabelShape} {c : Char} {cs rest : List Char}
    (hfirst : shape.first.accepts c = true) (hcs : ∀ d ∈ cs, shape.rest.accepts d = true)
    (hrest : ∀ d, rest.head? = some d → shape.rest.accepts d = false) :
    shape.split? (c :: cs ++ rest) = some (c :: cs, rest) := by
  have hstretch : (cs ++ rest).takeWhile shape.rest.accepts = cs :=
    Text.takeWhile_append_of_stop hcs hrest
  have hbehind : (cs ++ rest).dropWhile shape.rest.accepts = rest := by
    have hall := List.takeWhile_append_dropWhile (p := shape.rest.accepts) (l := cs ++ rest)
    rw [hstretch] at hall
    exact List.append_cancel_left hall
  rw [List.cons_append, split?, if_pos hfirst, hstretch, hbehind]

namespace Piece

variable {labels : LabelShape}

/-- A word is the longest that a text begins with if it is all of the text. -/
theorem longestWord_toList {words : List String} {word : String} (hword : word ∈ words) :
    longestWord words word.toList = word := by
  let fitting := words.filter fun w => w.toList.isPrefixOf word.toList
  have hmem : word ∈ fitting := by
    apply List.mem_filter.2
    exact ⟨hword, List.isPrefixOf_iff_prefix.2 (List.prefix_refl _)⟩
  have hlength := length_le_foldl_longer (w := "") (List.mem_cons_of_mem "" hmem)
  -- what is found begins the word and is no shorter
  have hfront : (longestWord words word.toList).toList <+: word.toList := by
    rcases List.mem_cons.1 (foldl_longer_mem fitting "") with hempty | hfound
    · rw [longestWord, hempty]
      exact List.nil_prefix
    · exact List.isPrefixOf_iff_prefix.1 (List.mem_filter.1 hfound).2
  exact String.toList_inj.1 (hfront.eq_of_length_le hlength)

/-- A text of a piece is taken off the front if what follows cannot go on with it. -/
theorem split?_append_of_derives {piece : Piece} {taken rest : List Char}
    (h : piece.Derives labels taken) (hclear : piece.hasClearSign = true)
    (hrest : piece.captures = true → ∀ c, rest.head? = some c → piece.goesOn labels c = false) :
    piece.split? labels (taken ++ rest) = some (taken, rest) := by
  cases h with
  | literal text => exact splitWord?_eq_some_iff.2 ⟨rfl, rfl⟩
  | number hsign hdigits hleast hmost =>
    apply NumberShape.split?_append_of_digits hsign hdigits hleast hmost
    · intro hsigned hlead
      simp [hasClearSign, hsigned, hlead] at hclear
    · intro c hc
      simpa [goesOn] using hrest rfl c hc
  | label hfirst hcs =>
    apply LabelShape.split?_append_of_rest hfirst hcs
    intro d hd
    have hstop := hrest rfl d hd
    simp only [goesOn, Bool.or_eq_false_iff] at hstop
    exact hstop.2
  | @choice words word hword hne =>
    -- nothing follows a choice
    obtain rfl : rest = [] := by
      cases rest with
      | nil => rfl
      | cons c rest => simpa [goesOn] using hrest rfl c rfl
    rw [List.append_nil, split?, longestWord_toList hword, if_neg hne]
    exact splitWord?_eq_some_iff.2 ⟨rfl, by rw [List.append_nil]⟩

end Piece

namespace Alternative

variable {labels : LabelShape}

theorem derives_nil_iff {cs : List Char} {last : Option (List Char)} :
    Alternative.Derives labels [] cs last ↔ cs = [] ∧ last = none := by
  constructor
  · intro h
    cases h
    exact ⟨rfl, rfl⟩
  · rintro ⟨rfl, rfl⟩
    exact .nil

/-- Behind a capture that the next piece ends, a text of the pieces cannot go on with it. -/
theorem goesOn_of_derives {piece : Piece} {pieces : Alternative} {rest : List Char}
    {last : Option (List Char)} (h : pieces.Derives labels rest last)
    (hended : ∀ next ∈ pieces.head?, piece.endedBy labels next = true)
    (hcaptures : piece.captures = true) :
    ∀ c, rest.head? = some c → piece.goesOn labels c = false := by
  intro c hc
  cases h with
  | nil => simp at hc
  | @cons next pieces taken rest last hnext hrest =>
    have hnextEnds := hended next rfl
    cases hnext with
    | literal text =>
      simp only [Piece.endedBy, hcaptures, Bool.not_true, Bool.false_or] at hnextEnds
      obtain ⟨d, hd, hstops⟩ := (Option.any_eq_true _ _).1 hnextEnds
      rw [List.head?_append, hd, Option.some_or] at hc
      obtain rfl := Option.some.inj hc
      simpa using hstops
    | number => simp [Piece.endedBy, hcaptures] at hnextEnds
    | label => simp [Piece.endedBy, hcaptures] at hnextEnds
    | choice => simp [Piece.endedBy, hcaptures] at hnextEnds

/-- Where every capture is ended by the piece behind it, a text of the language is accepted. -/
theorem matchFrom?_of_isChain {pieces : Alternative} {cs : List Char} {last : Option (List Char)}
    (h : pieces.Derives labels cs last)
    (hended : List.IsChain (fun piece next => piece.endedBy labels next = true) pieces)
    (hclear : ∀ piece ∈ pieces, piece.hasClearSign = true) (captured : List Char) :
    pieces.matchFrom? labels captured cs = some (last.getD captured) := by
  induction h generalizing captured with
  | nil => rfl
  | @cons piece pieces taken rest last hpiece hrest ih =>
    obtain ⟨hnext, hchain⟩ := List.isChain_cons.1 hended
    have hsplit := Piece.split?_append_of_derives hpiece (hclear piece List.mem_cons_self)
      (goesOn_of_derives hrest hnext)
    rw [matchFrom?, hsplit, Option.bind_some]
    dsimp only
    rw [ih hchain (fun p hp => hclear p (List.mem_cons_of_mem _ hp))]
    -- as above, a later capture counts
    cases last with
    | some found => rfl
    | none =>
      rw [Option.none_or]
      split
      · rfl
      · rfl

/-- Empty texts do not matter to the language. -/
theorem Derives.filter {alternative : Alternative} {cs : List Char} {last : Option (List Char)}
    (h : alternative.Derives labels cs last) :
    Alternative.Derives labels (alternative.filter (· ≠ .literal "")) cs last := by
  induction h with
  | nil => exact .nil
  | @cons piece pieces taken rest last hpiece hrest ih =>
    rw [List.filter_cons]
    split
    · exact .cons hpiece ih
    next hempty =>
      obtain rfl : piece = .literal "" := by simpa using hempty
      cases hpiece
      rw [Piece.captures, if_neg Bool.false_ne_true, Option.or_none]
      exact ih

/-- Nor do they matter to matching. -/
theorem matchFrom?_filter (alternative : Alternative) (captured cs : List Char) :
    Alternative.matchFrom? labels captured (alternative.filter (· ≠ .literal "")) cs =
      alternative.matchFrom? labels captured cs := by
  induction alternative generalizing captured cs with
  | nil => rfl
  | cons piece pieces ih =>
    rw [List.filter_cons]
    split
    · rw [matchFrom?, matchFrom?]
      congr 1
      funext split
      exact ih _ _
    next hempty =>
      obtain rfl : piece = .literal "" := by simpa using hempty
      have hsplit : Piece.split? labels (.literal "") cs = some ([], cs) :=
        Piece.splitWord?_eq_some_iff.2 ⟨rfl, rfl⟩
      rw [matchFrom?, hsplit]
      exact ih _ _

/-- A decisive alternative accepts every text of its language, and finds in it what the last capture
stands for. -/
theorem match?_of_derives {alternative : Alternative} (hdecisive : alternative.Decisive labels)
    {cs : List Char} {last : Option (List Char)} (h : alternative.Derives labels cs last) :
    alternative.match? labels cs = some (last.getD []) := by
  rw [match?, ← matchFrom?_filter]
  apply matchFrom?_of_isChain h.filter hdecisive.ended
  intro piece hpiece
  exact hdecisive.clear piece (List.mem_of_mem_filter hpiece)

/-- A decisive alternative accepts exactly the texts of its language. -/
theorem match?_eq_some_iff {alternative : Alternative} (hdecisive : alternative.Decisive labels)
    {cs captured : List Char} : alternative.match? labels cs = some captured ↔
      ∃ last, alternative.Derives labels cs last ∧ captured = last.getD [] := by
  constructor
  · exact derives_of_matchFrom?
  · rintro ⟨last, h, rfl⟩
    exact match?_of_derives hdecisive h

/-- Other alternatives may refuse a text that they derive: here the label takes the last letter,
which nobody gives back. -/
example : Alternative.match? [.label, .literal "X"] {} "AX".toList = none := by decide

end Alternative

/-! ## Patterns -/

namespace Pattern

variable {labels : LabelShape}

/-- The alternative that is found accepts the text, and those in front of it do not. -/
theorem getElem?_of_matchFrom? {pattern : Pattern} {cs : List Char} {index : Nat} {found : Found}
    (h : pattern.matchFrom? labels cs index = some found) :
    ∃ i form captured, found = ⟨String.ofList captured, index + i⟩ ∧ pattern[i]? = some form ∧
      Alternative.match? form labels cs = some captured ∧
      ∀ j < i, ∀ earlier, pattern[j]? = some earlier →
        Alternative.match? earlier labels cs = none := by
  induction pattern generalizing index with
  | nil => simp [matchFrom?] at h
  | cons form rest ih =>
    rw [matchFrom?] at h
    split at h
    next captured hcaptured =>
      obtain rfl := Option.some.inj h
      exact ⟨0, form, captured, rfl, rfl, hcaptured, by simp⟩
    next hnone =>
      obtain ⟨i, form', captured, hfound, hform, hmatch, hearlier⟩ := ih h
      refine ⟨i + 1, form', captured, ?_, hform, hmatch, ?_⟩
      · rw [hfound, Nat.add_assoc, Nat.add_comm 1]
      · intro j hj earlier hget
        cases j with
        | zero =>
          obtain rfl := Option.some.inj hget
          exact hnone
        | succ j => exact hearlier j (Nat.lt_of_succ_lt_succ hj) earlier hget

/-- A pattern refuses what none of its alternatives accepts. -/
theorem matchFrom?_eq_none_iff {pattern : Pattern} {cs : List Char} {index : Nat} :
    pattern.matchFrom? labels cs index = none ↔
      ∀ form ∈ pattern, Alternative.match? form labels cs = none := by
  induction pattern generalizing index with
  | nil => simp [matchFrom?]
  | cons form rest ih =>
    rw [matchFrom?, List.forall_mem_cons, ← @ih (index + 1)]
    split
    next captured hcaptured => simp [hcaptured]
    next hnone => simp [hnone]

/-- An alternative that is found derives all of the text, and what was captured is the part of its
last capture. -/
theorem derives_of_match? {pattern : Pattern} {text : String} {found : Found}
    (h : pattern.match? labels text = some found) :
    ∃ form last, pattern[found.alternative]? = some form ∧
      Alternative.Derives labels form text.toList last ∧
      found.captured = String.ofList (last.getD []) ∧
      ∀ j < found.alternative, ∀ earlier, pattern[j]? = some earlier →
        Alternative.match? earlier labels text.toList = none := by
  obtain ⟨i, form, captured, rfl, hform, hmatch, hearlier⟩ := getElem?_of_matchFrom? h
  obtain ⟨last, hderives, rfl⟩ := Alternative.derives_of_matchFrom? hmatch
  rw [Nat.zero_add]
  exact ⟨form, last, hform, hderives, rfl, hearlier⟩

/-- A decisive pattern refuses a text exactly if none of its alternatives derives the text. -/
theorem match?_eq_none_iff {pattern : Pattern} (hdecisive : pattern.Decisive labels)
    {text : String} : pattern.match? labels text = none ↔
      ∀ form ∈ pattern, ∀ last, ¬ Alternative.Derives labels form text.toList last := by
  rw [match?, matchFrom?_eq_none_iff]
  apply forall₂_congr
  intro form hform
  have haccepts (captured : List Char) :
      Alternative.match? form labels text.toList = some captured ↔ _ :=
    Alternative.match?_eq_some_iff (hdecisive form hform)
  rw [Option.eq_none_iff_forall_ne_some]
  constructor
  · intro hnone last hderives
    exact hnone _ ((haccepts _).2 ⟨last, hderives, rfl⟩)
  · intro hunderived captured hmatch
    obtain ⟨last, hderives, -⟩ := (haccepts captured).1 hmatch
    exact hunderived last hderives

/-- For every pattern, label shape and text: an alternative that is found derives all of the text,
what was captured is the part of its last capture, and no earlier alternative accepts the text. If
the pattern is decisive, it refuses a text exactly if none of its alternatives derives the text. All
patterns of `edu1` and of the 6502, for operands and for data, are decisive. -/
theorem match?_recognises (labels : LabelShape) (pattern : Pattern) (text : String) :
    (∀ captured i, pattern.match? labels text = some ⟨captured, i⟩ →
      ∃ form last, pattern[i]? = some form ∧ Alternative.Derives labels form text.toList last ∧
        captured = String.ofList (last.getD []) ∧
        ∀ j < i, ∀ earlier, pattern[j]? = some earlier →
          Alternative.match? earlier labels text.toList = none) ∧
    (pattern.Decisive labels →
      (pattern.match? labels text = none ↔
        ∀ form ∈ pattern, ∀ last, ¬ Alternative.Derives labels form text.toList last)) ∧
    ∀ arch ∈ [Edu1.architecture, Mos6502.architecture],
      (∀ m ∈ arch.modes, m.pattern.Decisive arch.rules.labels) ∧
        ∀ d ∈ arch.data, d.pattern.Decisive arch.rules.labels := by
  refine ⟨?_, ?_, ?_⟩
  · intro captured i h
    exact derives_of_match? h
  · intro hdecisive
    exact match?_eq_none_iff hdecisive
  · decide

/-- A label with an index is found in the second form, and a number of five digits in none. -/
theorem match?_recognises_indexed :
    let pattern := Mos6502.valueOrLabel "" Mos6502.wordShape ",X"
    (∃ form last, pattern[1]? = some form ∧
        Alternative.Derives {} form "loop2,X".toList last ∧
        "loop2" = String.ofList (last.getD [])) ∧
      pattern.Decisive {} ∧
      ∀ form ∈ pattern, ∀ last, ¬ Alternative.Derives {} form "$12345,X".toList last := by
  intro pattern
  obtain ⟨hfound, -, -⟩ := match?_recognises {} pattern "loop2,X"
  obtain ⟨-, hrefused, -⟩ := match?_recognises {} pattern "$12345,X"
  have hdecisive : pattern.Decisive {} := by decide
  obtain ⟨form, last, hform, hderives, hcaptured, -⟩ := hfound "loop2" 1 (by decide)
  exact ⟨⟨form, last, hform, hderives, hcaptured⟩, hdecisive, (hrefused hdecisive).1 (by decide)⟩

end Pattern

end Breadboard
