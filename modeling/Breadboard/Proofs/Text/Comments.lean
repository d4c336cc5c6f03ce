import Breadboard.Assembler.Source
import Mathlib.Data.List.DropRight
import Mathlib.Tactic

/-!
# Comments and line ends

The code of a line is its part in front of the first comment marker, or all of it if there is no
marker (`Text.CodePart`), and `Text.before` finds it (`before_eq_of_codePart`, `codePart_before`).
Two lines agree if their codes differ at most in blanks at their ends (`Text.Agree`). Lines agree
that differ in their comments only: one may be added, changed or deleted (`Text.CommentEdit`,
`CommentEdit.agree`). A marker without blanks does not see blanks that are put behind a line
(`agree_append_blanks`), so a text has lines that agree with the old ones if its line feeds are
replaced by a carriage return and a line feed (`forall₂_lines_crlf`).
-/

namespace Breadboard

namespace Text

/-! ## Definitions -/

/-- All characters are blank. -/
def AllBlank (cs : List Char) : Prop := ∀ c ∈ cs, isBlank c = true

-- by the list: there are too many characters to go through all of them
instance (cs : List Char) : Decidable (AllBlank cs) := List.decidableBAll _ cs

/-- No marker begins in `cs`, not even one that stands right behind it. -/
def NoneBegins (marker cs : List Char) : Prop := ¬ marker <:+: cs ++ marker.dropLast

instance (marker cs : List Char) : Decidable (NoneBegins marker cs) :=
  inferInstanceAs (Decidable (¬ marker <:+: cs ++ marker.dropLast))

/-- `code` is the part of `line` in front of the first marker, or all of it if there is none. -/
def CodePart (marker line code : List Char) : Prop :=
  (¬ marker <:+: line ∧ code = line) ∨
    ∃ comment, line = code ++ marker ++ comment ∧ NoneBegins marker code

/-- The parts of two lines in front of the first marker differ at most in blanks at their ends. -/
def Agree (marker a b : List Char) : Prop :=
  ∃ code x y, CodePart marker a (code ++ x) ∧ CodePart marker b (code ++ y) ∧ AllBlank x ∧
    AllBlank y

/-- What can be done to the comment of a line. -/
inductive CommentEdit (marker : List Char) : List Char → List Char → Prop
  | keep (line : List Char) : CommentEdit marker line line
  /-- A comment is added behind some blanks, or where its marker is not mistaken for an earlier
  one. -/
  | add {line blanks : List Char} (comment : List Char) (none : ¬ marker <:+: line)
    (blank : AllBlank blanks) (apart : blanks ≠ [] ∨ NoneBegins marker line) :
    CommentEdit marker line (line ++ blanks ++ marker ++ comment)
  | change {code : List Char} (old new : List Char) (first : NoneBegins marker code) :
    CommentEdit marker (code ++ marker ++ old) (code ++ marker ++ new)
  | delete {code : List Char} (old : List Char) (first : NoneBegins marker code) :
    CommentEdit marker (code ++ marker ++ old) code

/-- The text with every line feed replaced by a carriage return and a line feed. -/
def crlf (cs : List Char) : List Char :=
  cs.flatMap fun c => if c = '\n' then ['\r', '\n'] else [c]

variable {marker line code cs a b : List Char}

/-! ## Where a marker can stand -/

/-- A word that does not hold `c` ends in front of `c`. -/
theorem prefix_of_prefix_append_cons {w x y : List Char} {c : Char} (hc : c ∉ w)
    (h : w <+: x ++ c :: y) : w <+: x := by
  induction x generalizing w with
  | nil =>
    cases w with
    | nil => exact List.nil_prefix
    | cons d w =>
      obtain ⟨rfl, -⟩ := List.cons_prefix_cons.1 h
      exact absurd List.mem_cons_self hc
  | cons e x ih =>
    cases w with
    | nil => exact List.nil_prefix
    | cons d w =>
      obtain ⟨rfl, hrest⟩ := List.cons_prefix_cons.1 h
      exact List.cons_prefix_cons.2 ⟨rfl, ih (fun hmem => hc (List.mem_cons_of_mem _ hmem)) hrest⟩

/-- A word that does not hold `c` stands in front of an occurrence of `c` or behind it. -/
theorem infix_of_infix_append_cons {w x y : List Char} {c : Char} (hc : c ∉ w) (hw : w ≠ [])
    (h : w <:+: x ++ c :: y) : w <:+: x ∨ w <:+: y := by
  induction x with
  | nil =>
    rcases List.infix_cons_iff.1 h with hprefix | hinfix
    · have hnil := prefix_of_prefix_append_cons (x := []) hc hprefix
      exact absurd (List.prefix_nil.1 hnil) hw
    · exact Or.inr hinfix
  | cons d x ih =>
    rcases List.infix_cons_iff.1 h with hprefix | hinfix
    · have hfront := prefix_of_prefix_append_cons (x := d :: x) hc hprefix
      exact Or.inl hfront.isInfix
    · rcases ih hinfix with hx | hy
      · exact Or.inl (List.infix_cons hx)
      · exact Or.inr hy

/-- A marker is longer than what is left of it without its last character. -/
theorem noneBegins_nil (hmarker : marker ≠ []) : NoneBegins marker [] := by
  intro h
  have hlength := h.length_le
  have hpos := List.length_pos_iff.2 hmarker
  rw [List.nil_append, List.length_dropLast] at hlength
  omega

theorem NoneBegins.no_marker (h : NoneBegins marker cs) : ¬ marker <:+: cs := by
  intro hinfix
  exact h (List.infix_append_of_infix_left hinfix)

/-- A marker without blanks does not begin in a line without marker in such a way that blanks behind
this line belong to it. -/
theorem not_infix_append_blanks (hsolid : ∀ c ∈ marker, isBlank c = false) (hmarker : marker ≠ [])
    {blanks rest : List Char} (hblank : AllBlank blanks) (hne : blanks ≠ [])
    (hline : ¬ marker <:+: line) (hrest : ¬ marker <:+: rest) :
    ¬ marker <:+: line ++ blanks ++ rest := by
  induction blanks generalizing line with
  | nil => exact absurd rfl hne
  | cons c blanks ih =>
    have hc : c ∉ marker := by
      intro hmem
      have hsolidc := hsolid c hmem
      rw [hblank c List.mem_cons_self] at hsolidc
      exact Bool.false_ne_true hsolidc.symm
    intro h
    rw [List.append_assoc, List.cons_append] at h
    rcases infix_of_infix_append_cons hc hmarker h with hfront | hbehind
    · exact hline hfront
    · cases blanks with
      | nil => exact hrest hbehind
      | cons d blanks =>
        -- the blanks that follow can be taken to stand behind an empty line
        have hempty : ¬ marker <:+: [] := by rwa [List.infix_nil]
        exact ih (fun e he => hblank e (List.mem_cons_of_mem _ he)) (List.cons_ne_nil _ _) hempty
          hbehind

/-- So no marker begins in a line without marker that has blanks at its end. -/
theorem noneBegins_append_blanks (hsolid : ∀ c ∈ marker, isBlank c = false) (hmarker : marker ≠ [])
    {blanks : List Char} (hblank : AllBlank blanks) (hne : blanks ≠ [])
    (hline : ¬ marker <:+: line) : NoneBegins marker (line ++ blanks) := by
  have hrest : ¬ marker <:+: marker.dropLast := by simpa [NoneBegins] using noneBegins_nil hmarker
  exact not_infix_append_blanks hsolid hmarker hblank hne hline hrest

/-! ## The code of a line -/

/-- Without a marker the whole line is code. -/
theorem before_of_not_infix (h : ¬ marker <:+: line) : before marker line = line := by
  induction line with
  | nil => rfl
  | cons c rest ih =>
    rw [List.infix_cons_iff, not_or] at h
    rw [before, if_neg (by simp [h.1]), ih h.2]

theorem append_dropLast_prefix (code marker comment : List Char) :
    code ++ marker.dropLast <+: code ++ marker ++ comment := by
  rw [List.append_assoc, List.prefix_append_right_inj]
  exact (List.dropLast_prefix marker).trans (List.prefix_append marker comment)

/-- A line is cut in front of its first marker. -/
theorem before_of_noneBegins (hmarker : marker ≠ []) (h : NoneBegins marker code)
    (comment : List Char) : before marker (code ++ marker ++ comment) = code := by
  induction code with
  | nil =>
    obtain ⟨c, rest, rfl⟩ := List.exists_cons_of_ne_nil hmarker
    rw [List.nil_append, List.cons_append, before, if_pos]
    rw [← List.cons_append]
    simp
  | cons c code ih =>
    rw [NoneBegins, List.cons_append, List.infix_cons_iff, not_or] at h
    obtain ⟨hhere, hlater⟩ := h
    -- a marker that begins here would end before the last character of the marker behind the code
    have hprefix : ¬ marker <+: c :: (code ++ marker ++ comment) := by
      intro hprefix
      apply hhere
      have hcode : c :: (code ++ marker.dropLast) <+: c :: (code ++ marker ++ comment) :=
        List.cons_prefix_cons.2 ⟨rfl, append_dropLast_prefix code marker comment⟩
      apply List.prefix_of_prefix_length_le hprefix hcode
      rw [List.length_cons, List.length_append, List.length_dropLast]
      omega
    rw [List.cons_append, List.cons_append, before, if_neg (by simpa using fun _ => hprefix),
      ih hlater]

theorem before_eq_of_codePart (hmarker : marker ≠ []) (h : CodePart marker line code) :
    before marker line = code := by
  rcases h with ⟨hnone, rfl⟩ | ⟨comment, rfl, hfirst⟩
  · exact before_of_not_infix hnone
  · exact before_of_noneBegins hmarker hfirst comment

/-- Every line has code, of which some may be empty. -/
theorem codePart_before (hmarker : marker ≠ []) (line : List Char) :
    CodePart marker line (before marker line) := by
  induction line with
  | nil =>
    refine Or.inl ⟨?_, rfl⟩
    rwa [List.infix_nil]
  | cons c rest ih =>
    rw [before]
    split
    next h =>
      simp only [Bool.and_eq_true, List.isPrefixOf_iff_prefix] at h
      obtain ⟨comment, hcomment⟩ := h.2
      exact Or.inr ⟨comment, hcomment.symm, noneBegins_nil hmarker⟩
    next h =>
      have hhere : ¬ marker <+: c :: rest := by simpa [hmarker] using h
      rcases ih with ⟨hnone, heq⟩ | ⟨comment, hcomment, hfirst⟩
      · rw [heq]
        refine Or.inl ⟨?_, rfl⟩
        rw [List.infix_cons_iff, not_or]
        exact ⟨hhere, hnone⟩
      · refine Or.inr ⟨comment, ?_, ?_⟩
        · rw [List.cons_append, List.cons_append, ← hcomment]
        · rw [NoneBegins, List.cons_append, List.infix_cons_iff, not_or]
          refine ⟨?_, hfirst⟩
          intro hprefix
          apply hhere
          rw [hcomment]
          exact hprefix.trans
            (List.cons_prefix_cons.2 ⟨rfl, append_dropLast_prefix _ marker comment⟩)

/-! ## Blanks at the end of a line -/

/-- Blanks at the end do not count. -/
theorem trimEnd_append_blanks (cs : List Char) {blanks : List Char} (h : AllBlank blanks) :
    trimEnd (cs ++ blanks) = trimEnd cs := by
  rw [trimEnd, trimEnd, List.reverse_append, List.dropWhile_append_of_pos]
  intro c hc
  exact h c (List.mem_reverse.1 hc)

/-- Without them nothing is left only if nothing but blanks was there. -/
theorem allBlank_trimEnd {cs : List Char} : AllBlank (trimEnd cs) ↔ AllBlank cs := by
  have htrim : trimEnd cs = cs.rdropWhile isBlank := rfl
  constructor
  · intro h
    apply List.rdropWhile_eq_nil_iff.1
    -- the last character that is left would be no blank
    by_contra hne
    apply List.rdropWhile_last_not isBlank cs hne
    apply h
    rw [htrim]
    exact List.getLast_mem hne
  · intro h
    have hnil : trimEnd cs = [] := htrim.trans (List.rdropWhile_eq_nil_iff.2 h)
    rw [hnil]
    exact List.forall_mem_nil _

/-- Lines that agree are the same line without comments and blanks at the end. -/
theorem Agree.trimEnd_before_eq (hmarker : marker ≠ []) (h : Agree marker a b) :
    trimEnd (before marker a) = trimEnd (before marker b) := by
  obtain ⟨code, x, y, ha, hb, hx, hy⟩ := h
  rw [before_eq_of_codePart hmarker ha, before_eq_of_codePart hmarker hb,
    trimEnd_append_blanks code hx, trimEnd_append_blanks code hy]

/-! ## Edits of comments -/

/-- Lines agree that have the same code. -/
theorem Agree.of_codePart (ha : CodePart marker a code) (hb : CodePart marker b code) :
    Agree marker a b := by
  refine ⟨code, [], [], ?_, ?_, by decide, by decide⟩
  · rwa [List.append_nil]
  · rwa [List.append_nil]

/-- A line agrees with itself. -/
theorem Agree.refl (hmarker : marker ≠ []) (line : List Char) : Agree marker line line :=
  .of_codePart (codePart_before hmarker line) (codePart_before hmarker line)

/-- What is done to the comment of a line leaves its code alone, but for blanks. -/
theorem CommentEdit.agree (hsolid : ∀ c ∈ marker, isBlank c = false) (hmarker : marker ≠ [])
    (h : CommentEdit marker a b) : Agree marker a b := by
  cases h with
  | keep => exact .refl hmarker a
  | @add _ blanks comment hnone hblank hapart =>
    have hfirst : NoneBegins marker (a ++ blanks) := by
      by_cases hne : blanks = []
      · rw [hne, List.append_nil]
        exact hapart.resolve_left fun h => h hne
      · exact noneBegins_append_blanks hsolid hmarker hblank hne hnone
    refine ⟨a, [], blanks, ?_, Or.inr ⟨comment, rfl, hfirst⟩, by decide, hblank⟩
    rw [List.append_nil]
    exact Or.inl ⟨hnone, rfl⟩
  | @change code old new hfirst =>
    exact .of_codePart (Or.inr ⟨old, rfl, hfirst⟩) (Or.inr ⟨new, rfl, hfirst⟩)
  | @delete code old hfirst =>
    exact .of_codePart (Or.inr ⟨old, rfl, hfirst⟩) (Or.inl ⟨hfirst.no_marker, rfl⟩)

/-! ## Line ends -/

/-- A line agrees with itself with blanks behind it, since no marker reaches into them. -/
theorem agree_append_blanks (hsolid : ∀ c ∈ marker, isBlank c = false) (hmarker : marker ≠ [])
    (line : List Char) {blanks : List Char} (hblank : AllBlank blanks) :
    Agree marker (line ++ blanks) line := by
  rcases codePart_before hmarker line with ⟨hnone, -⟩ | ⟨comment, hline, hfirst⟩
  · refine ⟨line, blanks, [], ?_, ?_, hblank, by decide⟩
    · refine Or.inl ⟨?_, rfl⟩
      by_cases hne : blanks = []
      · rwa [hne, List.append_nil]
      · exact (noneBegins_append_blanks hsolid hmarker hblank hne hnone).no_marker
    · rw [List.append_nil]
      exact Or.inl ⟨hnone, rfl⟩
  · refine .of_codePart (Or.inr ⟨comment ++ blanks, ?_, hfirst⟩) (Or.inr ⟨comment, hline, hfirst⟩)
    rw [← List.append_assoc, ← hline]

theorem agree_dropCarriageReturn (hsolid : ∀ c ∈ marker, isBlank c = false) (hmarker : marker ≠ [])
    (line : List Char) : Agree marker line (dropCarriageReturn line) := by
  rw [dropCarriageReturn]
  split
  next hlast =>
    obtain ⟨front, rfl⟩ := List.getLast?_eq_some_iff.1 hlast
    rw [List.dropLast_concat]
    exact agree_append_blanks hsolid hmarker front (by decide)
  next => exact .refl hmarker line

/-- All parts but the last one get a carriage return at their end. -/
def returned (parts : List (List Char)) : List (List Char) :=
  parts.dropLast.map (· ++ ['\r']) ++ parts.getLast?.toList

theorem splitWhere_crlf (cs : List Char) :
    splitWhere (· == '\n') (crlf cs) = returned (splitWhere (· == '\n') cs) := by
  induction cs with
  | nil => rfl
  | cons c cs ih =>
    obtain ⟨part, parts, hparts⟩ := List.exists_cons_of_ne_nil (splitWhere_ne_nil (· == '\n') cs)
    rw [crlf, List.flatMap_cons, ← crlf]
    by_cases hc : c = '\n'
    · -- the carriage return is all of a part, and the line feed ends it
      simp [hc, splitWhere_cons, ih, hparts, returned]
    · rw [if_neg hc, List.singleton_append, splitWhere_cons, splitWhere_cons, ih, hparts]
      cases parts with
      | nil => simp [hc, returned]
      | cons next parts => simp [hc, returned]

/-- Line ends of two characters leave every line as it is, but for a carriage return. -/
theorem lines_crlf (cs : List Char) :
    lines (crlf cs) =
      (splitWhere (· == '\n') cs).dropLast ++
        (splitWhere (· == '\n') cs).getLast?.toList.filter (· ≠ []) := by
  obtain ⟨front, last, hparts⟩ : ∃ front last, splitWhere (· == '\n') cs = front ++ [last] := by
    have hne := splitWhere_ne_nil (· == '\n') cs
    exact ⟨_, _, (List.dropLast_append_getLast hne).symm⟩
  have hdrop : dropCarriageReturn ∘ (· ++ ['\r']) = id := by
    funext part
    simp [dropCarriageReturn]
  rw [lines, splitWhere_crlf, hparts, returned, List.dropLast_concat, List.getLast?_concat,
    Option.toList_some, List.dropLast_concat, List.getLast?_concat, List.map_map, hdrop, List.map_id]
  rfl

/-- So the lines agree with those of the text. -/
theorem forall₂_lines_crlf (hsolid : ∀ c ∈ marker, isBlank c = false) (hmarker : marker ≠ [])
    (cs : List Char) : List.Forall₂ (Agree marker) (lines (crlf cs)) (lines cs) := by
  rw [lines_crlf, lines]
  apply List.rel_append
  · rw [List.forall₂_map_right_iff, List.forall₂_same]
    intro part _
    exact agree_dropCarriageReturn hsolid hmarker part
  · rw [List.forall₂_same]
    intro part _
    exact .refl hmarker part

end Text

end Breadboard
