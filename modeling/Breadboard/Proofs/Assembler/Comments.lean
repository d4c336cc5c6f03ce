import Breadboard.Edu1
import Breadboard.Proofs.Assembler.Edits
import Breadboard.Proofs.Text.Comments

/-!
# Comments and line ends do not matter

A source text is read line by line, and of a line only its code counts, without blanks at its end
(`SourceLine.ofText?_of_agree`). So texts whose lines agree one by one are assembled to the same
program, and texts that differ in comments or line ends only are such texts. The lines of a program
are the lines of the text that have code, in order and with their positions in the whole text
(`SourceLine.exists_mem_split_iff`, `Program.exists_mem_lines_iff`), and no other number is told in
a problem or with a symbol (`Program.exists_number_of_mem_toldNumbers`). The main statement is
`Program.assemble_ignores_comments`.
-/

namespace Breadboard

namespace SourceLine

/-! ## Reading lines that agree -/

variable {marker : List Char}

/-- Lines that agree are read as the same source line. -/
theorem ofText?_of_agree (hmarker : marker ≠ []) {a b : List Char} (h : Text.Agree marker a b)
    (number : Nat) : ofText? marker number a = ofText? marker number b := by
  rw [ofText?, ofText?, h.trimEnd_before_eq hmarker]

theorem splitFrom_cons (marker : List Char) (first : Nat) (line : List Char)
    (lines : List (List Char)) :
    splitFrom marker first (line :: lines) =
      (ofText? marker (first + 1) line).toList ++ splitFrom marker (first + 1) lines := by
  rw [splitFrom, splitFrom, List.zipIdx_cons, List.filterMap_cons]
  dsimp only
  cases ofText? marker (first + 1) line with
  | none => rfl
  | some s => rfl

theorem splitFrom_of_agree (hmarker : marker ≠ []) {as bs : List (List Char)}
    (h : List.Forall₂ (Text.Agree marker) as bs) (first : Nat) :
    splitFrom marker first as = splitFrom marker first bs := by
  induction h generalizing first with
  | nil => rfl
  | cons hline _ ih =>
    rw [splitFrom_cons, splitFrom_cons, ofText?_of_agree hmarker hline, ih]

/-- Texts whose lines agree are read as the same source lines. -/
theorem split_of_agree {marker s t : String} (hmarker : marker.toList ≠ [])
    (h : List.Forall₂ (Text.Agree marker.toList) (Text.lines s.toList) (Text.lines t.toList)) :
    split marker s = split marker t :=
  splitFrom_of_agree hmarker h 0

/-! ## Positions in the text -/

/-- The line at position `i` of the text has `code` for its code, and not all of it is blank. -/
def CodeAt (marker source : String) (i : Nat) (code : List Char) : Prop :=
  ∃ line, (Text.lines source.toList)[i]? = some line ∧ Text.CodePart marker.toList line code ∧
    ¬ Text.AllBlank code

/-- A line is read if its code is not all blank, with its code without blanks at the end. -/
theorem exists_ofText?_iff (hmarker : marker ≠ []) {line : List Char} {n number : Nat}
    {text : String} :
    (∃ s, ofText? marker n line = some s ∧ s.number = number ∧ s.text = text) ↔
      ∃ code, Text.CodePart marker line code ∧ ¬ Text.AllBlank code ∧ number = n ∧
        text = String.ofList (Text.trimEnd code) := by
  have hcode : (∃ code, Text.CodePart marker line code ∧ ¬ Text.AllBlank code ∧ number = n ∧
      text = String.ofList (Text.trimEnd code)) ↔
        ¬ Text.AllBlank (Text.before marker line) ∧ number = n ∧
          text = String.ofList (Text.trimEnd (Text.before marker line)) := by
    constructor
    · rintro ⟨code, hcode, hrest⟩
      rwa [Text.before_eq_of_codePart hmarker hcode]
    · intro hrest
      exact ⟨_, Text.codePart_before hmarker line, hrest⟩
  rw [hcode, ofText?]
  split
  next hnone =>
    have hblank := (Text.words_eq_nil_iff _).1 hnone
    rw [← Text.AllBlank, Text.allBlank_trimEnd] at hblank
    simp [hblank]
  next hwords =>
    have hblank : ¬ Text.AllBlank (Text.before marker line) := by
      intro hblank
      rw [← Text.allBlank_trimEnd, Text.AllBlank, ← Text.words_eq_nil_iff] at hblank
      exact hwords hblank
    simp [hblank, eq_comm]

/-- The source lines are the lines of the text that have code, numbered from one. -/
theorem exists_mem_split_iff {marker : String} (hmarker : marker.toList ≠ []) (source : String)
    (number : Nat) (text : String) :
    (∃ s ∈ split marker source, s.number = number ∧ s.text = text) ↔
      ∃ i code, number = i + 1 ∧ text = String.ofList (Text.trimEnd code) ∧
        CodeAt marker source i code := by
  constructor
  · rintro ⟨s, hs, hnumber, htext⟩
    obtain ⟨⟨line, i⟩, hline, hread⟩ := List.mem_filterMap.1 hs
    obtain ⟨code, hcode, hblank, rfl, rfl⟩ :=
      (exists_ofText?_iff hmarker).1 ⟨s, hread, hnumber, htext⟩
    exact ⟨i, code, rfl, rfl, line, List.mem_zipIdx_iff_getElem?.1 hline, hcode, hblank⟩
  · rintro ⟨i, code, rfl, rfl, line, hline, hcode, hblank⟩
    obtain ⟨s, hread, hs⟩ :=
      (exists_ofText?_iff (n := i + 1) hmarker).2 ⟨code, hcode, hblank, rfl, rfl⟩
    exact ⟨s, List.mem_filterMap.2 ⟨(line, i), List.mem_zipIdx_iff_getElem?.2 hline, hread⟩, hs⟩

/-- The numbers of source lines grow. -/
theorem pairwise_splitFrom (marker : List Char) (first : Nat) (lines : List (List Char)) :
    (splitFrom marker first lines).Pairwise (·.number < ·.number) ∧
      ∀ s ∈ splitFrom marker first lines, first < s.number := by
  induction lines generalizing first with
  | nil => exact ⟨.nil, fun s hs => absurd hs List.not_mem_nil⟩
  | cons line lines ih =>
    obtain ⟨hsorted, hlater⟩ := ih (first + 1)
    have hfirst : ∀ s, ofText? marker (first + 1) line = some s → s.number = first + 1 :=
      fun s hs => number_ofText? hs
    rw [splitFrom_cons]
    constructor
    · rw [List.pairwise_append]
      refine ⟨?_, hsorted, ?_⟩
      · cases ofText? marker (first + 1) line with
        | none => exact .nil
        | some s => exact List.pairwise_singleton _ _
      · intro s hs t ht
        rw [hfirst s (Option.mem_toList.1 hs)]
        exact hlater t ht
    · intro s hs
      rcases List.mem_append.1 hs with hs | hs
      · rw [hfirst s (Option.mem_toList.1 hs)]
        exact Nat.lt_succ_self first
      · exact Nat.lt_of_succ_lt (hlater s hs)

/-- Where the line stands in the text, and what it reads. -/
def origin (s : SourceLine) : Nat × String := (s.number, s.text)

end SourceLine

/-! ## Passes keep numbers and texts -/

/-- Where the line stands in the text, and what it reads. -/
def Line.origin (l : Line) : Nat × String := (l.number, l.text)

theorem Architecture.origin_classify (arch : Architecture) (s : SourceLine) :
    (arch.classify s).origin = s.origin := by
  have hform := arch.form_classify s
  generalize arch.classify s = l at hform
  cases hform with
  | directive | code | data | label | unknown => rfl

theorem Layout.origin_place (memorySize : Nat) (state : State) (line : Line) :
    (place memorySize state line).1.origin = line.origin := by
  obtain ⟨address, errors, hplace⟩ := place_eq memorySize state line
  rw [hplace]
  rfl

theorem Layout.map_origin_placeAll (memorySize : Nat) (state : State) (lines : List Line) :
    (placeAll memorySize state lines).1.map Line.origin = lines.map Line.origin := by
  induction lines generalizing state with
  | nil => rfl
  | cons line rest ih =>
    rw [placeAll_cons]
    dsimp only
    rw [List.map_cons, List.map_cons, origin_place, ih]

theorem Resolution.origin_resolve (symbols : SymbolTable) (line : Line) :
    (resolve symbols line).origin = line.origin := by
  rcases resolve_cases symbols line with heq | ⟨e, heq⟩ | ⟨code, v, -, heq⟩
  · rw [heq]
  · rw [heq]
    rfl
  · rw [heq]
    rfl

namespace LineError

/-- The number of another line that the problem gives. -/
def told? : LineError → Option Nat
  | .duplicateLabel _ first => some first
  | _ => none

end LineError

/-- A label that is bound once is found with its symbol. -/
theorem SymbolTable.find?_of_mem {t : SymbolTable} (hnodup : t.names.Nodup) {s : Symbol}
    (h : s ∈ t) : t.find? s.name = some s := by
  obtain ⟨found, hfound⟩ :=
    Option.isSome_iff_exists.1 (mem_names_iff.1 (List.mem_map_of_mem h))
  have hname : found.name = s.name := by simpa using List.find?_some hfound
  have hsame : found = s :=
    List.inj_on_of_nodup_map hnodup (List.mem_of_find?_eq_some hfound) h hname
  rw [hfound, hsame]

/-! ## Programs -/

namespace Program

/-- The line numbers in the problems and the symbols of a program. -/
def toldNumbers (p : Program) : List Nat :=
  p.errors.map (·.line) ++ p.errors.filterMap (·.error.told?) ++ p.symbols.map (·.line)

variable {arch : Architecture} {source : String} {memorySize : Nat}

/-- A program does not depend on more of its text than the source lines. -/
theorem assemble_of_split_eq {s t : String}
    (h : SourceLine.split arch.rules.comment s = SourceLine.split arch.rules.comment t)
    (memorySize : Nat) : assemble arch s memorySize = assemble arch t memorySize := by
  rw [assemble, assemble, h]

/-- The lines of a program stand where the source lines stand, and read the same. -/
theorem map_origin_lines (arch : Architecture) (source : String) (memorySize : Nat) :
    (assemble arch source memorySize).lines.map Line.origin =
      (SourceLine.split arch.rules.comment source).map SourceLine.origin := by
  have hresolve (symbols : SymbolTable) : Line.origin ∘ Resolution.resolve symbols = Line.origin :=
    funext (Resolution.origin_resolve symbols)
  have hclassify : Line.origin ∘ arch.classify = SourceLine.origin :=
    funext arch.origin_classify
  rw [lines_assemble, List.map_map, hresolve, Layout.map_origin_placeAll, Architecture.classified,
    List.map_map, hclassify]

/-- The lines of a program are the lines of its text that have code, numbered from one. -/
theorem exists_mem_lines_iff (hmarker : arch.rules.comment.toList ≠ []) (number : Nat)
    (text : String) :
    (∃ l ∈ (assemble arch source memorySize).lines, l.number = number ∧ l.text = text) ↔
      ∃ i code, number = i + 1 ∧ text = String.ofList (Text.trimEnd code) ∧
        SourceLine.CodeAt arch.rules.comment source i code := by
  have horigin := map_origin_lines arch source memorySize
  rw [← SourceLine.exists_mem_split_iff hmarker]
  calc (∃ l ∈ (assemble arch source memorySize).lines, l.number = number ∧ l.text = text)
      ↔ (number, text) ∈ (assemble arch source memorySize).lines.map Line.origin := by
        simp [Line.origin]
    _ ↔ (number, text) ∈
          (SourceLine.split arch.rules.comment source).map SourceLine.origin := by rw [horigin]
    _ ↔ _ := by simp [SourceLine.origin]

theorem pairwise_number_lines (arch : Architecture) (source : String) (memorySize : Nat) :
    (assemble arch source memorySize).lines.Pairwise (·.number < ·.number) := by
  have hsplit : (SourceLine.split arch.rules.comment source).Pairwise (·.number < ·.number) :=
    (SourceLine.pairwise_splitFrom _ 0 _).1
  have horigins : ((SourceLine.split arch.rules.comment source).map SourceLine.origin).Pairwise
      (·.1 < ·.1) := List.pairwise_map.2 hsplit
  rw [← map_origin_lines arch source memorySize, List.pairwise_map] at horigins
  exact horigins

/-- A problem that a label was defined before gives the number of a line of the program. -/
theorem exists_number_of_duplicate {l : Line} {name : String} {first : Nat}
    (hl : l ∈ (assemble arch source memorySize).lines)
    (h : LineError.duplicateLabel name first ∈ l.errors) :
    ∃ k ∈ (assemble arch source memorySize).lines, k.number = first := by
  have hduplicate : LineError.duplicateLabel name first ∈ l.duplicates :=
    List.mem_filter.2 ⟨h, rfl⟩
  obtain ⟨i, hi⟩ := List.mem_iff_getElem?.1 hl
  rw [duplicates_of_getElem?_lines hi, Option.mem_toList] at hduplicate
  obtain ⟨label, -, hlabel⟩ := Option.bind_eq_some_iff.1 hduplicate
  obtain ⟨k, hk, heq⟩ := Option.map_eq_some_iff.1 hlabel
  obtain ⟨-, rfl⟩ := LineError.duplicateLabel.inj heq
  exact ⟨k, List.mem_of_mem_take (List.mem_of_find?_eq_some hk), rfl⟩

/-- So does a symbol. -/
theorem exists_number_of_symbol {s : Symbol}
    (h : s ∈ (assemble arch source memorySize).symbols) :
    ∃ l ∈ (assemble arch source memorySize).lines, l.number = s.line := by
  have hempty : (({} : Layout.State).symbols.names).Nodup := List.nodup_nil
  have hnodup : (assemble arch source memorySize).symbols.names.Nodup :=
    Layout.nodup_placeAll hempty _ _
  have hfound := SymbolTable.find?_of_mem hnodup h
  rw [find?_symbols_eq] at hfound
  obtain ⟨l, hl, hsymbol⟩ := Option.bind_eq_some_iff.1 hfound
  obtain ⟨a, -, heq⟩ := Option.map_eq_some_iff.1 hsymbol
  exact ⟨l, List.mem_of_find?_eq_some hl, congrArg Symbol.line heq⟩

/-- Every number that is told is the number of a line of the program. -/
theorem exists_number_of_mem_toldNumbers {number : Nat}
    (h : number ∈ (assemble arch source memorySize).toldNumbers) :
    ∃ l ∈ (assemble arch source memorySize).lines, l.number = number := by
  have herror {e : NumberedError} (he : e ∈ (assemble arch source memorySize).errors) :
      ∃ l ∈ (assemble arch source memorySize).lines, l.number = e.line ∧ e.error ∈ l.errors := by
    obtain ⟨l, hl, hel⟩ := List.mem_flatMap.1 he
    obtain ⟨error, herror, rfl⟩ := List.mem_map.1 hel
    exact ⟨l, hl, rfl, herror⟩
  rcases List.mem_append.1 h with herrors | hsymbol
  · rcases List.mem_append.1 herrors with hline | hfirst
    · obtain ⟨e, he, rfl⟩ := List.mem_map.1 hline
      obtain ⟨l, hl, hnumber, -⟩ := herror he
      exact ⟨l, hl, hnumber⟩
    · obtain ⟨e, he, hnumber⟩ := List.mem_filterMap.1 hfirst
      obtain ⟨l, hl, -, hproblem⟩ := herror he
      -- only the first definition of a label is told in a problem
      cases hkind : e.error with
      | duplicateLabel name first =>
        rw [hkind] at hnumber hproblem
        obtain rfl := Option.some.inj hnumber
        exact exists_number_of_duplicate hl hproblem
      | _ => simp [hkind, LineError.told?] at hnumber
  · obtain ⟨s, hs, rfl⟩ := List.mem_map.1 hsymbol
    exact exists_number_of_symbol hs

/-- For every architecture whose comment marker is not empty and holds no blank: texts are assembled
to the same program if they have as many lines and the lines agree, up to blanks at the end, on the
part in front of the first marker. So they are if comments are added, changed or deleted, and if
every line feed is replaced by a carriage return and a line feed. The lines of a program are those
of the text that have code that is not all blank, in order, each with this code up to blanks at its
end and with its position in the whole text, counted from one. The line numbers in problems and
symbols are those of such lines. -/
theorem assemble_ignores_comments (arch : Architecture) (memorySize : Nat)
    (hmarker : arch.rules.comment.toList ≠ [])
    (hsolid : ∀ c ∈ arch.rules.comment.toList, Text.isBlank c = false) :
    let marker := arch.rules.comment.toList
    (∀ s t : String,
      List.Forall₂ (Text.Agree marker) (Text.lines s.toList) (Text.lines t.toList) →
        assemble arch s memorySize = assemble arch t memorySize) ∧
    (∀ s t : String,
      List.Forall₂ (Text.CommentEdit marker) (Text.lines s.toList) (Text.lines t.toList) →
        assemble arch s memorySize = assemble arch t memorySize) ∧
    (∀ s : String, assemble arch (String.ofList (Text.crlf s.toList)) memorySize =
      assemble arch s memorySize) ∧
    ∀ s : String,
      let p := assemble arch s memorySize
      p.lines.Pairwise (·.number < ·.number) ∧
      (∀ number text, (∃ l ∈ p.lines, l.number = number ∧ l.text = text) ↔
        ∃ i code, number = i + 1 ∧ text = String.ofList (Text.trimEnd code) ∧
          SourceLine.CodeAt arch.rules.comment s i code) ∧
      ∀ number ∈ p.toldNumbers, ∃ l ∈ p.lines, l.number = number := by
  intro marker
  have hagree : ∀ s t : String,
      List.Forall₂ (Text.Agree marker) (Text.lines s.toList) (Text.lines t.toList) →
        assemble arch s memorySize = assemble arch t memorySize := by
    intro s t h
    exact assemble_of_split_eq (SourceLine.split_of_agree hmarker h) memorySize
  refine ⟨hagree, ?_, ?_, ?_⟩
  · intro s t h
    apply hagree
    exact h.imp fun _ _ hedit => hedit.agree hsolid hmarker
  · intro s
    apply hagree
    rw [String.toList_ofList]
    exact Text.forall₂_lines_crlf hsolid hmarker s.toList
  · intro s p
    refine ⟨pairwise_number_lines arch s memorySize, ?_, ?_⟩
    · intro number text
      exact exists_mem_lines_iff hmarker number text
    · intro number hnumber
      exact exists_number_of_mem_toldNumbers hnumber

/-- A comment is deleted and another one added, and then the line ends are changed: the program has
its instruction at the third line all the same. -/
theorem assemble_ignores_comments_edu1 :
    let s := "here: ; top\n\nJMP here\n"
    let t := "here: \n\nJMP here;;b\n"
    let p := assemble Edu1.architecture s 16
    p = assemble Edu1.architecture t 16 ∧
      assemble Edu1.architecture (String.ofList (Text.crlf s.toList)) 16 = p ∧
      ∃ l ∈ p.lines, l.number = 3 ∧ l.text = "JMP here" := by
  intro s t p
  have hsolid : ∀ c ∈ [';'], Text.isBlank c = false := List.forall_mem_singleton.2 rfl
  obtain ⟨-, hedit, hcrlf, hlines⟩ :=
    assemble_ignores_comments Edu1.architecture 16 (by decide) hsolid
  obtain ⟨-, hnumbers, -⟩ := hlines s
  refine ⟨hedit s t ?_, hcrlf s, (hnumbers 3 "JMP here").2 ?_⟩
  · have hs : Text.lines s.toList = ["here: ; top".toList, [], "JMP here".toList] := by
      decide
    have ht : Text.lines t.toList = ["here: ".toList, [], "JMP here;;b".toList] := by
      decide
    have hdelete : Text.CommentEdit [';'] "here: ; top".toList "here: ".toList :=
      @Text.CommentEdit.delete [';'] "here: ".toList " top".toList (by decide)
    have hadd : Text.CommentEdit [';'] "JMP here".toList "JMP here;;b".toList :=
      @Text.CommentEdit.add [';'] "JMP here".toList [] ";b".toList (by decide) (by decide)
        (.inr (by decide))
    rw [hs, ht]
    exact .cons hdelete (.cons (.keep []) (.cons hadd .nil))
  · have hcode : Text.CodePart [';'] "JMP here".toList "JMP here".toList :=
      .inl ⟨by decide, rfl⟩
    exact ⟨2, "JMP here".toList, rfl, by decide, "JMP here".toList, by decide, hcode,
      by decide⟩

end Program

end Breadboard
