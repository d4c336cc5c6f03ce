import Breadboard.Proofs.Assembler.LabelNames
import Breadboard.Proofs.Assembler.Loading

/-!
# Edits of one line

Two source texts that agree except in one line are read as the same source lines around that line
(`SourceLine.split_eq_append`). What the line does to the others it does through the state in which
it leaves the walk over the lines: where the cursor is and which labels are bound. So an edit that
leaves this state as it was changes no other line and no symbol (`Program.assemble_around`). A line
that is not recognised leaves the state alone, and an instruction takes as much room whatever label
its operand names in an addressing mode (`Architecture.Relabels`), so neither can disturb the rest
of the program (`Program.assemble_of_edit`).
-/

namespace Breadboard

/-! ## Texts that differ in one line -/

namespace Text

variable {n : Nat} {a b : List Char}

/-- The two texts have the same lines but for the one at position `n`. -/
def AgreeExcept (n : Nat) (a b : List Char) : Prop :=
  ∀ j, j ≠ n → (lines b)[j]? = (lines a)[j]?

/-- So they do where a line was replaced. -/
theorem agreeExcept_of_set (line : List Char) (h : lines b = (lines a).set n line) :
    AgreeExcept n a b := by
  intro j hj
  rw [h, List.getElem?_set_ne hj.symm]

theorem AgreeExcept.take_eq (h : AgreeExcept n a b) : (lines b).take n = (lines a).take n := by
  apply List.ext_getElem?
  intro j
  rw [List.getElem?_take, List.getElem?_take]
  split
  · exact h j (by omega)
  · rfl

theorem AgreeExcept.drop_eq (h : AgreeExcept n a b) :
    (lines b).drop (n + 1) = (lines a).drop (n + 1) := by
  apply List.ext_getElem?
  intro j
  rw [List.getElem?_drop, List.getElem?_drop]
  exact h _ (by omega)

end Text

namespace SourceLine

/-- The line at position `n` of a text, if it has a word. -/
def lineAt? (marker source : String) (n : Nat) : Option SourceLine :=
  (Text.lines source.toList)[n]?.bind (ofText? marker.toList (n + 1))

theorem number_lineAt? {marker source : String} {n : Nat} {s : SourceLine}
    (h : lineAt? marker source n = some s) : s.number = n + 1 := by
  obtain ⟨line, -, hline⟩ := Option.bind_eq_some_iff.1 h
  exact number_ofText? hline

/-- The lines that have a word, where the first one is at position `first`. -/
def splitFrom (marker : List Char) (first : Nat) (lines : List (List Char)) : List SourceLine :=
  (lines.zipIdx first).filterMap fun (line, i) => ofText? marker (i + 1) line

/-- A text is read as the lines in front of a position, the line there and the lines behind it. -/
theorem split_eq_append (marker source : String) (n : Nat) :
    split marker source =
      splitFrom marker.toList 0 ((Text.lines source.toList).take n) ++
        (lineAt? marker source n).toList ++
          splitFrom marker.toList (n + 1) ((Text.lines source.toList).drop (n + 1)) := by
  have hsplit : split marker source = splitFrom marker.toList 0 (Text.lines source.toList) := rfl
  rw [hsplit, lineAt?]
  generalize Text.lines source.toList = lines
  cases hline : lines[n]? with
  | none =>
    have hlength := List.getElem?_eq_none_iff.1 hline
    rw [List.take_of_length_le hlength, List.drop_eq_nil_of_le (by omega)]
    simp [splitFrom]
  | some line =>
    obtain ⟨hn, hget⟩ := List.getElem?_eq_some_iff.1 hline
    have hlines : lines = lines.take n ++ line :: lines.drop (n + 1) := by
      rw [← hget, List.getElem_cons_drop, List.take_append_drop]
    have hlength : (lines.take n).length = n := List.length_take_of_le hn.le
    calc splitFrom marker.toList 0 lines
        = splitFrom marker.toList 0 (lines.take n ++ line :: lines.drop (n + 1)) := by
          rw [← hlines]
      _ = _ := by
          rw [splitFrom, List.zipIdx_append, List.filterMap_append, hlength, List.zipIdx_cons,
            List.filterMap_cons, Option.bind_some]
          cases hread : ofText? marker.toList (n + 1) line with
          | none => simp [splitFrom, hread]
          | some s => simp [splitFrom, hread]

end SourceLine

/-! ## Lines that leave the walk as it was -/

namespace Layout

/-- An instruction is placed where the cursor is. -/
theorem address_place_of_code {line : Line} {c : CodeLine} (hbody : line.body = .code c)
    (memorySize : Nat) (state : State) :
    (place memorySize state line).1.address = some state.cursor := by
  rw [address_place (by rw [Line.isStored, hbody, Bool.true_or]), target, hbody]

theorem place_of_unknown {line : Line} (h : line.body = .unknown) (memorySize : Nat)
    (state : State) : place memorySize state line = (line, state) := by
  rw [place, h]

/-- What is bound depends on no more of a line than its label and its number. -/
theorem snd_bind_congr {line line' : Line} (hnumber : line'.number = line.number)
    (hlabel : line'.label = line.label) (symbols : SymbolTable) (address : Int) :
    (bind symbols line' address).2 = (bind symbols line address).2 := by
  rw [bind, bind, hlabel]
  split
  · rfl
  next name _ =>
    cases symbols.find? name with
    | some s => rfl
    | none =>
      dsimp only
      rw [hnumber]

/-- Instructions of one size that define one label leave the same state. -/
theorem snd_place_of_code {line line' : Line} {c c' : CodeLine} (hbody : line.body = .code c)
    (hbody' : line'.body = .code c') (hnumber : line'.number = line.number)
    (hlabel : line'.label = line.label) (hfootprint : line'.footprint = line.footprint)
    (memorySize : Nat) (state : State) :
    (place memorySize state line').2 = (place memorySize state line).2 := by
  have hbind : (bind state.symbols { line' with address := some state.cursor } state.cursor).2 =
      (bind state.symbols { line with address := some state.cursor } state.cursor).2 := by
    apply snd_bind_congr
    · exact hnumber
    · exact hlabel
  rw [place, place, hbody, hbody']
  dsimp only
  rw [placeAt, placeAt]
  dsimp only
  rw [hfootprint, hbind]

end Layout

/-! ## What the words of a line decide -/

namespace Keyed

variable {α : Type} {meaning : String → Option α} {words : List String} {k : Keyed α}

/-- A keyword has at most one word in front of it. -/
theorem words_of_find? (h : find? meaning words = some k) :
    words = k.before.toList ++ k.keyword :: k.arguments := by
  cases words with
  | nil => simp [find?] at h
  | cons first rest =>
    simp only [find?] at h
    split at h
    · obtain rfl := Option.some.inj h
      rfl
    · cases rest with
      | nil => simp at h
      | cons second rest =>
        obtain ⟨m, -, rfl⟩ := Option.map_eq_some_iff.1 h
        rfl

/-- Other words behind a keyword do not change what is found. -/
theorem find?_arguments (h : find? meaning words = some k) (arguments : List String) :
    find? meaning (k.before.toList ++ k.keyword :: arguments) = some { k with arguments } := by
  cases words with
  | nil => simp [find?] at h
  | cons first rest =>
    simp only [find?] at h
    split at h
    next m hm =>
      obtain rfl := Option.some.inj h
      simp [find?, hm]
    next hnone =>
      cases rest with
      | nil => simp at h
      | cons second rest =>
        obtain ⟨m, hm, rfl⟩ := Option.map_eq_some_iff.1 h
        simp [find?, hnone, hm]

end Keyed

namespace Architecture

variable {arch : Architecture}

/-- A line that is not recognised has no other problem than that. -/
theorem Form.eq_of_unknown {s : SourceLine} {l : Line} (h : arch.Form s l)
    (hunknown : l.body = .unknown) :
    l = s.toLine.report (.invalidMnemonic (s.words.head?.getD "")) := by
  cases h with
  | directive | code | data | label => simp at hunknown
  | unknown => rfl

/-- The source line `s'` is the instruction `s` with another word for its operand, and in both the
operand names a label in the same addressing mode. -/
structure Relabels (arch : Architecture) (s s' : SourceLine) : Prop where
  words : ∃ k text text' extra, Keyed.find? arch.mnemonic? s.words = some k ∧
    k.arguments = text :: extra ∧ s'.words = k.before.toList ++ k.keyword :: text' :: extra
  operands : ∃ c o name c' o' name', (arch.classify s).body = .code c ∧ c.operand = some o ∧
    o.label = some name ∧ (arch.classify s').body = .code c' ∧ c'.operand = some o' ∧
    o'.label = some name' ∧ o'.mode = o.mode

/-- The word in front of the instruction stays where it is. -/
theorem Relabels.frontWord?_eq {s s' : SourceLine} (h : arch.Relabels s s') :
    arch.frontWord? s' = arch.frontWord? s := by
  obtain ⟨k, text, text', extra, hk, harguments, hwords⟩ := h.words
  have hk' := Keyed.find?_arguments hk (text' :: extra)
  have hhead : s'.words.head? = s.words.head? := by
    rw [hwords, Keyed.words_of_find? hk]
    cases k.before with
    | none => rfl
    | some word => rfl
  rw [frontWord?, frontWord?, hhead, hk]
  rw [← hwords] at hk'
  rw [hk']

/-- An instruction has the word in front of it for its label. -/
theorem label_of_code {s : SourceLine} {c : CodeLine} (hbody : (arch.classify s).body = .code c) :
    (arch.classify s).label = (arch.frontWord? s).map labelOfWord := by
  rcases arch.label_classify_cases s with ⟨-, hlabel⟩ | ⟨hstored, -, -⟩
  · exact hlabel
  · simp [Line.isStored, hbody] at hstored

theorem Relabels.exists_code {s s' : SourceLine} (h : arch.Relabels s s') :
    ∃ c c', (arch.classify s).body = .code c ∧ (arch.classify s').body = .code c' := by
  obtain ⟨c, o, name, c', o', name', hbody, -, -, hbody', -⟩ := h.operands
  exact ⟨c, c', hbody, hbody'⟩

/-- The line defines the label that it defined before. -/
theorem Relabels.label_eq {s s' : SourceLine} (h : arch.Relabels s s') :
    (arch.classify s').label = (arch.classify s).label := by
  obtain ⟨c, c', hbody, hbody'⟩ := h.exists_code
  rw [label_of_code hbody, label_of_code hbody', h.frontWord?_eq]

/-- The instruction takes the room that it took before. -/
theorem Relabels.footprint_eq {s s' : SourceLine} (h : arch.Relabels s s') :
    (arch.classify s').footprint = (arch.classify s).footprint := by
  obtain ⟨c, o, name, c', o', name', hbody, ho, -, hbody', ho', -, hmode⟩ := h.operands
  obtain ⟨hsize, -, hread⟩ := (classified_classify s).code c hbody
  obtain ⟨hsize', -, hread'⟩ := (classified_classify s').code c' hbody'
  obtain ⟨text, htext⟩ := hread o ho
  obtain ⟨text', htext'⟩ := hread' o' ho'
  obtain ⟨m, hm, hwidth⟩ := exists_mode_of_operandOf htext
  obtain ⟨m', hm', hwidth'⟩ := exists_mode_of_operandOf htext'
  -- the mode decides how wide the operand is
  obtain rfl : m' = m := Fin.ext (by rw [← hm', ← hm, hmode])
  rw [Line.footprint, Line.footprint, hbody, hbody']
  dsimp only
  rw [CodeLine.footprint, CodeLine.footprint, ho, ho', hsize, hsize', Option.elim_some,
    Option.elim_some, hwidth, hwidth']

end Architecture

/-! ## Programs -/

namespace Program

variable {arch : Architecture} {source source' : String} {memorySize n : Nat}

/-- The lines of a program are those in front of some source lines, these lines and those behind
them, each part placed in the state that the one before it leaves. -/
theorem lines_of_classified {front middle back : List Line}
    (h : arch.classified source = front ++ middle ++ back) (memorySize : Nat) :
    let start := (Layout.placeAll memorySize {} front).2
    let stop := (Layout.placeAll memorySize start middle).2
    let p := assemble arch source memorySize
    p.symbols = (Layout.placeAll memorySize stop back).2.symbols ∧
      p.lines = (Layout.placeAll memorySize {} front).1.map (Resolution.resolve p.symbols) ++
        (Layout.placeAll memorySize start middle).1.map (Resolution.resolve p.symbols) ++
          (Layout.placeAll memorySize stop back).1.map (Resolution.resolve p.symbols) := by
  intro start stop p
  have hplaced : Layout.placeAll memorySize {} (arch.classified source) =
      ((Layout.placeAll memorySize {} front).1 ++ (Layout.placeAll memorySize start middle).1 ++
        (Layout.placeAll memorySize stop back).1, (Layout.placeAll memorySize stop back).2) := by
    rw [h, Layout.placeAll_append, Layout.placeAll_append]
  constructor
  · rw [symbols_assemble, hplaced]
  · rw [lines_assemble, hplaced, List.map_append, List.map_append]

/-- Programs that differ in some source lines only have the same lines around them and the same
symbols, if these source lines leave the walk over the lines in one state. -/
theorem assemble_around {front middle middle' back : List Line}
    (h : arch.classified source = front ++ middle ++ back)
    (h' : arch.classified source' = front ++ middle' ++ back)
    (hstate : (Layout.placeAll memorySize (Layout.placeAll memorySize {} front).2 middle').2 =
      (Layout.placeAll memorySize (Layout.placeAll memorySize {} front).2 middle).2) :
    let start := (Layout.placeAll memorySize {} front).2
    let p := assemble arch source memorySize
    let p' := assemble arch source' memorySize
    p'.symbols = p.symbols ∧ ∃ front back,
      p.lines = front ++ (Layout.placeAll memorySize start middle).1.map
        (Resolution.resolve p.symbols) ++ back ∧
      p'.lines = front ++ (Layout.placeAll memorySize start middle').1.map
        (Resolution.resolve p.symbols) ++ back := by
  intro start p p'
  obtain ⟨hsymbols, hlines⟩ := lines_of_classified h memorySize
  obtain ⟨hsymbols', hlines'⟩ := lines_of_classified h' memorySize
  have hsame : p'.symbols = p.symbols := by rw [hsymbols, hsymbols', hstate]
  rw [hsame, hstate] at hlines'
  exact ⟨hsame, _, _, hlines, hlines'⟩

/-- The lines of texts that agree except at one position, around that position. -/
theorem exists_classified_of_agreeExcept (arch : Architecture)
    (h : Text.AgreeExcept n source.toList source'.toList) :
    ∃ front back,
      arch.classified source =
        front ++ (SourceLine.lineAt? arch.rules.comment source n).toList.map arch.classify ++
          back ∧
      arch.classified source' =
        front ++ (SourceLine.lineAt? arch.rules.comment source' n).toList.map arch.classify ++
          back := by
  let marker := arch.rules.comment.toList
  refine ⟨(SourceLine.splitFrom marker 0 ((Text.lines source.toList).take n)).map arch.classify,
    (SourceLine.splitFrom marker (n + 1) ((Text.lines source.toList).drop (n + 1))).map
      arch.classify, ?_, ?_⟩
  · rw [Architecture.classified, SourceLine.split_eq_append _ _ n, List.map_append,
      List.map_append]
  · rw [Architecture.classified, SourceLine.split_eq_append _ _ n, List.map_append,
      List.map_append, h.take_eq, h.drop_eq]

/-- Without a line that is not recognised, a program is the same but for this line. -/
theorem assemble_without_unknown (memorySize : Nat)
    (hagree : Text.AgreeExcept n source.toList source'.toList) {s : SourceLine}
    (hs : SourceLine.lineAt? arch.rules.comment source n = some s)
    (hunknown : (arch.classify s).body = .unknown)
    (hblank : SourceLine.lineAt? arch.rules.comment source' n = none) :
    (assemble arch source' memorySize).symbols = (assemble arch source memorySize).symbols ∧
      ∃ front back,
        (assemble arch source memorySize).lines = front ++ arch.classify s :: back ∧
        (assemble arch source' memorySize).lines = front ++ back := by
  obtain ⟨before, after, hbefore, hafter⟩ := exists_classified_of_agreeExcept arch hagree
  rw [hs, Option.toList_some, List.map_singleton] at hbefore
  rw [hblank, Option.toList_none, List.map_nil] at hafter
  have hplace (state : Layout.State) :
      Layout.placeAll memorySize state [arch.classify s] = ([arch.classify s], state) := by
    rw [Layout.placeAll, Layout.place_of_unknown hunknown]
    rfl
  -- the walk goes on from the state in which it came to the line
  obtain ⟨hsymbols, front, back, hlines, hlines'⟩ :=
    assemble_around hbefore hafter (by rw [hplace]; rfl)
  have hnamed : (arch.classify s).named? = none := by rw [Line.named?, hunknown]
  rw [hplace, List.map_singleton, Resolution.resolve_of_named? hnamed, List.append_assoc,
    List.singleton_append] at hlines
  rw [Layout.placeAll, List.map_nil, List.append_nil] at hlines'
  exact ⟨hsymbols, front, back, hlines, hlines'⟩

/-- With another label for the operand of an instruction, a program is the same but for this
line. -/
theorem assemble_relabelled (memorySize : Nat)
    (hagree : Text.AgreeExcept n source.toList source'.toList) {s s' : SourceLine}
    (hs : SourceLine.lineAt? arch.rules.comment source n = some s)
    (hs' : SourceLine.lineAt? arch.rules.comment source' n = some s')
    (hrelabels : arch.Relabels s s') :
    (assemble arch source' memorySize).symbols = (assemble arch source memorySize).symbols ∧
      ∃ front back state,
        (assemble arch source memorySize).lines =
          front ++ Resolution.resolve (assemble arch source memorySize).symbols
            (Layout.place memorySize state (arch.classify s)).1 :: back ∧
        (assemble arch source' memorySize).lines =
          front ++ Resolution.resolve (assemble arch source memorySize).symbols
            (Layout.place memorySize state (arch.classify s')).1 :: back := by
  obtain ⟨before, after, hbefore, hafter⟩ := exists_classified_of_agreeExcept arch hagree
  rw [hs, Option.toList_some, List.map_singleton] at hbefore
  rw [hs', Option.toList_some, List.map_singleton] at hafter
  obtain ⟨c, c', hbody, hbody'⟩ := hrelabels.exists_code
  have hnumber : (arch.classify s').number = (arch.classify s).number := by
    rw [(arch.form_classify s').number_eq, (arch.form_classify s).number_eq,
      SourceLine.number_lineAt? hs, SourceLine.number_lineAt? hs']
  have hplace (state : Layout.State) (line : Line) :
      Layout.placeAll memorySize state [line] =
        ([(Layout.place memorySize state line).1], (Layout.place memorySize state line).2) := rfl
  -- both instructions leave the walk in the same state
  have hstate (state : Layout.State) :
      (Layout.place memorySize state (arch.classify s')).2 =
        (Layout.place memorySize state (arch.classify s)).2 :=
    Layout.snd_place_of_code hbody hbody' hnumber hrelabels.label_eq hrelabels.footprint_eq
      memorySize state
  obtain ⟨hsymbols, front, back, hlines, hlines'⟩ :=
    assemble_around hbefore hafter (by rw [hplace, hplace]; exact hstate _)
  rw [hplace, List.map_singleton, List.append_assoc, List.singleton_append] at hlines hlines'
  exact ⟨hsymbols, front, back, _, hlines, hlines'⟩

/-- Take two source texts that agree except in one line. If this line is not recognised and has no
word in the second text, the second program is the first without this line and its only problem:
all other lines with their problems, the symbols, and what is stored are the same. If this line is
an instruction whose operand names another label in the second text, in the same addressing mode,
then all other lines and the symbols are the same, and so are the address of this line, the room it
takes and the label it defines, whether the label that it names is defined and fits or not. -/
theorem assemble_of_edit (arch : Architecture) (memorySize : Nat)
    (hagree : Text.AgreeExcept n source.toList source'.toList) {s : SourceLine}
    (hs : SourceLine.lineAt? arch.rules.comment source n = some s) :
    let p := assemble arch source memorySize
    let p' := assemble arch source' memorySize
    ((arch.classify s).body = .unknown →
      SourceLine.lineAt? arch.rules.comment source' n = none →
        ∃ (front : List Line) (u : Line) (back : List Line) (word : String),
          p.lines = front ++ u :: back ∧ u.number = n + 1 ∧
          u.body = .unknown ∧ u.errors = [.invalidMnemonic word] ∧ p'.lines = front ++ back ∧
          p'.symbols = p.symbols ∧
          p'.lines.flatMap Line.bytes = p.lines.flatMap Line.bytes ∧ p'.writes = p.writes) ∧
      ∀ s', SourceLine.lineAt? arch.rules.comment source' n = some s' → arch.Relabels s s' →
        ∃ (front : List Line) (u u' : Line) (back : List Line),
          p.lines = front ++ u :: back ∧ p'.lines = front ++ u' :: back ∧
          p'.symbols = p.symbols ∧ u.number = n + 1 ∧ u'.number = n + 1 ∧ u'.label = u.label ∧
          u'.address = u.address ∧ u'.footprint = u.footprint := by
  dsimp only
  constructor
  · intro hunknown hblank
    obtain ⟨hsymbols, front, back, hlines, hlines'⟩ :=
      assemble_without_unknown memorySize hagree hs hunknown hblank
    have hstored : (arch.classify s).isStored = false := by rw [Line.isStored, hunknown]
    have hbytes : (arch.classify s).bytes = [] := by rw [Line.bytes, hunknown]
    have hwrites := Line.writes_of_not_isStored hstored
    refine ⟨front, arch.classify s, back, s.words.head?.getD "", hlines, ?_, hunknown, ?_, hlines',
      hsymbols, ?_, ?_⟩
    · rw [(arch.form_classify s).number_eq, SourceLine.number_lineAt? hs]
    · rw [(arch.form_classify s).eq_of_unknown hunknown]
      rfl
    · rw [hlines, hlines', List.flatMap_append, List.flatMap_append, List.flatMap_cons, hbytes,
        List.nil_append]
    · rw [writes, writes, hlines, hlines', List.flatMap_append, List.flatMap_append,
        List.flatMap_cons, hwrites, List.nil_append]
  · intro s' hs' hrelabels
    obtain ⟨hsymbols, front, back, state, hlines, hlines'⟩ :=
      assemble_relabelled memorySize hagree hs hs' hrelabels
    obtain ⟨c, c', hbody, hbody'⟩ := hrelabels.exists_code
    refine ⟨front, _, _, back, hlines, hlines', hsymbols, ?_, ?_, ?_, ?_, ?_⟩
    · rw [Resolution.number_resolve, Layout.number_place, (arch.form_classify s).number_eq,
        SourceLine.number_lineAt? hs]
    · rw [Resolution.number_resolve, Layout.number_place, (arch.form_classify s').number_eq,
        SourceLine.number_lineAt? hs']
    · rw [Resolution.label_resolve, Resolution.label_resolve, Layout.label_place,
        Layout.label_place, hrelabels.label_eq]
    · rw [Resolution.address_resolve, Resolution.address_resolve,
        Layout.address_place_of_code hbody, Layout.address_place_of_code hbody']
    · rw [Resolution.footprint_resolve, Resolution.footprint_resolve, Layout.footprint_place,
        Layout.footprint_place, hrelabels.footprint_eq]

/-- The line that jumps to `target`. -/
def jumpTo (target : String) : SourceLine :=
  { number := 3, text := "JMP " ++ target, words := ["JMP", target] }

theorem relabels_jumpTo : Edu1.architecture.Relabels (jumpTo "loop") (jumpTo "nowhere") := by
  constructor
  · have hfind : (Keyed.find? Edu1.architecture.mnemonic? (jumpTo "loop").words).map
        (fun k => (k.before, k.keyword, k.arguments)) = some (none, "JMP", ["loop"]) := by
      decide
    obtain ⟨k, hk, hparts⟩ := Option.map_eq_some_iff.1 hfind
    obtain ⟨hbefore, hrest⟩ := Prod.mk.inj hparts
    obtain ⟨hkeyword, harguments⟩ := Prod.mk.inj hrest
    refine ⟨k, "loop", "nowhere", [], hk, harguments, ?_⟩
    rw [hbefore, hkeyword]
    rfl
  · let jump (name : String) : CodeLine :=
      { mnemonic := "JMP", size := 1, relative := false, opcode := some 9
        operand := some { text := name, mode := 1, label := some name, size := 1 } }
    exact ⟨jump "loop", _, "loop", jump "nowhere", _, "nowhere", by decide, rfl, rfl,
      by decide, rfl, rfl, rfl⟩

/-- A line that is not recognised is removed, and a jump goes to a label that is not defined. -/
theorem assemble_of_edit_edu1 :
    let p := assemble Edu1.architecture "loop: DEC A\nBOGUS\nJMP loop\n.END\n" 16
    let removed := assemble Edu1.architecture "loop: DEC A\n\nJMP loop\n.END\n" 16
    let relabelled := assemble Edu1.architecture "loop: DEC A\nBOGUS\nJMP nowhere\n.END\n" 16
    (removed.symbols = p.symbols ∧ removed.writes = p.writes) ∧
      relabelled.symbols = p.symbols ∧ ∃ (front : List Line) (u u' : Line) (back : List Line),
        p.lines = front ++ u :: back ∧ relabelled.lines = front ++ u' :: back ∧ u'.number = 3 := by
  intro p removed relabelled
  constructor
  · have hagree : Text.AgreeExcept 1 "loop: DEC A\nBOGUS\nJMP loop\n.END\n".toList
        "loop: DEC A\n\nJMP loop\n.END\n".toList :=
      Text.agreeExcept_of_set [] (by decide)
    have hs : SourceLine.lineAt? Edu1.architecture.rules.comment
        "loop: DEC A\nBOGUS\nJMP loop\n.END\n" 1 = some ⟨2, "BOGUS", ["BOGUS"]⟩ := by
      decide
    obtain ⟨hblank, -⟩ := assemble_of_edit Edu1.architecture 16 hagree hs
    obtain ⟨front, u, back, word, -, -, -, -, -, hsymbols, -, hwrites⟩ :=
      hblank (by decide) (by decide)
    exact ⟨hsymbols, hwrites⟩
  · have hagree : Text.AgreeExcept 2 "loop: DEC A\nBOGUS\nJMP loop\n.END\n".toList
        "loop: DEC A\nBOGUS\nJMP nowhere\n.END\n".toList :=
      Text.agreeExcept_of_set "JMP nowhere".toList (by decide)
    have hs : SourceLine.lineAt? Edu1.architecture.rules.comment
        "loop: DEC A\nBOGUS\nJMP loop\n.END\n" 2 = some (jumpTo "loop") := by decide
    obtain ⟨-, hrelabel⟩ := assemble_of_edit Edu1.architecture 16 hagree hs
    obtain ⟨front, u, u', back, hlines, hlines', hsymbols, -, hnumber, -⟩ :=
      hrelabel (jumpTo "nowhere") (by decide) relabels_jumpTo
    exact ⟨hsymbols, front, u, u', back, hlines, hlines', hnumber⟩

end Program

end Breadboard
