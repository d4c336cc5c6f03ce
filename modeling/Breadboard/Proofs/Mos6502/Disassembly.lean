import Breadboard.Proofs.Assembler.Sequence
import Breadboard.Proofs.Mos6502.Operands
import Breadboard.Proofs.Text.Words

/-!
# Assembling a disassembly of the 6502

A statement is an entry of the opcode table with the value of its operand. Written out in the usual
notation it is one line of source text, which the assembler takes for exactly that instruction and
that value (`Statement.classify_words`). A program of statements behind an `ORG` directive is
therefore assembled without a problem, and loading it into empty memory puts the bytes of the
statements from the origin on and nothing anywhere else (`load_disassembly`).
-/

namespace Breadboard.Mos6502

/-- How an operand with the value `v` is written, unless there is none. -/
def Addressing.operand? (v : Int) : Addressing → Option String
  | .implied => none
  | .accumulator => some "A"
  | .immediate => some ("#$" ++ Word.hex v 1)
  | .zeroPage => some ("$" ++ Word.hex v 1)
  | .zeroPageX => some ("$" ++ Word.hex v 1 ++ ",X")
  | .zeroPageY => some ("$" ++ Word.hex v 1 ++ ",Y")
  | .absolute => some ("$" ++ Word.hex v 2)
  | .absoluteX => some ("$" ++ Word.hex v 2 ++ ",X")
  | .absoluteY => some ("$" ++ Word.hex v 2 ++ ",Y")
  | .indirect => some ("($" ++ Word.hex v 2 ++ ")")
  | .indirectX => some ("($" ++ Word.hex v 1 ++ ",X)")
  | .indirectY => some ("($" ++ Word.hex v 1 ++ "),Y")

/-- An entry of the opcode table with the value of its operand. -/
structure Statement where
  entry : Entry
  value : Nat
  deriving DecidableEq, Repr

namespace Statement

/-- The entry is one of the table, and the value fits its operand. -/
structure Valid (s : Statement) : Prop where
  mem : s.entry ∈ opcodes
  value_lt : s.value < Word.modulus s.entry.addressing.width

/-- The statement as a line of source text. -/
def text (s : Statement) : String :=
  match s.entry.addressing.operand? s.value with
  | none => s.entry.mnemonic
  | some operand => s.entry.mnemonic ++ " " ++ operand

/-- The opcode, followed by the value with its most significant byte first. -/
def bytes (s : Statement) : List UInt8 :=
  Word.toBytes s.entry.opcode 1 ++ Word.toBytes s.value s.entry.addressing.width

end Statement

/-- The source text of statements from an origin on, one line each. -/
def disassembly (origin : Nat) (ss : List Statement) : String :=
  String.join ((("ORG $" ++ Word.hex origin 2) :: ss.map Statement.text).map (· ++ "\n"))

/-! ## The table -/

/-- The mnemonics of the table are words in upper case. -/
theorem mnemonic_of_mem : ∀ e ∈ opcodes,
    Text.upper e.mnemonic = e.mnemonic ∧ Text.IsPlain ';' e.mnemonic.toList := by
  decide +kernel

/-- No mnemonic is a directive. -/
theorem section?_of_mem : ∀ e ∈ opcodes, (architecture.section? e.mnemonic).isNone = true := by
  decide +kernel

/-- A mnemonic has one entry for an addressing mode. -/
theorem find?_of_mem : ∀ e ∈ opcodes,
    ((architecture.named e.mnemonic).find? fun i =>
      i.mode.map (·.val) = e.addressing.mode?.map (·.val)).map (·.opcode) = some e.opcode := by
  decide +kernel

theorem mnemonic?_of_mem {e : Entry} (h : e ∈ opcodes) :
    architecture.mnemonic? e.mnemonic = some (architecture.named e.mnemonic) := by
  have hfind := find?_of_mem e h
  rw [Architecture.mnemonic?]
  split
  next hnil => simp [hnil] at hfind
  next => rfl

/-! ## Operands -/

/-- An operand is a number between the texts of its mode, or the accumulator. -/
theorem operand?_of_around {a : Addressing} {front back : String}
    (ha : a.around = some (front, back)) {n : Nat} (hn : n < Word.modulus a.width) :
    a.operand? n = some (numberText front back (Word.hexChars n a.width)) := by
  have hhex : (Word.hex n a.width).toList = Word.hexChars n a.width := by
    have hwidth := Addressing.width_of_around ha
    exact Word.toList_hex (by omega) (by omega) hn
  cases a with
  | implied | accumulator => simp [Addressing.around] at ha
  | _ =>
    obtain ⟨rfl, rfl⟩ := Prod.mk.inj (Option.some.inj ha)
    rw [Addressing.operand?, Option.some.injEq, ← String.toList_inj, numberText,
      String.toList_ofList, ← hhex]
    simp only [String.toList_append, List.append_assoc]
    simp
    rfl

/-- An operand of the table is read as it was written. -/
theorem operandOf_of_operand? {a : Addressing} {n : Nat} (hn : n < Word.modulus a.width)
    {text : String} (htext : a.operand? n = some text) {k : Fin modes.length}
    (hk : a.mode? = some k) (relative : Bool) :
    architecture.operandOf text relative =
      .ok { text, mode := k.val, value := n, size := a.width } := by
  -- only the operand of the accumulator is no number
  cases haround : a.around with
  | some p =>
    obtain ⟨front, back⟩ := p
    rw [operand?_of_around haround hn, Option.some.injEq] at htext
    rw [← htext]
    exact operandOf_numberText haround hk hn relative
  | none =>
    cases a with
    | accumulator =>
      obtain rfl := Option.some.inj htext
      obtain rfl := Option.some.inj hk
      have hzero : n = 0 := Nat.lt_one_iff.1 hn
      rw [hzero]
      rfl
    | implied => simp [Addressing.operand?] at htext
    | _ => simp [Addressing.around] at haround

/-- A hexadecimal digit is neither a blank nor the beginning of a comment. -/
theorem plain_of_isHexDigit {c : Char} (h : Text.isHexDigit c = true) :
    Text.isBlank c = false ∧ c ≠ ';' := by
  constructor
  · rw [← Bool.not_eq_true]
    intro hblank
    simp only [Text.isBlank, Text.blankRanges, List.any_cons, List.any_nil, Bool.or_eq_true,
      Bool.and_eq_true, decide_eq_true_eq, Bool.false_eq_true, or_false] at hblank
    simp only [Text.isHexDigit, Text.isDecimalDigit, Bool.or_eq_true, Bool.and_eq_true,
      decide_eq_true_eq, Char.le_def, UInt32.le_iff_toNat_le] at h
    -- the blanks and the digits are disjoint ranges of code points
    have h0 : '0'.val.toNat = 48 := rfl
    have h9 : '9'.val.toNat = 57 := rfl
    have ha : 'a'.val.toNat = 97 := rfl
    have hf : 'f'.val.toNat = 102 := rfl
    have hA : 'A'.val.toNat = 65 := rfl
    have hF : 'F'.val.toNat = 70 := rfl
    have hc : c.toNat = c.val.toNat := rfl
    omega
  · rintro rfl
    exact absurd h (by decide)

/-- Digits in a text without a blank and the beginning of a comment keep it so. -/
theorem isPlain_append_digits {front back : List Char} (h : Text.IsPlain ';' (front ++ '$' :: back))
    {n w : Nat} : Text.IsPlain ';' (front ++ '$' :: (Word.hexChars n w ++ back)) := by
  have hplain : ∀ c ∈ front ++ '$' :: (Word.hexChars n w ++ back),
      Text.isBlank c = false ∧ c ≠ ';' := by
    intro c hc
    by_cases hdigit : c ∈ Word.hexChars n w
    · exact plain_of_isHexDigit (Word.isHexDigit_of_mem_hexChars hdigit)
    · have hother : c ∈ front ++ '$' :: back := by
        simp only [List.mem_append, List.mem_cons] at hc ⊢
        tauto
      refine ⟨h.solid c hother, ?_⟩
      rintro rfl
      exact h.noMarker hother
  exact ⟨by simp, fun c hc => (hplain c hc).1, fun hc => (hplain ';' hc).2 rfl⟩

/-- A written operand is a word without the beginning of a comment. -/
theorem isPlain_of_operand? {a : Addressing} {n : Nat} (hn : n < Word.modulus a.width)
    {text : String} (htext : a.operand? n = some text) : Text.IsPlain ';' text.toList := by
  cases haround : a.around with
  | some p =>
    obtain ⟨front, back⟩ := p
    rw [operand?_of_around haround hn, Option.some.injEq] at htext
    rw [← htext, numberText, String.toList_ofList]
    apply isPlain_append_digits
    cases a with
    | implied | accumulator => simp [Addressing.around] at haround
    | _ =>
      obtain ⟨rfl, rfl⟩ := Prod.mk.inj (Option.some.inj haround)
      decide
  | none =>
    cases a with
    | accumulator =>
      obtain rfl := Option.some.inj htext
      decide
    | implied => simp [Addressing.operand?] at htext
    | _ => simp [Addressing.around] at haround

/-- There is an operand to write exactly if the mode takes one. -/
theorem isSome_operand? (a : Addressing) (v : Int) : (a.operand? v).isSome = a.mode?.isSome := by
  cases a <;> rfl

/-! ## Lines -/

namespace Statement

/-- The words of the line. -/
def words (s : Statement) : List (List Char) :=
  s.entry.mnemonic.toList :: ((s.entry.addressing.operand? s.value).map String.toList).toList

/-- The operand as the assembler reads it. -/
def operand (s : Statement) : Option SourceOperand :=
  (s.entry.addressing.operand? s.value).bind fun text => s.entry.addressing.mode?.map fun k =>
    { text, mode := k.val, value := s.value, size := s.entry.addressing.width }

/-- The instruction as the assembler reads it. -/
def code (s : Statement) : CodeLine :=
  { mnemonic := s.entry.mnemonic
    size := 1
    relative := (architecture.named s.entry.mnemonic).head?.any (·.relative)
    operand := s.operand
    opcode := some s.entry.opcode }

/-- The line as the assembler classifies it. -/
def line (s : Statement) (number : Nat) : Line :=
  { number
    text := s.text
    body := .code s.code
    argument := (s.entry.addressing.operand? s.value).getD "" }

variable {s : Statement}

theorem toList_text (s : Statement) : s.text.toList = Text.unwords s.words := by
  rw [text, words]
  cases s.entry.addressing.operand? s.value with
  | none => rfl
  | some operand => simp [Text.unwords]

/-- The opcode that is looked up for the operand is the one of the entry. -/
theorem selectOpcode?_operand (h : s.Valid) :
    Architecture.selectOpcode? (architecture.named s.entry.mnemonic) s.operand =
      some s.entry.opcode := by
  have hmode : s.operand.map (·.mode) = s.entry.addressing.mode?.map (·.val) := by
    have hsome := isSome_operand? s.entry.addressing s.value
    rw [operand]
    cases htext : s.entry.addressing.operand? s.value with
    | none =>
      rw [htext, Option.isSome_none, eq_comm, Option.isSome_eq_false_iff, Option.isNone_iff_eq_none]
        at hsome
      rw [hsome]
      rfl
    | some text => rw [Option.bind_some, Option.map_map]; rfl
  rw [Architecture.selectOpcode?, hmode]
  exact find?_of_mem s.entry h.mem

/-- An instruction line of the statement is recognised as such. -/
theorem codeLine_words (h : s.Valid) (line : Line) :
    architecture.codeLine line
        ⟨none, s.entry.mnemonic, architecture.named s.entry.mnemonic,
          (s.entry.addressing.operand? s.value).toList⟩ =
      { line with
        label := none
        body := .code s.code
        argument := (s.entry.addressing.operand? s.value).getD line.argument } := by
  have hname := (mnemonic_of_mem s.entry h.mem).1
  have hselect := selectOpcode?_operand h
  have hsome := isSome_operand? s.entry.addressing s.value
  rw [Architecture.codeLine]
  cases htext : s.entry.addressing.operand? s.value with
  | none =>
    have hoperand : s.operand = none := by rw [operand, htext]; rfl
    rw [hoperand] at hselect
    simp only [Option.toList_none, Architecture.encodedLine, hselect, hname]
    simp [code, hoperand]
    rfl
  | some text =>
    rw [htext, Option.isSome_some, eq_comm, Option.isSome_iff_exists] at hsome
    obtain ⟨k, hk⟩ := hsome
    have hoperand : s.operand = some
        { text, mode := k.val, value := s.value, size := s.entry.addressing.width } := by
      rw [operand, htext, hk]
      rfl
    have hread := operandOf_of_operand? h.value_lt htext hk
      ((architecture.named s.entry.mnemonic).head?.any (·.relative))
    have hseparator : architecture.rules.separator = none := rfl
    rw [hoperand] at hselect
    simp only [Option.toList_some, hseparator, Option.any_none, Bool.false_eq_true, if_false, hread,
      Architecture.encodedLine, hselect, hname]
    simp [code, hoperand, complainOf]
    rfl

/-- The line of a statement is classified as the instruction and the operand of the statement. -/
theorem classify_words (h : s.Valid) (number : Nat) :
    architecture.classify (SourceLine.ofWords number s.words) = s.line number := by
  have hsection : architecture.section? s.entry.mnemonic = none := by
    simpa using section?_of_mem s.entry h.mem
  have hwords : (SourceLine.ofWords number s.words).words =
      s.entry.mnemonic :: (s.entry.addressing.operand? s.value).toList := by
    rw [SourceLine.ofWords, words]
    cases s.entry.addressing.operand? s.value with
    | none => simp
    | some text => simp
  have hfind : Keyed.find? architecture.mnemonic?
      (s.entry.mnemonic :: (s.entry.addressing.operand? s.value).toList) =
        some ⟨none, s.entry.mnemonic, architecture.named s.entry.mnemonic,
          (s.entry.addressing.operand? s.value).toList⟩ := by
    simp only [Keyed.find?, mnemonic?_of_mem h.mem]
  have htext : (SourceLine.ofWords number s.words).text = s.text := by
    rw [SourceLine.ofWords, ← toList_text, String.ofList_toList]
  rw [Architecture.classify, hwords]
  simp only [List.head?_cons, Option.bind_some, hsection, hfind, codeLine_words h]
  rw [htext]
  rfl

/-- The words of a line hold neither a blank nor the beginning of a comment. -/
theorem isPlain_of_mem_words (h : s.Valid) {w : List Char} (hw : w ∈ s.words) :
    Text.IsPlain ';' w := by
  rcases List.mem_cons.1 hw with rfl | hw
  · exact (mnemonic_of_mem s.entry h.mem).2
  · rw [Option.mem_toList, Option.map_eq_some_iff] at hw
    obtain ⟨text, htext, rfl⟩ := hw
    exact isPlain_of_operand? h.value_lt htext

/-- The line has the bytes of the statement. -/
theorem bytes_line (s : Statement) (number : Nat) : (s.line number).bytes = s.bytes := by
  have hsome := isSome_operand? s.entry.addressing s.value
  have hbytes : (s.line number).bytes = Word.toBytes s.entry.opcode 1 ++
      s.operand.elim [] fun o => Word.toBytes o.value o.size := rfl
  rw [hbytes, bytes, operand]
  cases hk : s.entry.addressing.mode? with
  | none =>
    have hwidth : s.entry.addressing.width = 0 := by rw [Addressing.width, hk]; rfl
    rw [hwidth]
    cases s.entry.addressing.operand? s.value with
    | none => rfl
    | some text => rfl
  | some k =>
    rw [hk, Option.isSome_some, Option.isSome_iff_exists] at hsome
    obtain ⟨text, htext⟩ := hsome
    rw [htext]
    rfl

theorem plain_line (s : Statement) (number : Nat) : (s.line number).Plain := by
  refine ⟨⟨s.code, rfl, rfl, ?_⟩, rfl, rfl⟩
  intro o ho
  obtain ⟨text, -, hk⟩ := Option.bind_eq_some_iff.1 ho
  obtain ⟨k, -, rfl⟩ := Option.map_eq_some_iff.1 hk
  rfl

end Statement

/-! ## Programs -/

/-- The words of the directive that sets the origin. -/
def originWords (origin : Nat) : List (List Char) :=
  ["ORG".toList, '$' :: Word.hexChars origin 2]

/-- The directive as the assembler classifies it. -/
def originLine (origin : Nat) : Line :=
  { number := 1
    text := String.ofList (Text.unwords (originWords origin))
    body := .directive "ORG"
    address := some origin
    argument := String.ofList ('$' :: Word.hexChars origin 2) }

/-- The lines of statements, numbered from `first` on. -/
def statementLines (first : Nat) (ss : List Statement) : List Line :=
  (ss.zipIdx first).map fun (s, i) => s.line i

theorem classify_originWords {origin : Nat} (h : origin < Word.modulus 2) :
    architecture.classify (SourceLine.ofWords 1 (originWords origin)) = originLine origin := by
  have hsection : architecture.section? "ORG" =
      some { name := "ORG", origin := some Numeral.dollarHex } := rfl
  have hwords : (SourceLine.ofWords 1 (originWords origin)).words =
      ["ORG", String.ofList ('$' :: Word.hexChars origin 2)] := by
    simp [SourceLine.ofWords, originWords]
  have hdecode := Numeral.dollarHex_hexChars (show 2 < 8 by decide) h
  rw [Architecture.classify, hwords]
  simp only [List.head?_cons, Option.bind_some, hsection, Architecture.directiveLine, decoded,
    List.drop_succ_cons, List.drop_zero, hdecode]
  rfl

/-- The disassembly is put together from the words of its lines. -/
theorem disassembly_eq {origin : Nat} (h : origin < Word.modulus 2) (ss : List Statement) :
    disassembly origin ss = String.ofList
      (Text.unlines ((originWords origin :: ss.map Statement.words).map Text.unwords)) := by
  have horigin : ("ORG $" ++ Word.hex origin 2).toList = Text.unwords (originWords origin) := by
    rw [String.toList_append, Word.toList_hex (by decide) (by decide) h]
    rfl
  have hlines : (("ORG $" ++ Word.hex origin 2) :: ss.map Statement.text).map String.toList =
      (originWords origin :: ss.map Statement.words).map Text.unwords := by
    rw [List.map_cons, List.map_cons, horigin, List.map_map, List.map_map]
    exact congrArg _ (List.map_congr_left fun s _ => s.toList_text)
  -- both sides are the lines, each followed by a line feed
  rw [← String.toList_inj, disassembly, String.toList_join, String.toList_ofList, Text.unlines,
    ← hlines, List.flatMap_map, List.flatMap_map]
  apply List.flatMap_congr
  intro l _
  rw [String.toList_append]
  rfl

/-- The words of the lines hold neither a blank nor the beginning of a comment. -/
theorem isPlain_of_mem_lines (origin : Nat) {ss : List Statement} (h : ∀ s ∈ ss, s.Valid) :
    ∀ ws ∈ originWords origin :: ss.map Statement.words,
      ws ≠ [] ∧ ∀ w ∈ ws, Text.IsPlain ';' w := by
  intro ws hws
  rcases List.mem_cons.1 hws with rfl | hws
  · refine ⟨by simp [originWords], ?_⟩
    intro w hw
    rcases List.mem_cons.1 hw with rfl | hw
    · decide
    · obtain rfl := List.mem_singleton.1 hw
      have hdollar : Text.IsPlain ';' ([] ++ '$' :: []) := by decide
      simpa using isPlain_append_digits (n := origin) (w := 2) hdollar
  · obtain ⟨s, hs, rfl⟩ := List.mem_map.1 hws
    exact ⟨by simp [Statement.words], fun w hw => Statement.isPlain_of_mem_words (h s hs) hw⟩

theorem map_zipIdx_words {α : Type} (f : SourceLine → α) (first : List (List Char))
    (ss : List Statement) :
    ((first :: ss.map Statement.words).zipIdx.map fun (ws, i) =>
        SourceLine.ofWords (i + 1) ws).map f =
      f (SourceLine.ofWords 1 first) ::
        (ss.zipIdx 1).map fun p => f (SourceLine.ofWords (p.2 + 1) p.1.words) := by
  rw [List.zipIdx_cons, List.zipIdx_map, List.map_map, List.map_cons, List.map_map]
  rfl

/-- Every line of the disassembly is classified as what it was written for. -/
theorem map_classify_split {origin : Nat} {ss : List Statement} (h : ∀ s ∈ ss, s.Valid)
    (horigin : origin < Word.modulus 2) :
    (SourceLine.split architecture.rules.comment (disassembly origin ss)).map
      architecture.classify = originLine origin :: statementLines 2 ss := by
  have hsplit := SourceLine.split_unlines (show Text.isBlank ';' = false by decide)
    (fun ws hws => (isPlain_of_mem_lines origin h ws hws).1)
    (fun ws hws => (isPlain_of_mem_lines origin h ws hws).2)
  have hcomment : architecture.rules.comment = String.singleton ';' := rfl
  have hstatement : ∀ p ∈ ss.zipIdx 1,
      architecture.classify (SourceLine.ofWords (p.2 + 1) p.1.words) = p.1.line (p.2 + 1) :=
    fun p hp => Statement.classify_words (h p.1 (List.fst_mem_of_mem_zipIdx hp)) (p.2 + 1)
  -- the lines of the statements count from two, behind the directive
  have hlines : (ss.zipIdx 1).map (fun p => p.1.line (p.2 + 1)) = statementLines 2 ss := by
    have hshift : ss.zipIdx 2 = (ss.zipIdx 1).map fun p => (p.1, p.2 + 1) := List.zipIdx_succ
    rw [statementLines, hshift, List.map_map]
    rfl
  rw [hcomment, disassembly_eq horigin, hsplit, map_zipIdx_words, classify_originWords horigin,
    List.map_congr_left hstatement, hlines]

theorem plain_of_mem_statementLines {first : Nat} {ss : List Statement} :
    ∀ l ∈ statementLines first ss, l.Plain := by
  intro l hl
  obtain ⟨⟨s, i⟩, -, rfl⟩ := List.mem_map.1 hl
  exact s.plain_line i

/-- The passes leave the origin and put the statements one behind another after it. -/
theorem lines_assemble_disassembly {origin : Nat} {ss : List Statement}
    (h : ∀ s ∈ ss, s.Valid) (horigin : origin < Word.modulus 2)
    (hroom : origin + Line.extent (statementLines 2 ss) ≤ 65536) :
    (Program.assemble architecture (disassembly origin ss) 65536).lines =
      originLine origin :: Line.sequence origin (statementLines 2 ss) := by
  have hplain : ∀ l ∈ statementLines 2 ss, l.Plain := plain_of_mem_statementLines
  -- the directive moves the cursor to the origin
  have hplaced : (Layout.placeAll 65536 {} (originLine origin :: statementLines 2 ss)).1 =
      originLine origin :: Line.sequence origin (statementLines 2 ss) := by
    rw [Layout.placeAll]
    exact congrArg _ (Layout.placeAll_of_plain hplain hroom (by decide))
  rw [Program.assemble, map_classify_split h horigin]
  dsimp only
  rw [hplaced, List.map_cons]
  congr 1
  refine (List.map_congr_left fun l hl => ?_).trans (List.map_id' _)
  exact Resolution.resolve_of_plain _ (Line.plain_of_mem_sequence hplain hl)

/-- The lines of statements have the bytes of the statements. -/
theorem flatMap_bytes_statementLines (first : Nat) (ss : List Statement) :
    (statementLines first ss).flatMap Line.bytes = ss.flatMap Statement.bytes := by
  induction ss generalizing first with
  | nil => rfl
  | cons s ss ih =>
    have hrest := ih (first + 1)
    rw [statementLines] at hrest ⊢
    rw [List.zipIdx_cons, List.map_cons, List.flatMap_cons, List.flatMap_cons, hrest,
      s.bytes_line first]

/-- Assembling a disassembly gives back the bytes. Take a list of statements with their values, and
an origin from which on they fit into memory. Their disassembly has no problem, loading it gives the
origin as entry point, and memory that was empty before then holds the bytes of the statements from
the origin on and zero everywhere else. -/
theorem load_disassembly {origin : Nat} {ss : List Statement} (hne : ss ≠ [])
    (hvalid : ∀ s ∈ ss, s.Valid)
    (hroom : origin + (ss.flatMap Statement.bytes).length ≤ 65536) {m : Machine}
    (hempty : m.memory = .zeroed 65536) :
    let p := Program.assemble architecture (disassembly origin ss) 65536
    p.errors = [] ∧ ∃ m', p.load m = (.ok (origin : Int), m') ∧
      m'.memory.size = 65536 ∧
      m'.memory.slice origin (ss.flatMap Statement.bytes).length = ss.flatMap Statement.bytes ∧
      ∀ i, i < origin ∨ origin + (ss.flatMap Statement.bytes).length ≤ i →
        m'.memory.cell i = 0 := by
  intro p
  have hplain : ∀ l ∈ statementLines 2 ss, l.Plain := plain_of_mem_statementLines
  have hextent : Line.extent (statementLines 2 ss) = (ss.flatMap Statement.bytes).length := by
    rw [Line.extent_eq_length hplain, flatMap_bytes_statementLines]
  obtain ⟨s, rest, rfl⟩ := List.exists_cons_of_ne_nil hne
  -- a statement has at least its opcode, so the origin is an address
  have horigin : origin < Word.modulus 2 := by
    have hbytes : 1 ≤ s.bytes.length := by simp [Statement.bytes]
    have hmodulus : Word.modulus 2 = 65536 := rfl
    rw [List.flatMap_cons, List.length_append] at hroom
    omega
  have hlines : p.lines =
      originLine origin :: Line.sequence origin (statementLines 2 (s :: rest)) :=
    lines_assemble_disassembly hvalid horigin (by rw [hextent]; exact hroom)
  have herrors : ∀ l ∈ p.lines, l.errors = [] := by
    intro l hl
    rw [hlines] at hl
    rcases List.mem_cons.1 hl with rfl | hl
    · rfl
    · exact (Line.plain_of_mem_sequence hplain hl).errors
  have hentry : p.entryPoint? = some (origin : Int) := by
    rw [Program.entryPoint?, hlines]
    rfl
  -- the directive stores nothing, and the statements behind it leave one block
  have himprint : p.imprint m.memory =
      (Memory.zeroed 65536).overlay origin ((s :: rest).flatMap Statement.bytes) := by
    have hdirective : ¬ (originLine origin).isStored = true := Bool.false_ne_true
    rw [Program.imprint, hlines, List.filter_cons_of_neg hdirective,
      Line.filter_isStored_sequence hplain, Line.foldl_imprint_sequence hplain,
      flatMap_bytes_statementLines, hempty]
  obtain ⟨m', hload, hmemory, -⟩ :=
    Program.load_of_forall_errors herrors hentry (show 65536 ≤ m.memory.size by simp [hempty])
  refine ⟨?_, m', hload, ?_, ?_, ?_⟩
  · rw [Program.errors, List.flatMap_eq_nil_iff]
    intro l hl
    rw [herrors l hl, List.map_nil]
  · rw [hmemory, himprint, Memory.size_overlay, Memory.size_zeroed]
  · rw [hmemory, himprint]
    exact Memory.slice_overlay_self _ (by rw [Memory.size_zeroed]; exact hroom)
  · intro i hi
    rw [hmemory, himprint, Memory.cell_overlay_of_outside _ hi, Memory.cell_zeroed]

/-- Four statements, one of them without an operand. -/
def fourStatements : List Statement :=
  [⟨⟨0xA9, "LDA", .immediate, .load .a⟩, 0x7F⟩, ⟨⟨0x0A, "ASL", .accumulator, .shift .left⟩, 0⟩,
   ⟨⟨0xEA, "NOP", .implied, .nop⟩, 0⟩, ⟨⟨0x6C, "JMP", .indirect, .jump⟩, 0x1234⟩]

theorem load_disassembly_fourStatements :
    disassembly 0x0200 fourStatements = "ORG $0200\nLDA #$7F\nASL A\nNOP\nJMP ($1234)\n" ∧
      ∃ m', (Program.assemble architecture (disassembly 0x0200 fourStatements) 65536).load
          { memory := .zeroed 65536 } = (.ok 0x0200, m') ∧
        m'.memory.slice 0x0200 7 = [0xA9, 0x7F, 0x0A, 0xEA, 0x6C, 0x12, 0x34] ∧
        m'.memory.cell 0x0207 = 0 := by
  have hvalid : ∀ s ∈ fourStatements, s.Valid := by
    simp only [fourStatements, List.forall_mem_cons]
    exact ⟨⟨by decide, by decide⟩, ⟨by decide, by decide⟩, ⟨by decide, by decide⟩,
      ⟨by decide, by decide⟩, by simp⟩
  have hbytes : fourStatements.flatMap Statement.bytes =
      [0xA9, 0x7F, 0x0A, 0xEA, 0x6C, 0x12, 0x34] := by decide
  have hroom : 0x0200 + (fourStatements.flatMap Statement.bytes).length ≤ 65536 := by
    rw [hbytes]
    decide
  have hempty : ({ memory := .zeroed 65536 } : Machine).memory = .zeroed 65536 := rfl
  obtain ⟨-, m', hload, -, hslice, hzero⟩ := load_disassembly (by decide) hvalid hroom hempty
  rw [hbytes] at hslice hzero
  exact ⟨by decide, m', hload, hslice, hzero 0x0207 (by decide)⟩

end Breadboard.Mos6502
