import Breadboard.Architecture.Micro
import Breadboard.Mos6502
import Breadboard.Proofs.Assembler.Fields
import Breadboard.Proofs.Assembler.Symbols

/-!
# How wide data is

A data line was matched by one data directive of the tables (`Architecture.directiveOf?`), and
occupies the width of data that this directive declares, `Architecture.dataWidth`. That is the size
of the directive, or a word where data is written with its address. The width is at once the range
of memory that the value fills and the distance to the next line that is placed behind the data
(`Program.data_width_of_load`). A directive whose size is not a word loses its size where data is
written with its address: see `Program.data_width_of_two_bytes`.
-/

namespace Breadboard

/-! ## The directive of a line -/

namespace Architecture

variable {arch : Architecture}

/-- The data directive that one of the first two words of a source line matches. -/
def directiveOf? (arch : Architecture) (s : SourceLine) : Option DataDirective :=
  (Keyed.find? arch.dataDirective? s.words).map (·.meaning)

theorem width_dataLine {line : Line} {k : Keyed DataDirective} {keyword : String} {size : Nat}
    {v : Int} (h : (arch.dataLine line k).body = .data keyword size v) :
    size = arch.dataWidth k.meaning := by
  rw [dataLine] at h
  rw [dataWidth]
  split at h
  next haddressed =>
    rw [if_pos haddressed]
    exact (LineBody.data.inj h).2.1.symm
  next hkeyword =>
    rw [if_neg hkeyword]
    exact (LineBody.data.inj h).2.1.symm

/-- A data line has the width that its directive declares. -/
theorem width_of_classify {s : SourceLine} {keyword : String} {size : Nat} {v : Int}
    (h : (arch.classify s).body = .data keyword size v) :
    ∃ directive ∈ arch.data, arch.directiveOf? s = some directive ∧
      size = arch.dataWidth directive := by
  rcases arch.classify_cases s with ⟨sec, -, heq⟩ | ⟨k, -, -, heq⟩ | ⟨k, -, -, hk, heq⟩ |
    ⟨name, -, -, -, -, heq⟩ | ⟨-, -, -, -, heq⟩
  · obtain ⟨address, argument, errors, hline⟩ :=
      directiveLine_eq s.toLine sec (s.words.drop 1)
    rw [heq, hline] at h
    simp at h
  · obtain ⟨c, argument, errors, hline⟩ := arch.codeLine_eq s.toLine k
    rw [heq, hline] at h
    simp at h
  · rw [heq] at h
    refine ⟨k.meaning, List.mem_of_find?_eq_some (Keyed.meaning_of_find? hk), ?_,
      width_dataLine h⟩
    rw [directiveOf?, hk]
    rfl
  · simp [heq] at h
  · simp [heq, Line.report, SourceLine.toLine] at h

end Architecture

/-! ## The line behind -/

/-- The line neither moves the cursor nor takes room: it is a label, or a directive without an
origin. -/
def Line.LeavesCursor (l : Line) : Prop := l.isStored = false ∧ l.address = none

namespace Layout

theorem advance_of_leavesCursor {line : Line} (h : line.LeavesCursor) (cursor : Int) :
    advance cursor line = cursor := by
  obtain ⟨hstored, haddress⟩ := h
  rw [Line.isStored] at hstored
  rw [advance, haddress]
  split
  · rfl
  next keyword size v hbody => simp [hbody] at hstored
  next c hbody => simp [hbody] at hstored
  · rfl
  · rfl

theorem foldl_advance_of_leavesCursor {lines : List Line} (h : ∀ l ∈ lines, l.LeavesCursor)
    (cursor : Int) : lines.foldl advance cursor = cursor := by
  induction lines with
  | nil => rfl
  | cons l rest ih =>
    rw [List.foldl_cons, advance_of_leavesCursor (h l List.mem_cons_self)]
    exact ih fun k hk => h k (List.mem_cons_of_mem _ hk)

/-- Behind a line, and lines that leave the cursor alone, the cursor is where that line moved
it. -/
theorem cursorAfter_take {lines : List Line} {i j : Nat} {line : Line}
    (hline : lines[i]? = some line) (hij : i < j)
    (hbetween : ∀ l ∈ (lines.take j).drop (i + 1), l.LeavesCursor) :
    cursorAfter (lines.take j) = advance (cursorAfter (lines.take i)) line := by
  have hfront : (lines.take j).take (i + 1) = lines.take i ++ [line] := by
    rw [List.take_take, Nat.min_eq_left hij, List.take_add_one, hline]
    rfl
  have hsplit : lines.take j = (lines.take i ++ [line]) ++ (lines.take j).drop (i + 1) := by
    rw [← hfront, List.take_append_drop]
  rw [hsplit, cursorAfter, List.foldl_append, foldl_advance_of_leavesCursor hbetween,
    List.foldl_append]
  rfl

end Layout

/-! ## Programs -/

namespace Program

variable {arch : Architecture} {source : String} {memorySize : Nat}

/-- A data line is the data that its source line is. -/
theorem body_classify_of_data {i : Nat} {s : SourceLine} {l : Line} {keyword : String} {size : Nat}
    {v : Int} (hs : (SourceLine.split arch.rules.comment source)[i]? = some s)
    (hl : (assemble arch source memorySize).lines[i]? = some l)
    (hbody : l.body = .data keyword size v) :
    (arch.classify s).body = .data keyword size v := by
  rw [getElem?_lines, hs, Option.map_some, Option.some.injEq] at hl
  subst hl
  have hplaced := Resolution.body_of_resolve_data hbody
  rwa [Layout.body_place] at hplaced

/-- What is placed at the cursor begins where the data in front of it ends, as long as memory does
not go beyond the greatest number. -/
theorem address_behind_data {i j : Nat} {s t : SourceLine} {l next : Line} {keyword : String}
    {size start : Nat} {v : Int}
    (hs : (SourceLine.split arch.rules.comment source)[i]? = some s)
    (hl : (assemble arch source memorySize).lines[i]? = some l)
    (hbody : l.body = .data keyword size v) (hstart : l.address = some (start : Int))
    (hroom : ((start + size : Nat) : Int) ≤ Word.greatest) (hij : i < j)
    (ht : (SourceLine.split arch.rules.comment source)[j]? = some t)
    (hnext : (assemble arch source memorySize).lines[j]? = some next)
    (hcursor : (arch.classify t).AtCursor)
    (hbetween : ∀ k ∈ ((arch.classified source).take j).drop (i + 1), k.LeavesCursor) :
    next.address = some ((start + size : Nat) : Int) := by
  have hdata := body_classify_of_data hs hl hbody
  have hclassified : (arch.classified source)[i]? = some (arch.classify s) := by
    rw [Architecture.classified, List.getElem?_map, hs]
    rfl
  have hstored : (l.isStored || l.isLabel) = true := by rw [Line.isStored, hbody, Bool.true_or]
  -- the data begins at its target
  have htarget : Layout.target (Layout.cursorAfter ((arch.classified source).take i))
      (arch.classify s) = start := by
    have haddress := address_of_placed hs hl hstored
    rw [hstart] at haddress
    exact (Option.some.inj haddress).symm
  -- and takes the cursor to its end
  have hadvance : Layout.advance (Layout.cursorAfter ((arch.classified source).take i))
      (arch.classify s) = ((start + size : Nat) : Int) := by
    have hfootprint : (arch.classify s).footprint = size := by rw [Line.footprint, hdata]
    rw [Layout.advance, hdata]
    dsimp only
    rw [htarget, hfootprint, Layout.past]
    omega
  have hkind : (next.isStored || next.isLabel) = true := by
    rw [getElem?_lines, ht, Option.map_some, Option.some.injEq] at hnext
    rw [← hnext, Resolution.isStored_resolve, Resolution.isLabel_resolve, Line.isStored,
      Line.isLabel, Layout.body_place]
    exact hcursor.1
  rw [address_of_placed ht hnext hkind, Layout.target_of_address_eq_none hcursor.2,
    Layout.cursorAfter_take hclassified hij hbetween, hadvance]

/-- In every program of an accepted architecture that was loaded, take a data line. It was matched
by a directive of the tables and is as wide as this directive declares data. Its bytes read as its
value, unless a later line stores a byte over them, and the next line that is placed at the cursor
begins behind them, in a memory that ends before the greatest number. They are as many as the size
of the directive where data is not written with its address, or the size is a word. -/
theorem data_width_of_load {d : Draft} (hbuild : d.build = .ok arch) {i : Nat} {s : SourceLine}
    {l : Line} (hs : (SourceLine.split arch.rules.comment source)[i]? = some s)
    (hl : (assemble arch source memorySize).lines[i]? = some l) {keyword : String} {size : Nat}
    {v : Int} (hbody : l.body = .data keyword size v) {m m' : Machine} {entry : Int}
    (hload : (assemble arch source memorySize).load m = (.ok entry, m')) :
    ∃ directive ∈ arch.data, ∃ start : Nat,
      arch.directiveOf? s = some directive ∧ size = arch.dataWidth directive ∧
      l.address = some (start : Int) ∧
      ((∀ k ∈ (assemble arch source memorySize).lines.drop (i + 1), ∀ b, l.Covers b →
          ¬ k.Covers b) →
        m'.memory.read start size = .ok (Word.signed v size)) ∧
      ((m.memory.size : Int) ≤ Word.greatest → ∀ j t next, i < j →
        (SourceLine.split arch.rules.comment source)[j]? = some t →
        (assemble arch source memorySize).lines[j]? = some next → (arch.classify t).AtCursor →
        (∀ k ∈ ((arch.classified source).take j).drop (i + 1), k.LeavesCursor) →
        next.address = some ((start + size : Nat) : Int)) ∧
      (size = directive.size ↔
        arch.rules.dataAddress = none ∨ arch.sizes.word = directive.size) := by
  have harch := Architecture.checked_of_build hbuild
  have hwidest : Draft.widest = 4 := rfl
  obtain ⟨directive, hmem, hdirective, hwidth⟩ :=
    Architecture.width_of_classify (body_classify_of_data hs hl hbody)
  have hnarrow := harch.dataWidth_le hmem
  rw [← hwidth] at hnarrow
  -- the lines behind the data are those from the next position on
  obtain ⟨hi, hget⟩ := List.getElem?_eq_some_iff.1 hl
  have hlines : (assemble arch source memorySize).lines =
      (assemble arch source memorySize).lines.take i ++
        l :: (assemble arch source memorySize).lines.drop (i + 1) := by
    rw [← hget, List.getElem_cons_drop, List.take_append_drop]
  have hloadable := loadable_of_load hload l (List.mem_of_getElem? hl)
  have hstored : l.isStored = true := by rw [Line.isStored, hbody]
  have hfootprint : l.footprint = size := by rw [Line.footprint, hbody]
  have hbytes : l.bytes = Word.toBytes v size := by rw [Line.bytes, hbody]
  obtain ⟨start, haddress, hfit⟩ := hloadable.inside hstored
  rw [hfootprint] at hfit
  refine ⟨directive, hmem, start, hdirective, hwidth, haddress, ?_, ?_, ?_⟩
  · intro hkept
    obtain ⟨hsize, start', haddress', -, hslice⟩ := slice_of_load hload hlines hstored hkept
    obtain rfl : start = start' := Int.ofNat.inj (Option.some.inj (haddress.symm.trans haddress'))
    rw [hfootprint, hbytes] at hslice
    exact Memory.read_of_slice (by omega) (by omega) hslice
  · intro hroom j t next hij ht hnext hcursor hbetween
    exact address_behind_data hs hl hbody haddress (by omega) hij ht hnext hcursor hbetween
  · rw [hwidth, Architecture.dataWidth]
    cases arch.rules.dataAddress with
    | none => simp
    | some decode => simp

/-- A word of the 6502. -/
def wordLine : Line :=
  { number := 1, text := "WORD $1234", address := some 0, argument := "$1234"
    body := .data "WORD" 2 0x1234 }

/-- The instruction behind it. -/
def lastLine : Line :=
  { number := 2, text := "END", address := some 2
    body := .code { mnemonic := "END", size := 1, relative := false, opcode := some 0xFF } }

theorem data_width_of_load_mos6502 :
    let p := assemble Mos6502.architecture "WORD $1234\nEND\n" 16
    (p.load { memory := .zeroed 16 }).2.memory.read 0 2 = .ok 0x1234 ∧
      lastLine ∈ p.lines ∧ lastLine.address = some 2 := by
  let p := assemble Mos6502.architecture "WORD $1234\nEND\n" 16
  have hlines : p.lines = [wordLine, lastLine] := by decide
  have hword : p.lines[0]? = some wordLine := by rw [hlines]; rfl
  have hlast : p.lines[1]? = some lastLine := by rw [hlines]; rfl
  have hs : (SourceLine.split Mos6502.architecture.rules.comment "WORD $1234\nEND\n")[0]? =
      some ⟨1, "WORD $1234", ["WORD", "$1234"]⟩ := by decide
  have ht : (SourceLine.split Mos6502.architecture.rules.comment "WORD $1234\nEND\n")[1]? =
      some ⟨2, "END", ["END"]⟩ := by decide
  have hcursor : (Mos6502.architecture.classify ⟨2, "END", ["END"]⟩).AtCursor :=
    ⟨by decide, by decide⟩
  have hbetween : ∀ k ∈ ((Mos6502.architecture.classified "WORD $1234\nEND\n").take 1).drop
      (0 + 1), k.LeavesCursor := by
    intro k hk
    rw [List.drop_eq_nil_of_le (List.length_take_le _ _)] at hk
    simp at hk
  have hentry : (p.load { memory := .zeroed 16 }).1 = .ok 2 := by decide
  have hload : p.load { memory := .zeroed 16 } =
      (.ok 2, (p.load { memory := .zeroed 16 }).2) := Prod.ext hentry rfl
  -- the instruction begins where the word ends
  have hkept : ∀ k ∈ p.lines.drop (0 + 1), ∀ b, wordLine.Covers b → ¬ k.Covers b := by
    rw [hlines]
    rintro k hk i ⟨-, a, ha, -, hlt⟩ ⟨-, b, hb, hle, -⟩
    obtain rfl := List.mem_singleton.1 hk
    have hfirst : (0 : Int) = a := Option.some.inj ha
    have hsecond : (2 : Int) = b := Option.some.inj hb
    have hfootprint : wordLine.footprint = 2 := rfl
    omega
  obtain ⟨directive, -, start, -, -, haddress, hread, hnext, -⟩ :=
    data_width_of_load Mos6502.build_draft hs hword rfl hload
  obtain rfl : 0 = start := Int.ofNat.inj (Option.some.inj haddress)
  refine ⟨hread hkept, List.mem_of_getElem? hlast, ?_⟩
  exact hnext (by decide) 1 _ lastLine (by decide) ht hlast hcursor hbetween

/-- Tables with two-byte data that is written with its address, and words of one byte. -/
def twoByteData : Draft where
  name := "two-byte data"
  registers :=
    [{ name := "PC", kind := .programCounter, format := .unsigned, size := 1, rank := 0 }]
  instructions :=
    [{ opcode := 255, mnemonic := "END", behaviour := MicroStep.behaviour 0 1 "END" [.finish] }]
  data := [{ pattern := [[.number .decimal]], size := 2, decode := Numeral.decimal }]
  rules := { dataAddress := some Numeral.decimal }

/-- The number needs the two bytes of its directive, but only its low byte is stored, and the label
follows one byte behind. -/
theorem data_width_of_two_bytes :
    ∃ arch, twoByteData.build = .ok arch ∧
      let p := assemble arch "END\n4 258\nhere:\n" 16
      (p.load { memory := .zeroed 16 }).1 = .ok 0 ∧
        (arch.directiveOf? ⟨2, "4 258", ["4", "258"]⟩).map (·.size) = some 2 ∧
        p.lines[1]?.map (·.body) = some (.data "" 1 258) ∧
        (p.load { memory := .zeroed 16 }).2.memory.read 4 2 = .ok 512 ∧
        p.symbols.find? "here" = some ⟨"here", 5, 3⟩ :=
  ⟨_, rfl, by decide⟩

end Program

end Breadboard
