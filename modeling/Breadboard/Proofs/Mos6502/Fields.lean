import Breadboard.Proofs.Assembler.Fields
import Breadboard.Proofs.Mos6502.Operands

/-!
# Numbers in fields of the 6502

An addressing mode of the 6502 bounds the digits of a number by the width of its field, so every
literal operand fits (`tight_of_mem_modes`). Data directives, and the modes of other processors, may
read numbers that do not fit, and then the program has no problem but memory holds another number
than the one written (`Edu1.immediate_is_cut_off`). With decoders that refuse such numbers nothing
is cut off (`nothing_cut_off_of_tight`).
-/

namespace Breadboard

/-! ## What is captured -/

/-- A text that a pattern accepts matches one of its alternatives, which captures what is found. -/
theorem Pattern.exists_of_match? {labels : LabelShape} {pattern : Pattern} {text : String}
    {found : Pattern.Found} (h : pattern.match? labels text = some found) :
    ∃ form ∈ pattern, ∃ captured,
      Alternative.match? form labels text.toList = some captured ∧
        found.captured = String.ofList captured := by
  rw [match?] at h
  generalize 0 = index at h
  induction pattern generalizing index with
  | nil => simp [matchFrom?] at h
  | cons form rest ih =>
    rw [matchFrom?] at h
    split at h
    next captured hcaptured =>
      obtain rfl := Option.some.inj h
      exact ⟨form, List.mem_cons_self, captured, hcaptured, rfl⟩
    next =>
      obtain ⟨form', hmem, hform⟩ := ih _ h
      exact ⟨form', List.mem_cons_of_mem _ hmem, hform⟩

/-- A label that was split off has the shape of a label. -/
theorem LabelShape.accepts_of_split? {shape : LabelShape} {cs label rest : List Char}
    (h : shape.split? cs = some (label, rest)) : shape.accepts label = true := by
  cases cs with
  | nil => simp [split?] at h
  | cons c cs =>
    obtain ⟨hfirst, heq⟩ := Option.ite_none_right_eq_some.1 h
    obtain ⟨rfl, -⟩ := Prod.mk.inj (Option.some.inj heq)
    rw [accepts, hfirst, Bool.true_and]
    exact List.all_takeWhile

/-- A hexadecimal number that was split off has a `$` and at most as many digits as its shape
allows. -/
theorem NumberShape.exists_of_split?_hex {least most : Nat} {cs number rest : List Char}
    (h : (hex "$" least most).split? cs = some (number, rest)) :
    ∃ ds, number = '$' :: ds ∧ (∀ d ∈ ds, Text.isHexDigit d = true) ∧ ds.length ≤ most := by
  rw [split?, Mos6502.splitSign_hex] at h
  dsimp only at h
  obtain ⟨-, hrest⟩ := Option.ite_none_right_eq_some.1 h
  obtain ⟨-, heq⟩ := Option.ite_none_right_eq_some.1 hrest
  obtain ⟨rfl, -⟩ := Prod.mk.inj (Option.some.inj heq)
  generalize cs.drop _ = behind
  -- the digits are the beginning of the longest stretch of digits
  let count := min most (behind.takeWhile Text.isHexDigit).length
  have hdigits : ((hex "$" least most).splitDigits behind).1 = behind.take count := by
    show (behind.splitAt count).1 = _
    rw [List.splitAt_eq]
  have hfront : behind.take count <+: behind.takeWhile Text.isHexDigit := by
    apply List.prefix_of_prefix_length_le (List.take_prefix _ _) (List.takeWhile_prefix _)
    rw [List.length_take]
    omega
  refine ⟨behind.take count, ?_, ?_, ?_⟩
  · rw [hdigits]
    simp [hex]
  · intro d hd
    exact List.all_eq_true.1 List.all_takeWhile d (hfront.subset hd)
  · rw [List.length_take]
    omega

namespace Mos6502

/-- What is captured between two texts was split off by the piece between them. -/
theorem exists_split?_of_match? {labels : LabelShape} {front back : String} {piece : Piece}
    (hpiece : piece.captures = true) {cs captured : List Char}
    (h : Alternative.match? [.literal front, piece, .literal back] labels cs = some captured) :
    ∃ behind rest, piece.split? labels behind = some (captured, rest) := by
  rw [Alternative.match?, matchFrom?_cons] at h
  obtain ⟨⟨taken, behind⟩, -, hbehind⟩ := Option.bind_eq_some_iff.1 h
  dsimp only at hbehind
  rw [matchFrom?_cons] at hbehind
  obtain ⟨⟨taken', rest⟩, hsplit, hrest⟩ := Option.bind_eq_some_iff.1 hbehind
  dsimp only at hrest
  rw [if_pos hpiece, matchFrom?_literal] at hrest
  obtain ⟨-, heq⟩ := Option.ite_none_right_eq_some.1 hrest
  obtain rfl := Option.some.inj heq
  exact ⟨behind, rest, hsplit⟩

/-! ## Operands -/

/-- A mode that takes numbers takes only those that its field can hold. -/
theorem tight_of_around {a : Addressing} {front back : String} {k : Fin modes.length}
    (ha : a.around = some (front, back)) (hk : a.mode? = some k) : (modes.get k).Tight {} := by
  intro text found v hmatch hliteral hdecode
  have hwidth : (modes.get k).size = a.width := by
    rw [Addressing.width, hk]
    rfl
  obtain ⟨rest, hpattern, hrest⟩ := Addressing.pattern_of_around ha hk
  obtain ⟨form, hform, captured, hcaptured, hfound⟩ := Pattern.exists_of_match? hmatch
  rw [hpattern] at hform
  rcases List.mem_cons.1 hform with rfl | hlabel
  -- a number: its digits are bounded by the width
  · obtain ⟨behind, remaining, hsplit⟩ := exists_split?_of_match? rfl hcaptured
    obtain ⟨ds, rfl, hds, hlength⟩ := NumberShape.exists_of_split?_hex hsplit
    rw [Addressing.decode_of_around ha hk, hfound] at hdecode
    obtain ⟨hle, hlt⟩ := Numeral.fits_of_dollarHex hds hlength hdecode
    rw [hwidth]
    exact Or.inr (Word.unsigned_of_lt hle hlt)
  -- a label: the mode has two forms, so it is taken for one
  · rw [hrest form hlabel] at hcaptured
    obtain ⟨behind, remaining, hsplit⟩ := exists_split?_of_match? rfl hcaptured
    have haccepts := LabelShape.accepts_of_split? hsplit
    have hcapturing : 1 < (modes.get k).pattern.capturing := by
      have hpos : 0 < rest.countP Alternative.captures := by
        apply List.countP_pos_iff.2
        exact ⟨form, hlabel, by rw [hrest form hlabel]; rfl⟩
      rw [hpattern, Pattern.capturing, List.countP_cons_of_pos rfl]
      omega
    rw [AddressingMode.readsLabel, hfound, String.toList_ofList, haccepts, Bool.and_true,
      decide_eq_true hcapturing] at hliteral
    exact absurd hliteral (by decide)

/-- Every addressing mode of the 6502 accepts only numbers that its field can hold. -/
theorem tight_of_mem_modes {m : AddressingMode} (hm : m ∈ modes) : m.Tight {} := by
  obtain ⟨k, rfl⟩ := List.mem_iff_get.1 hm
  rcases Addressing.exists_of_mode k with rfl | ⟨a, front, back, hk, ha⟩
  · intro text found v _ _ hdecode
    obtain rfl := Except.ok.inj hdecode
    exact Word.representable_zero _
  · exact tight_of_around ha hk

/-- So every instruction line is tight. -/
theorem tight_of_isCode {l : Line} (h : l.isCode = true) : l.Tight architecture := by
  constructor
  · intro c o m _ _ _ hm
    exact tight_of_mem_modes (List.mem_of_getElem? hm)
  · intro keyword size v d hbody
    simp [Line.isCode, hbody] at h

/-! ## Programs -/

/-- In every program of an accepted architecture, take an opcode, an operand or a data value `w`
that a line without a problem stores. Where the decoders of the line refuse the numbers that do not
fit, the field can hold its number, read as signed or as unsigned; so it is for every instruction of
the 6502. Whatever the decoders are, once the program was loaded, and if no later line is stored
over this one, the field holds its number exactly if it can. -/
theorem nothing_cut_off_of_tight {d : Draft} {arch : Architecture} {source : String}
    {memorySize : Nat} {l : Line} {w : MemoryWrite} (hbuild : d.build = .ok arch)
    (hl : l ∈ (Program.assemble arch source memorySize).lines) (herrors : l.errors = [])
    (hw : w ∈ l.writes) :
    (l.Tight arch → Word.Representable w.value w.length) ∧
      (arch = architecture → l.isCode = true → Word.Representable w.value w.length) ∧
      ∀ {m m' : Machine} {entry : Int} {front back : List Line},
        (Program.assemble arch source memorySize).lines = front ++ l :: back →
        (Program.assemble arch source memorySize).load m = (.ok entry, m') →
        (∀ k ∈ back, ∀ i, l.Covers i → ¬ k.Covers i) →
        (m'.memory.Holds w.address w.length w.value ↔ Word.Representable w.value w.length) := by
  have harch := Architecture.checked_of_build hbuild
  have hfits : l.Tight arch → Word.Representable w.value w.length := by
    intro htight
    exact Program.representable_of_mem_writes harch hl herrors htight hw
  refine ⟨hfits, ?_, ?_⟩
  · rintro rfl hcode
    exact hfits (tight_of_isCode hcode)
  · intro m m' entry front back hlines hload hkept
    exact Program.holds_iff_of_load harch hlines hw hload hkept

/-- The first line of a program of two instructions. -/
def immediateLine : Line :=
  { number := 1, text := "LDA #$FF", address := some 0, argument := "#$FF"
    body := .code
      { mnemonic := "LDA", size := 1, relative := false, opcode := some 0xA9
        operand := some { text := "#$FF", mode := 1, value := 255, size := 1 } } }

/-- The second line. -/
def endLine : Line :=
  { number := 2, text := "END", address := some 2
    body := .code { mnemonic := "END", size := 1, relative := false, opcode := some 0xFF } }

/-- The tables of `edu1` with a decoder of data that refuses what does not fit a byte. -/
def checkedDraft : Draft :=
  { Edu1.draft with
    data := [{ pattern := [[.number .decimal]], size := 1, decode := .checked 1 Numeral.decimal }] }

/-- A data line of its programs. -/
def negativeLine : Line :=
  { number := 1, text := "10 -5", address := some 10, argument := "-5", body := .data "" 1 (-5) }

theorem nothing_cut_off_of_tight_byte :
    (Word.Representable 255 1 ∧
        ((Program.assemble architecture "LDA #$FF\nEND\n" 16).load
          { memory := .zeroed 16 }).2.memory.Holds 1 1 255) ∧
      Word.Representable (-5) 1 := by
  constructor
  · have hlines : (Program.assemble architecture "LDA #$FF\nEND\n" 16).lines =
        [] ++ immediateLine :: [endLine] := by decide
    have hl : immediateLine ∈ (Program.assemble architecture "LDA #$FF\nEND\n" 16).lines := by
      rw [hlines]
      exact List.mem_cons_self
    have hw : (⟨1, 1, 255⟩ : MemoryWrite) ∈ immediateLine.writes := by decide
    obtain ⟨-, hinstruction, hholds⟩ := nothing_cut_off_of_tight build_draft hl rfl hw
    -- the second line begins where the first one ends
    have hkept : ∀ k ∈ [endLine], ∀ i, immediateLine.Covers i → ¬ k.Covers i := by
      rintro k hk i ⟨-, start, hstart, -, hlt⟩ ⟨-, start', hstart', hle, -⟩
      obtain rfl := List.mem_singleton.1 hk
      have hfirst : (0 : Int) = start := Option.some.inj hstart
      have hsecond : (2 : Int) = start' := Option.some.inj hstart'
      have hfootprint : immediateLine.footprint = 2 := rfl
      omega
    have hload : ((Program.assemble architecture "LDA #$FF\nEND\n" 16).load
        { memory := .zeroed 16 }).1 = .ok 0 := by decide
    have hfits := hinstruction rfl rfl
    exact ⟨hfits, (hholds hlines (Prod.ext hload rfl) hkept).2 hfits⟩
  · have hbuild : checkedDraft.build = .ok { checkedDraft with pc := 0 } := rfl
    have hl : negativeLine ∈
        (Program.assemble { checkedDraft with pc := 0 } "10 -5\n.END\n" 16).lines := by
      decide
    have hw : (⟨10, 1, -5⟩ : MemoryWrite) ∈ negativeLine.writes := by decide
    obtain ⟨hrepresentable, -, -⟩ := nothing_cut_off_of_tight hbuild hl rfl hw
    apply hrepresentable
    constructor
    · intro c o m hbody
      simp [negativeLine] at hbody
    · intro keyword size v d hbody hd hsize
      obtain rfl := List.mem_singleton.1 hd
      obtain rfl := hsize
      exact Decoder.within_checked 1 Numeral.decimal

end Mos6502

/-- An instruction of `edu1` with a number that does not fit its operand. -/
def Edu1.overlongLine : Line :=
  { number := 1, text := "MOVA #300", address := some 0, argument := "#300"
    body := .code
      { mnemonic := "MOVA", size := 1, relative := false, opcode := some 7
        operand := some { text := "#300", mode := 2, value := 300, size := 1 } } }

/-- On `edu1` the number of an immediate operand is not compared with the width of the operand: the
program has no problem and is loaded, but of the number that is written only the low byte is
stored. -/
theorem Edu1.immediate_is_cut_off :
    (Program.assemble architecture "MOVA #300\n.END\n" 16).isOk = true ∧
      overlongLine ∈ (Program.assemble architecture "MOVA #300\n.END\n" 16).lines ∧
      ⟨1, 1, 300⟩ ∈ overlongLine.writes ∧ ¬ Word.Representable 300 1 ∧
      overlongLine.bytes = [7, 44] ∧
      ((Program.assemble architecture "MOVA #300\n.END\n" 16).load
        { memory := .zeroed 16 }).1 = .ok 0 ∧
      ((Program.assemble architecture "MOVA #300\n.END\n" 16).load
        { memory := .zeroed 16 }).2.memory.slice 0 3 = [7, 44, 255] := by
  decide

end Breadboard
