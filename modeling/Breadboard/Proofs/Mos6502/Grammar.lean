import Breadboard.Proofs.Mos6502.Operands
import Breadboard.Proofs.Pattern.Grammar

/-!
# The operand grammar of the 6502

An operand of the 6502 is a value with text around it: the accumulator, hexadecimal digits after a
`$`, or a label (`Addressing.Written`). The alternatives of a mode derive exactly the operands that
are written in it (`Addressing.written_iff_derives`). What stands around a value has no character
that a value is made of, so a text can be taken apart in one way only, and apart from `A`, which is
the accumulator as well as a label, it is an operand of one mode at most (`Written.unique`). The
order of the modes decides only there (`operandOf_written`).
-/

namespace Breadboard.Mos6502

open Text

/-! ## Values -/

/-- What stands for the value of an operand. -/
inductive Value where
  | accumulator
  /-- The digits after a `$`. -/
  | digits (ds : List Char)
  | label (name : List Char)
  deriving DecidableEq, Repr

namespace Value

/-- The value as it is written. -/
def text : Value → List Char
  | .accumulator => ['A']
  | .digits ds => '$' :: ds
  | .label name => name

/-- The value is a number of `least` to `most` hexadecimal digits. -/
def HasDigits (v : Value) (least most : Nat) : Prop :=
  ∃ ds, v = .digits ds ∧ (∀ d ∈ ds, isHexDigit d = true) ∧ least ≤ ds.length ∧ ds.length ≤ most

/-- The value is a label: a letter, then letters or digits. -/
def IsLabel (v : Value) : Prop :=
  ∃ c cs, v = .label (c :: cs) ∧ isLetter c = true ∧
    ∀ d ∈ cs, isLetter d = true ∨ isDecimalDigit d = true

/-- The name of the label, if the value is one. -/
def name? : Value → Option String
  | .label name => some (String.ofList name)
  | _ => none

/-- The number that the value denotes. It is zero for the accumulator, and for a label as long as
that is open. -/
def number : Value → Nat
  | .digits ds => hexNumber ds
  | _ => 0

/-- A character that values are made of. -/
def isPart (c : Char) : Bool := c == '$' || isLetter c || isDecimalDigit c

variable {v w : Value} {least most : Nat}

theorem isPart_of_isHexDigit {c : Char} (h : isHexDigit c = true) : isPart c = true := by
  simp only [isHexDigit, isPart, isLetter, Bool.or_eq_true, Bool.and_eq_true, decide_eq_true_eq,
    Char.le_def, UInt32.le_iff_toNat_le] at h ⊢
  rcases h with (hdigit | ⟨hleast, hmost⟩) | ⟨hleast, hmost⟩
  · exact Or.inr hdigit
  · refine Or.inl (Or.inr (Or.inl ⟨hleast, ?_⟩))
    exact Nat.le_trans hmost (by decide)
  · refine Or.inl (Or.inr (Or.inr ⟨hleast, ?_⟩))
    exact Nat.le_trans hmost (by decide)

/-- A value has a character, and consists of characters that values are made of. -/
theorem isPart_text (h : v.HasDigits least most ∨ v.IsLabel) :
    v.text ≠ [] ∧ ∀ c ∈ v.text, isPart c = true := by
  rcases h with ⟨ds, rfl, hds, -, -⟩ | ⟨c, cs, rfl, hfirst, hrest⟩
  · refine ⟨List.cons_ne_nil _ _, List.forall_mem_cons.2 ⟨rfl, ?_⟩⟩
    exact fun d hd => isPart_of_isHexDigit (hds d hd)
  · refine ⟨List.cons_ne_nil _ _, List.forall_mem_cons.2 ⟨by simp [isPart, hfirst], ?_⟩⟩
    intro d hd
    rcases hrest d hd with hletter | hdigit
    · simp [isPart, hletter]
    · simp [isPart, hdigit]

/-- Labels do not begin with a `$`. -/
theorem IsLabel.text_ne (h : v.IsLabel) (ds : List Char) : v.text ≠ '$' :: ds := by
  obtain ⟨c, cs, rfl, hfirst, -⟩ := h
  intro heq
  obtain ⟨rfl, -⟩ := List.cons.inj heq
  exact absurd hfirst (by decide)

/-- A value is known by its text. -/
theorem eq_of_text_eq {least' most' : Nat} (hv : v.HasDigits least most ∨ v.IsLabel)
    (hw : w.HasDigits least' most' ∨ w.IsLabel) (h : v.text = w.text) : v = w := by
  rcases hv with ⟨ds, rfl, -⟩ | hv
  · rcases hw with ⟨es, rfl, -⟩ | hw
    · rw [(List.cons.inj h).2]
    · exact absurd h.symm (hw.text_ne ds)
  · rcases hw with ⟨es, rfl, -⟩ | hw
    · exact absurd h (hv.text_ne es)
    · obtain ⟨c, cs, rfl, -⟩ := hv
      obtain ⟨d, es, rfl, -⟩ := hw
      exact congrArg label h

end Value

/-! ## Operands -/

namespace Addressing

/-- The text is an operand of the addressing mode that is written with the value `v`. -/
inductive Written : Addressing → Value → List Char → Prop where
  | accumulator : Written .accumulator .accumulator ['A']
  | immediate {v : Value} (h : v.HasDigits 1 2) : Written .immediate v ('#' :: v.text)
  | zeroPage {v : Value} (h : v.HasDigits 1 2) : Written .zeroPage v v.text
  | zeroPageX {v : Value} (h : v.HasDigits 1 2) : Written .zeroPageX v (v.text ++ [',', 'X'])
  | zeroPageY {v : Value} (h : v.HasDigits 1 2) : Written .zeroPageY v (v.text ++ [',', 'Y'])
  | absolute {v : Value} (h : v.HasDigits 4 4 ∨ v.IsLabel) : Written .absolute v v.text
  | absoluteX {v : Value} (h : v.HasDigits 4 4 ∨ v.IsLabel) :
      Written .absoluteX v (v.text ++ [',', 'X'])
  | absoluteY {v : Value} (h : v.HasDigits 4 4 ∨ v.IsLabel) :
      Written .absoluteY v (v.text ++ [',', 'Y'])
  | indirect {v : Value} (h : v.HasDigits 4 4 ∨ v.IsLabel) :
      Written .indirect v ('(' :: v.text ++ [')'])
  | indirectX {v : Value} (h : v.HasDigits 1 2 ∨ v.IsLabel) :
      Written .indirectX v ('(' :: v.text ++ [',', 'X', ')'])
  | indirectY {v : Value} (h : v.HasDigits 1 2 ∨ v.IsLabel) :
      Written .indirectY v ('(' :: v.text ++ [')', ',', 'Y'])

/-- The mode takes labels as well as numbers. -/
def takesLabels : Addressing → Bool
  | .absolute | .absoluteX | .absoluteY | .indirect | .indirectX | .indirectY => true
  | _ => false

/-- The mode takes the value: a number with as many digits as it asks for, or a label. -/
def Takes (a : Addressing) (v : Value) : Prop :=
  v.HasDigits a.leastDigits (2 * a.width) ∨ a.takesLabels = true ∧ v.IsLabel

variable {a b : Addressing} {v w : Value} {front back : String} {k : Fin modes.length}
  {cs : List Char}

theorem leastDigits_pos (a : Addressing) : 0 < a.leastDigits := by
  rw [leastDigits]
  split
  · exact Nat.one_pos
  · exact Nat.succ_pos 3

theorem Takes.isValue (h : a.Takes v) :
    v.HasDigits a.leastDigits (2 * a.width) ∨ v.IsLabel :=
  h.imp_right And.right

/-- In a mode that takes numbers, an operand is a value that the mode takes, between the texts of
the mode. -/
theorem written_iff (h : a.around = some (front, back)) :
    a.Written v cs ↔ a.Takes v ∧ cs = front.toList ++ (v.text ++ back.toList) := by
  constructor
  · intro hwritten
    cases hwritten with
    | accumulator => simp [around] at h
    | immediate hv | zeroPage hv | zeroPageX hv | zeroPageY hv =>
      obtain ⟨rfl, rfl⟩ := Prod.mk.inj (Option.some.inj h)
      exact ⟨Or.inl hv, by simp⟩
    | absolute hv | absoluteX hv | absoluteY hv | indirect hv | indirectX hv | indirectY hv =>
      obtain ⟨rfl, rfl⟩ := Prod.mk.inj (Option.some.inj h)
      exact ⟨hv.imp_right fun hlabel => ⟨rfl, hlabel⟩, by simp⟩
  · rintro ⟨hv, rfl⟩
    have hdigits (ha : a.takesLabels = false) : v.HasDigits a.leastDigits (2 * a.width) :=
      hv.resolve_right (by simp [ha])
    cases a with
    | implied | accumulator => simp [around] at h
    | immediate => cases h; simpa using Written.immediate (hdigits rfl)
    | zeroPage => cases h; simpa using Written.zeroPage (hdigits rfl)
    | zeroPageX => cases h; simpa using Written.zeroPageX (hdigits rfl)
    | zeroPageY => cases h; simpa using Written.zeroPageY (hdigits rfl)
    | absolute => cases h; simpa using Written.absolute hv.isValue
    | absoluteX => cases h; simpa using Written.absoluteX hv.isValue
    | absoluteY => cases h; simpa using Written.absoluteY hv.isValue
    | indirect => cases h; simpa using Written.indirect hv.isValue
    | indirectX => cases h; simpa using Written.indirectX hv.isValue
    | indirectY => cases h; simpa using Written.indirectY hv.isValue

/-- Only the accumulator is written as its operand. -/
theorem written_accumulator_iff :
    Written .accumulator v cs ↔ v = .accumulator ∧ cs = ['A'] := by
  constructor
  · intro h
    cases h
    exact ⟨rfl, rfl⟩
  · rintro ⟨rfl, rfl⟩
    exact .accumulator

/-- There is an alternative for numbers, and one for labels if the mode takes them. -/
theorem pattern_eq (h : a.around = some (front, back)) (hk : a.mode? = some k) :
    (modes.get k).pattern = valueForm front (.hex "$" a.leastDigits (2 * a.width)) back ::
      if a.takesLabels = true then [labelForm front back] else [] := by
  cases a with
  | implied | accumulator => simp [around] at h
  | _ =>
    obtain ⟨rfl, rfl⟩ := Prod.mk.inj (Option.some.inj h)
    obtain rfl := Option.some.inj hk
    rfl

end Addressing

/-! ## What the alternatives derive -/

section Forms

variable {labels : LabelShape} {cs taken : List Char} {last : Option (List Char)}

/-- An alternative with a capture between two texts derives what is captured between these texts. -/
theorem derives_between_iff {piece : Piece} (hpiece : piece.captures = true) {front back : String} :
    Alternative.Derives labels [.literal front, piece, .literal back] cs last ↔
      ∃ taken, piece.Derives labels taken ∧ cs = front.toList ++ (taken ++ back.toList) ∧
        last = some taken := by
  constructor
  · intro h
    cases h with
    | cons hfront h =>
    cases h with
    | cons htaken h =>
    cases h with
    | cons hback h =>
    obtain ⟨rfl, rfl⟩ := Alternative.derives_nil_iff.1 h
    cases hfront
    cases hback
    refine ⟨_, htaken, by rw [List.append_nil], ?_⟩
    rw [if_pos hpiece]
    rfl
  · rintro ⟨taken, htaken, rfl, rfl⟩
    have hback : Alternative.Derives labels [.literal back] _ _ := .cons (.literal back) .nil
    have h := Alternative.Derives.cons (.literal front) (.cons htaken hback)
    rw [if_pos hpiece, List.append_nil] at h
    exact h

/-- The texts of a hexadecimal number are values with as many digits. -/
theorem derives_hex_iff {least most : Nat} :
    Piece.Derives labels (.number (.hex "$" least most)) taken ↔
      ∃ v : Value, v.HasDigits least most ∧ taken = v.text := by
  constructor
  · intro h
    cases h with
    | @number _ sign digits hsign hdigits hleast hmost =>
    obtain rfl : sign = [] := hsign.resolve_right (by simp [NumberShape.hex])
    refine ⟨.digits digits, ⟨digits, rfl, hdigits, hleast, hmost most rfl⟩, ?_⟩
    simp [NumberShape.hex, Value.text]
  · rintro ⟨_, ⟨ds, rfl, hds, hleast, hmost⟩, rfl⟩
    have hroom : ∀ most', some most = some most' → ds.length ≤ most' := by
      rintro most' ⟨⟩
      exact hmost
    have h := @Piece.Derives.number labels (.hex "$" least most) [] ds (Or.inl rfl) hds hleast hroom
    simpa [NumberShape.hex, Value.text] using h

/-- The texts of a label are the labels. -/
theorem derives_label_iff :
    Piece.Derives {} .label taken ↔ ∃ v : Value, v.IsLabel ∧ taken = v.text := by
  constructor
  · intro h
    cases h with
    | @label c cs hfirst hrest =>
    refine ⟨.label (c :: cs), ⟨c, cs, rfl, hfirst, ?_⟩, rfl⟩
    intro d hd
    exact (Bool.or_eq_true _ _).mp (hrest d hd)
  · rintro ⟨_, ⟨c, cs, rfl, hfirst, hrest⟩, rfl⟩
    apply @Piece.Derives.label {} c cs hfirst
    intro d hd
    exact (Bool.or_eq_true _ _).mpr (hrest d hd)

theorem derives_choice_iff {word : String} (hword : word ≠ "") :
    Alternative.Derives labels [.choice [word]] cs last ↔
      cs = word.toList ∧ last = some word.toList := by
  constructor
  · intro h
    cases h with
    | cons htaken h =>
    obtain ⟨rfl, rfl⟩ := Alternative.derives_nil_iff.1 h
    cases htaken with
    | choice hmem hne =>
    obtain rfl := List.mem_singleton.1 hmem
    exact ⟨by rw [List.append_nil], rfl⟩
  · rintro ⟨rfl, rfl⟩
    have h : Alternative.Derives labels [.choice [word]] _ _ :=
      .cons (.choice (List.mem_singleton_self word) hword) .nil
    simpa [Piece.captures] using h

/-- The alternatives of a mode derive the operands that are written in it, with the value as the
last capture. -/
theorem written_iff_derives {a : Addressing} {k : Fin modes.length} (hk : a.mode? = some k) :
    (∃ form ∈ (modes.get k).pattern, Alternative.Derives {} form cs last) ↔
      ∃ v, a.Written v cs ∧ last = some v.text := by
  cases haround : a.around with
  | none =>
    cases a with
    | accumulator =>
      obtain rfl := Option.some.inj hk
      have hpattern : (modes.get ⟨0, by decide⟩).pattern = [[.choice ["A"]]] := rfl
      have hforms : Alternative.Derives {} [.choice ["A"]] cs last ↔ _ :=
        derives_choice_iff (by decide)
      rw [hpattern]
      simpa [Addressing.written_accumulator_iff, Value.text] using hforms
    | implied => simp [Addressing.mode?] at hk
    | _ => simp [Addressing.around] at haround
  | some around =>
    obtain ⟨front, back⟩ := around
    have hwritten (v : Value) : a.Written v cs ↔ _ := Addressing.written_iff haround
    rw [Addressing.pattern_eq haround hk]
    constructor
    · rintro ⟨form, hform, h⟩
      rcases List.mem_cons.1 hform with rfl | hlabels
      · obtain ⟨taken, htaken, hcs, hlast⟩ := (derives_between_iff rfl).1 h
        obtain ⟨v, hv, rfl⟩ := derives_hex_iff.1 htaken
        exact ⟨v, (hwritten v).2 ⟨Or.inl hv, hcs⟩, hlast⟩
      · obtain ⟨htakes, hmem⟩ : a.takesLabels = true ∧ form = labelForm front back := by
          simpa using hlabels
        rw [hmem] at h
        obtain ⟨taken, htaken, hcs, hlast⟩ := (derives_between_iff rfl).1 h
        obtain ⟨v, hv, rfl⟩ := derives_label_iff.1 htaken
        exact ⟨v, (hwritten v).2 ⟨Or.inr ⟨htakes, hv⟩, hcs⟩, hlast⟩
    · rintro ⟨v, h, hlast⟩
      obtain ⟨hv, hcs⟩ := (hwritten v).1 h
      rcases hv with hdigits | ⟨htakes, hlabel⟩
      · refine ⟨_, List.mem_cons_self, (derives_between_iff rfl).2 ⟨_, ?_, hcs, hlast⟩⟩
        exact derives_hex_iff.2 ⟨v, hdigits, rfl⟩
      · refine ⟨labelForm front back, by simp [htakes], ?_⟩
        refine (derives_between_iff rfl).2 ⟨_, ?_, hcs, hlast⟩
        exact derives_label_iff.2 ⟨v, hlabel, rfl⟩

end Forms

/-! ## One mode for a text -/

/-- A text with a middle part of one class, between parts that are not of the class where they touch
it, can be divided in one way only. -/
theorem eq_of_append_eq {p : Char → Bool} {pre mid post pre' mid' post' : List Char}
    (hpre : ∀ c ∈ pre, p c = false) (hmid : mid ≠ [] ∧ ∀ c ∈ mid, p c = true)
    (hpost : ∀ c, post.head? = some c → p c = false) (hpre' : ∀ c ∈ pre', p c = false)
    (hmid' : mid' ≠ [] ∧ ∀ c ∈ mid', p c = true)
    (hpost' : ∀ c, post'.head? = some c → p c = false)
    (h : pre ++ (mid ++ post) = pre' ++ (mid' ++ post')) :
    pre = pre' ∧ mid = mid' ∧ post = post' := by
  -- the first part ends where the class begins, the middle part where it ends
  have hfront {pre mid post : List Char} (hpre : ∀ c ∈ pre, p c = false)
      (hmid : mid ≠ [] ∧ ∀ c ∈ mid, p c = true) :
      (pre ++ (mid ++ post)).takeWhile (fun c => ! p c) = pre := by
    apply takeWhile_append_of_stop
    · intro c hc
      simp [hpre c hc]
    · intro c hc
      rw [List.head?_append_of_ne_nil _ hmid.1] at hc
      simp [hmid.2 c (List.mem_of_head? hc)]
  obtain rfl : pre = pre' := by rw [← hfront hpre hmid, h, hfront hpre' hmid']
  have hrest := List.append_cancel_left h
  obtain rfl : mid = mid' := by
    rw [← takeWhile_append_of_stop hmid.2 hpost, hrest, takeWhile_append_of_stop hmid'.2 hpost']
  exact ⟨rfl, rfl, List.append_cancel_left hrest⟩

namespace Addressing

variable {a b : Addressing} {v w : Value} {front back : String} {k : Fin modes.length}
  {cs : List Char}

/-- What stands around a value has no character that values are made of, where it touches the
value. -/
theorem isPart_around (h : a.around = some (front, back)) :
    (∀ c ∈ front.toList, Value.isPart c = false) ∧
      ∀ c, back.toList.head? = some c → Value.isPart c = false := by
  cases a with
  | implied | accumulator => simp [around] at h
  | _ =>
    obtain ⟨rfl, rfl⟩ := Prod.mk.inj (Option.some.inj h)
    simp [Value.isPart, isLetter, isDecimalDigit]

/-- Modes that take labels differ in what stands around the value. -/
theorem eq_of_takesLabels : ∀ {a b : Addressing}, a.takesLabels = true → b.takesLabels = true →
    a.around = b.around → a = b := by
  intro a b
  cases a <;> cases b <;> decide

/-- Modes that have the same texts do not take the same values. -/
theorem eq_of_takes (ha : a.around = some (front, back)) (hb : b.around = some (front, back))
    (hav : a.Takes v) (hbv : b.Takes v) : a = b := by
  rcases hav with ⟨ds, rfl, -, hleast, hmost⟩ | ⟨htakes, c, cs, rfl, -⟩
  · rcases hbv with ⟨es, hes, -, hleast', hmost'⟩ | ⟨-, c, cs, hlabel, -⟩
    · obtain rfl := Value.digits.inj hes
      -- one byte has at most two digits, two bytes have four
      have hwidth := width_of_around ha
      have hwidth' := width_of_around hb
      have hsame : a.width = b.width := by
        rw [leastDigits] at hleast hleast'
        split at hleast <;> split at hleast' <;> omega
      exact eq_of_around_eq (by simp [ha]) (ha.trans hb.symm) hsame
    · simp at hlabel
  · rcases hbv with ⟨es, hes, -⟩ | ⟨htakes', -⟩
    · simp at hes
    · exact eq_of_takesLabels htakes htakes' (ha.trans hb.symm)

/-- All operands but the accumulator have a value between two texts. -/
theorem Written.exists_around (h : a.Written v cs) (hcs : cs ≠ ['A']) :
    ∃ front back, a.around = some (front, back) := by
  cases h with
  | accumulator => exact absurd rfl hcs
  | _ => exact ⟨_, _, rfl⟩

/-- A text other than `A` is an operand of one mode with one value, if it is an operand. -/
theorem Written.unique (ha : a.Written v cs) (hb : b.Written w cs) (hcs : cs ≠ ['A']) :
    a = b ∧ v = w := by
  obtain ⟨front, back, haround⟩ := ha.exists_around hcs
  obtain ⟨front', back', haround'⟩ := hb.exists_around hcs
  obtain ⟨hav, hcsa⟩ := (written_iff haround).1 ha
  obtain ⟨hbw, hcsb⟩ := (written_iff haround').1 hb
  obtain ⟨hfront, hback⟩ := isPart_around haround
  obtain ⟨hfront', hback'⟩ := isPart_around haround'
  obtain ⟨heq, htext, heq'⟩ := eq_of_append_eq hfront (Value.isPart_text hav.isValue) hback
    hfront' (Value.isPart_text hbw.isValue) hback' (hcsa.symm.trans hcsb)
  obtain rfl := String.toList_inj.1 heq
  obtain rfl := String.toList_inj.1 heq'
  obtain rfl := Value.eq_of_text_eq hav.isValue hbw.isValue htext
  exact ⟨eq_of_takes haround haround' hav hbw, rfl⟩

theorem Written.exists_mode?_eq (h : a.Written v cs) : ∃ k, a.mode? = some k := by
  cases h with
  | _ => exact ⟨_, rfl⟩

/-- Every mode is the mode of some way of addressing. -/
theorem exists_mode?_eq (k : Fin modes.length) : ∃ a, mode? a = some k := by
  rcases exists_of_mode k with rfl | ⟨a, _, _, hk, -⟩
  · exact ⟨.accumulator, rfl⟩
  · exact ⟨a, hk⟩

end Addressing

/-! ## Reading operands -/

section Reading

variable {a : Addressing} {v : Value} {k : Fin modes.length} {front back text : String}
  {found : Pattern.Found}

/-- The alternatives of every mode divide a text in one way only. -/
theorem decisive_modes : ∀ k : Fin modes.length, (modes.get k).pattern.Decisive {} := by
  decide

/-- A mode accepts operands that are written in it, and finds their values. -/
theorem written_of_match? (hk : a.mode? = some k)
    (h : (modes.get k).pattern.match? {} text = some found) :
    ∃ v, a.Written v text.toList ∧ found.captured = String.ofList v.text := by
  obtain ⟨form, last, hform, hderives, hcaptured, -⟩ := Pattern.derives_of_match? h
  obtain ⟨v, hv, rfl⟩ := (written_iff_derives hk).1 ⟨form, List.mem_of_getElem? hform, hderives⟩
  exact ⟨v, hv, hcaptured⟩

/-- A mode accepts all operands that are written in it. -/
theorem exists_match?_of_written (hk : a.mode? = some k) (h : a.Written v text.toList) :
    ∃ found, (modes.get k).pattern.match? {} text = some found := by
  obtain ⟨form, hform, hderives⟩ := (written_iff_derives hk).2 ⟨v, h, rfl⟩
  cases hmatch : (modes.get k).pattern.match? {} text with
  | none =>
    have hunderived := (Pattern.match?_eq_none_iff (decisive_modes k)).1 hmatch
    exact absurd hderives (hunderived form hform _)
  | some found => exact ⟨found, rfl⟩

/-- A mode accepts exactly the operands that are written in it. -/
theorem accepts_iff_written {k : Fin modes.length} :
    ((modes.get k).pattern.match? {} text).isSome = true ↔
      ∃ a v, Addressing.mode? a = some k ∧ a.Written v text.toList := by
  rw [Option.isSome_iff_exists]
  constructor
  · rintro ⟨found, hfound⟩
    obtain ⟨a, hk⟩ := Addressing.exists_mode?_eq k
    obtain ⟨v, hv, -⟩ := written_of_match? hk hfound
    exact ⟨a, v, hk, hv⟩
  · rintro ⟨a, v, hk, hv⟩
    exact exists_match?_of_written hk hv

/-- Only `A` is accepted by two modes. -/
theorem eq_of_accepts {j k : Fin modes.length} (hne : text ≠ "A")
    (hj : ((modes.get j).pattern.match? {} text).isSome = true)
    (hk : ((modes.get k).pattern.match? {} text).isSome = true) : j = k := by
  obtain ⟨a, v, haj, hav⟩ := accepts_iff_written.1 hj
  obtain ⟨b, w, hbk, hbw⟩ := accepts_iff_written.1 hk
  obtain ⟨rfl, -⟩ := hav.unique hbw fun heq => hne (String.toList_inj.1 heq)
  exact Option.some.inj (haj.symm.trans hbk)

/-- An operand other than `A` is read in the mode that it is written in. -/
theorem modeOf?_of_written (hne : text ≠ "A") (hk : a.mode? = some k)
    (h : a.Written v text.toList) :
    ∃ found, architecture.modeOf? text = some (k, found) ∧
      found.captured = String.ofList v.text := by
  obtain ⟨found, hfound⟩ := exists_match?_of_written hk h
  obtain ⟨w, hw, hcaptured⟩ := written_of_match? hk hfound
  obtain ⟨-, rfl⟩ := hw.unique h fun heq => hne (String.toList_inj.1 heq)
  refine ⟨found, ?_, hcaptured⟩
  -- no other mode accepts it, so the order of the modes does not matter
  apply findSome?_of_unique (k := k)
  · exact Option.map_eq_some_iff.2 ⟨found, hfound, rfl⟩
  · exact List.mem_finRange k
  · intro j _ hj
    apply Option.map_eq_none_iff.2
    apply Option.not_isSome_iff_eq_none.1
    intro haccepts
    exact hj (eq_of_accepts hne haccepts (Option.isSome_of_eq_some hfound))

/-- A mode captures in more than one alternative if it takes labels. -/
theorem capturing_of_takesLabels (hk : a.mode? = some k) (h : a.takesLabels = true) :
    1 < (modes.get k).pattern.capturing := by
  cases a with
  | absolute | absoluteX | absoluteY | indirect | indirectX | indirectY =>
    obtain rfl := Option.some.inj hk
    decide
  | _ => simp [Addressing.takesLabels] at h

/-- What the mode found is taken for a label exactly if a label is written there. -/
theorem readsLabel_iff (hk : a.mode? = some k) (h : a.Takes v) :
    (1 < (modes.get k).pattern.capturing && LabelShape.accepts {} v.text) = v.name?.isSome := by
  rcases h with ⟨ds, rfl, -⟩ | ⟨htakes, c, cs, rfl, hfirst, hrest⟩
  · exact Bool.and_false _
  · have haccepts : LabelShape.accepts {} (c :: cs) = true := by
      apply Bool.and_eq_true_iff.2 ⟨hfirst, List.all_eq_true.2 _⟩
      intro d hd
      exact (Bool.or_eq_true _ _).mpr (hrest d hd)
    rw [Value.text, haccepts, Bool.and_true]
    exact decide_eq_true (capturing_of_takesLabels hk htakes)

/-- A number that a mode takes fits the width of the mode, and its digits are decoded to it. -/
theorem number_of_hasDigits (haround : a.around = some (front, back)) {ds : List Char}
    (h : (Value.digits ds).HasDigits a.leastDigits (2 * a.width)) :
    hexNumber ds < Word.modulus a.width ∧
      Numeral.dollarHex (String.ofList ('$' :: ds)) = .ok (hexNumber ds) := by
  obtain ⟨_, ⟨⟩, hds, hleast, hmost⟩ := h
  have hwidth := Addressing.width_of_around haround
  have hne : ds ≠ [] := List.ne_nil_of_length_pos (a.leastDigits_pos.trans_le hleast)
  have hvalue := value?_of_isHexDigit hne hds
  have hfits := lt_modulus_of_value? hvalue hmost
  exact ⟨hfits, Numeral.dollarHex_of_value? hvalue (by omega) hfits⟩

/-- An operand other than `A` is decoded to the label that is written there, or to the number that
is written there and fits the width of the mode. -/
theorem operandOf_of_written (hne : text ≠ "A") (hk : a.mode? = some k)
    (h : a.Written v text.toList) :
    architecture.operandOf text false =
        .ok { text, mode := k.val, label := v.name?, value := v.number,
              size := (modes.get k).size } ∧
      v.number < Word.modulus (modes.get k).size := by
  obtain ⟨found, hmode, hcaptured⟩ := modeOf?_of_written hne hk h
  obtain ⟨front, back, haround⟩ := h.exists_around fun heq => hne (String.toList_inj.1 heq)
  obtain ⟨hv, -⟩ := (Addressing.written_iff haround).1 h
  have hsize : a.width = (modes.get k).size := by rw [Addressing.width, hk, Option.elim_some]
  have hlabel : (1 < (architecture.mode k).pattern.capturing &&
      architecture.rules.labels.accepts found.captured.toList) = v.name?.isSome := by
    rw [hcaptured, String.toList_ofList]
    exact readsLabel_iff hk hv
  rw [Architecture.operandOf, hmode]
  dsimp only
  rw [hlabel, hcaptured]
  cases v with
  | accumulator => simp [Addressing.Takes, Value.HasDigits, Value.IsLabel] at hv
  | digits ds =>
    have hdigits := hv.resolve_right (by simp [Value.IsLabel])
    obtain ⟨hfits, hvalue⟩ := number_of_hasDigits haround hdigits
    have hdecode : decoded (architecture.mode k).decode (String.ofList ('$' :: ds)) =
        .ok (hexNumber ds : Int) := by
      have hmodeDecode : (architecture.mode k).decode = Numeral.dollarHex :=
        Addressing.decode_of_around haround hk
      rw [decoded, hmodeDecode, hvalue]
    refine ⟨?_, by rwa [← hsize]⟩
    show (decoded (architecture.mode k).decode (String.ofList ('$' :: ds))).map _ = _
    rw [hdecode]
    rfl
  | label name => exact ⟨rfl, Word.modulus_pos _⟩

/-- A text is in no mode if it is an operand of none. -/
theorem modeOf?_eq_none_iff :
    architecture.modeOf? text = none ↔ ∀ a v, ¬ Addressing.Written a v text.toList := by
  have hmodes : architecture.modeOf? text = none ↔
      ∀ k : Fin modes.length, (modes.get k).pattern.match? {} text = none := by
    simp only [Architecture.modeOf?, List.findSome?_eq_none_iff, List.mem_finRange, true_imp_iff,
      Option.map_eq_none_iff]
    rfl
  rw [hmodes]
  constructor
  · intro hnone a v h
    obtain ⟨k, hk⟩ := h.exists_mode?_eq
    obtain ⟨found, hfound⟩ := exists_match?_of_written hk h
    exact absurd ((hnone k).symm.trans hfound) (by simp)
  · intro hunwritten k
    apply Option.not_isSome_iff_eq_none.1
    intro haccepts
    obtain ⟨a, v, -, h⟩ := accepts_iff_written.1 haccepts
    exact hunwritten a v h

/-- The operands of the 6502: for every text, an operand is read in the mode that it is written in,
`A` as the accumulator, and decoded for instructions that are not relative to the label or the
number that is written there, which fits the width of the mode; any other text is in no mode. The
modes accept the texts that are written in them, and only `A` is accepted by two of them. -/
theorem operand_grammar (text : String) :
    (∀ a v, Addressing.Written a v text.toList → (text = "A" → a = .accumulator) →
      ∃ k, a.mode? = some k ∧ (architecture.modeOf? text).map Prod.fst = some k ∧
        architecture.operandOf text false =
          .ok { text, mode := k.val, label := v.name?, value := v.number,
                size := (architecture.mode k).size } ∧
        v.number < Word.modulus (architecture.mode k).size) ∧
    (architecture.modeOf? text = none ↔ ∀ a v, ¬ Addressing.Written a v text.toList) ∧
    (∀ k, ((architecture.mode k).pattern.match? architecture.rules.labels text).isSome = true ↔
      ∃ a v, Addressing.mode? a = some k ∧ a.Written v text.toList) ∧
    ((∃ j k, j ≠ k ∧
        ((architecture.mode j).pattern.match? architecture.rules.labels text).isSome = true ∧
        ((architecture.mode k).pattern.match? architecture.rules.labels text).isSome = true) ↔
      text = "A") := by
  refine ⟨?_, modeOf?_eq_none_iff, ?_, ?_⟩
  · intro a v h haccumulator
    by_cases hA : text = "A"
    · obtain rfl := haccumulator hA
      obtain ⟨rfl, -⟩ := Addressing.written_accumulator_iff.1 h
      subst hA
      exact ⟨⟨0, by decide⟩, rfl, rfl, rfl, by decide⟩
    · obtain ⟨k, hk⟩ := h.exists_mode?_eq
      obtain ⟨found, hmode, -⟩ := modeOf?_of_written hA hk h
      obtain ⟨hoperand, hfits⟩ := operandOf_of_written hA hk h
      exact ⟨k, hk, by rw [hmode]; rfl, hoperand, hfits⟩
  · intro k
    exact accepts_iff_written
  · constructor
    · rintro ⟨j, k, hne, hj, hk⟩
      by_contra hA
      exact hne (eq_of_accepts hA hj hk)
    · rintro rfl
      exact ⟨⟨0, by decide⟩, ⟨5, by decide⟩, by decide, by decide, by decide⟩

/-- A label before the index, three digits, and the accumulator, which is not read as a label. -/
theorem operand_grammar_loop :
    (architecture.modeOf? "(loop,X)").map Prod.fst = some ⟨9, by decide⟩ ∧
      architecture.operandOf "(loop,X)" false =
        .ok { text := "(loop,X)", mode := 9, label := some "loop", size := 1 } ∧
      (∀ a v, ¬ Addressing.Written a v "$1FF,Y".toList) ∧
      architecture.operandOf "A" false = .ok { text := "A", mode := 0, size := 0 } := by
  obtain ⟨hloop, -⟩ := operand_grammar "(loop,X)"
  obtain ⟨-, hdigits, -⟩ := operand_grammar "$1FF,Y"
  obtain ⟨hA, -⟩ := operand_grammar "A"
  have hlabel : (Value.label ['l', 'o', 'o', 'p']).IsLabel :=
    ⟨'l', ['o', 'o', 'p'], rfl, by decide, by simp [isLetter]⟩
  obtain ⟨k, hk, hmode, hoperand, -⟩ := hloop _ _ (.indirectX (Or.inr hlabel)) (by decide)
  obtain ⟨j, hj, -, hoperandA, -⟩ := hA _ _ .accumulator fun _ => rfl
  obtain rfl := Option.some.inj hk
  obtain rfl := Option.some.inj hj
  exact ⟨hmode, hoperand, hdigits.1 (by decide), hoperandA⟩

end Reading

end Breadboard.Mos6502
