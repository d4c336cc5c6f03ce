import Breadboard.Assembler.Classification
import Breadboard.Mos6502
import Breadboard.Proofs.Numeral

/-!
# How operands of the 6502 are recognised

Apart from the accumulator, an operand of the 6502 is a number between two texts. Such an operand
matches a form exactly if it stands between the texts of the form and has as many digits as the form
asks for (`match?_valueForm`), and a form for labels never accepts it (`match?_labelForm`). The
forms differ in their texts or in the number of digits, so the addressing mode that an operand was
written for is the one that it is read in (`modeOf?_numberText`).
-/

namespace Breadboard.Mos6502

open Text

/-! ## Pieces -/

/-- No hexadecimal digit begins the text. -/
def EndsDigits (cs : List Char) : Prop := ∀ c, cs.head? = some c → isHexDigit c = false

variable {labels : LabelShape}

theorem matchFrom?_cons (piece : Piece) (pieces : Alternative) (captured cs : List Char) :
    Alternative.matchFrom? labels captured (piece :: pieces) cs =
      (piece.split? labels cs).bind fun (taken, rest) =>
        Alternative.matchFrom? labels (if piece.captures then taken else captured) pieces rest :=
  rfl

/-- A last literal piece accepts its own text and nothing else. -/
theorem matchFrom?_literal (text : String) (captured cs : List Char) :
    Alternative.matchFrom? labels captured [.literal text] cs =
      if text.toList = cs then some captured else none := by
  simp only [Alternative.matchFrom?, Piece.split?, Piece.splitWord?]
  -- the last piece must leave nothing over
  by_cases hprefix : text.toList.isPrefixOf cs = true
  · rw [if_pos hprefix]
    obtain ⟨rest, rfl⟩ := List.isPrefixOf_iff_prefix.1 hprefix
    simp [Piece.captures]
  · rw [if_neg hprefix, if_neg]
    · rfl
    · rintro rfl
      simp at hprefix

theorem splitSign_hex (lead : String) (least most : Nat) (cs : List Char) :
    (NumberShape.hex lead least most).splitSign cs = ([], cs) := by
  rw [NumberShape.splitSign.eq_def]
  split
  · rfl
  · rfl

/-- A number takes its digits, but no more than its shape allows. -/
theorem split?_hex {least most : Nat} {ds rest : List Char} (hds : ∀ d ∈ ds, isHexDigit d = true)
    (hrest : EndsDigits rest) :
    (NumberShape.hex "$" least most).split? ('$' :: (ds ++ rest)) =
      if least ≤ min most ds.length then some ('$' :: ds.take most, ds.drop most ++ rest)
      else none := by
  -- the digits end where the rest begins
  have hdigits : (ds ++ rest).takeWhile isHexDigit = ds := by
    rw [List.takeWhile_append_of_pos hds]
    cases rest with
    | nil => simp
    | cons c rest =>
      have hc := hrest c rfl
      rw [List.takeWhile_cons_of_neg (by simp [hc]), List.append_nil]
  have hsplit : (NumberShape.hex "$" least most).splitDigits (ds ++ rest) =
      (ds.take most, ds.drop most ++ rest) := by
    show (ds ++ rest).splitAt (min most ((ds ++ rest).takeWhile isHexDigit).length) = _
    rw [hdigits, List.splitAt_eq]
    rcases Nat.le_total most ds.length with h | h
    · rw [Nat.min_eq_left h, List.take_append_of_le_length h, List.drop_append_of_le_length h]
    · rw [Nat.min_eq_right h, List.take_left, List.drop_left, List.take_of_length_le h,
        List.drop_of_length_le h, List.nil_append]
  have hlead : "$".toList.isPrefixOf ('$' :: (ds ++ rest)) = true := rfl
  have hdrop : ('$' :: (ds ++ rest)).drop "$".toList.length = ds ++ rest := rfl
  rw [NumberShape.split?, splitSign_hex]
  show (if "$".toList.isPrefixOf ('$' :: (ds ++ rest)) = true then _ else none) = _
  rw [if_pos hlead]
  dsimp only [NumberShape.hex] at hsplit ⊢
  rw [hdrop, hsplit, List.length_take]
  rfl

/-- A number begins with its `$`. -/
theorem split?_hex_of_ne {least most : Nat} {c : Char} (hc : c ≠ '$') (cs : List Char) :
    (NumberShape.hex "$" least most).split? (c :: cs) = none := by
  have hlead : ¬ "$".toList.isPrefixOf (c :: cs) = true := by
    simp [hc.symm]
  rw [NumberShape.split?, splitSign_hex]
  exact if_neg hlead

/-- A literal text without a `$` is found in front of a number exactly if it begins what stands
there. -/
theorem splitWord?_append_dollar {word : String} (hword : '$' ∉ word.toList)
    (pre rest : List Char) :
    (∃ tail, pre = word.toList ++ tail ∧
      Piece.splitWord? word (pre ++ '$' :: rest) = some (word.toList, tail ++ '$' :: rest)) ∨
    ¬ word.toList <+: pre ∧ Piece.splitWord? word (pre ++ '$' :: rest) = none := by
  by_cases hpre : word.toList <+: pre
  · obtain ⟨tail, rfl⟩ := hpre
    refine Or.inl ⟨tail, rfl, ?_⟩
    simp [Piece.splitWord?]
  · refine Or.inr ⟨hpre, ?_⟩
    rw [Piece.splitWord?, if_neg]
    rw [List.isPrefixOf_iff_prefix]
    rintro ⟨tail, heq⟩
    rcases List.append_eq_append_iff.1 heq with ⟨more, rfl, -⟩ | ⟨more, hmore, hrest⟩
    · exact hpre (List.prefix_append _ _)
    · cases more with
      | nil => exact hpre (by rw [hmore, List.append_nil])
      | cons c more =>
        obtain ⟨rfl, -⟩ := List.cons.inj hrest
        exact hword (by simp [hmore])

/-! ## Forms -/

/-- A form for numbers accepts a number between two texts if the texts are those of the form and the
number of digits is one that the form allows. -/
theorem match?_valueForm {front back : String} {least most : Nat} {pre ds post : List Char}
    (hfront : '$' ∉ front.toList) (hpre : '$' ∉ pre) (hback : EndsDigits back.toList)
    (hds : ∀ d ∈ ds, isHexDigit d = true) (hpost : EndsDigits post) :
    Alternative.match? (valueForm front (.hex "$" least most) back) labels
        (pre ++ '$' :: (ds ++ post)) =
      if front.toList = pre ∧ least ≤ ds.length ∧ ds.length ≤ most ∧ back.toList = post then
        some ('$' :: ds)
      else none := by
  rw [Alternative.match?, valueForm, matchFrom?_cons, Piece.split?]
  rcases splitWord?_append_dollar hfront pre (ds ++ post) with ⟨tail, rfl, hsplit⟩ | ⟨hne, hsplit⟩
  · rw [hsplit, Option.bind_some]
    dsimp only
    rw [matchFrom?_cons, Piece.split?]
    cases tail with
    | nil =>
      rw [List.nil_append, split?_hex hds hpost, List.append_nil]
      by_cases hleast : least ≤ min most ds.length
      · rw [if_pos hleast, Option.bind_some]
        dsimp only
        rw [matchFrom?_literal]
        by_cases hmost : ds.length ≤ most
        · rw [List.take_of_length_le hmost, List.drop_of_length_le hmost, List.nil_append]
          have hle : least ≤ ds.length := by omega
          simp [hle, hmost, Piece.captures]
        · -- a digit is left over, and the text behind the number does not begin with one
          rw [if_neg, if_neg]
          · tauto
          · intro heq
            obtain ⟨d, hd⟩ : ∃ d, (ds.drop most).head? = some d := by
              rw [← Option.isSome_iff_exists, List.isSome_head?]
              intro hnil
              exact hmost (List.drop_eq_nil_iff.1 hnil)
            have hdigit := hds d (List.mem_of_mem_drop (List.mem_of_head? hd))
            have hstop := hback d (by rw [heq, List.head?_append, hd, Option.some_or])
            rw [hdigit] at hstop
            exact absurd hstop (by decide)
      · rw [if_neg hleast, Option.bind_none, if_neg (by omega)]
    | cons c tail =>
      have hc : c ≠ '$' := by
        rintro rfl
        exact hpre (by simp)
      rw [List.cons_append, split?_hex_of_ne hc, Option.bind_none, if_neg]
      rintro ⟨heq, -⟩
      simp at heq
  · rw [hsplit, Option.bind_none, if_neg]
    rintro ⟨rfl, -⟩
    exact hne (List.prefix_refl _)

/-- A form for labels does not accept a number. -/
theorem match?_labelForm {front back : String} {pre rest : List Char}
    (hfront : '$' ∉ front.toList) (hpre : ∀ c ∈ pre, labels.first.accepts c = false)
    (hdollar : labels.first.accepts '$' = false) :
    Alternative.match? (labelForm front back) labels (pre ++ '$' :: rest) = none := by
  rw [Alternative.match?, labelForm, matchFrom?_cons, Piece.split?]
  rcases splitWord?_append_dollar hfront pre rest with ⟨tail, rfl, hsplit⟩ | ⟨-, hsplit⟩
  · rw [hsplit, Option.bind_some]
    dsimp only
    rw [matchFrom?_cons, Piece.split?]
    -- a label begins neither with a `$` nor with what may stand in front of a number
    cases tail with
    | nil =>
      rw [List.nil_append, LabelShape.split?, hdollar]
      rfl
    | cons c tail =>
      rw [List.cons_append, LabelShape.split?, hpre c (by simp)]
      rfl
  · rw [hsplit]
    rfl

/-! ## Addressing modes -/

namespace Addressing

/-- The number of bytes of the operand. -/
def width (a : Addressing) : Nat := a.mode?.elim 0 fun k => (modes.get k).size

/-- The texts in front of and behind the number that an operand is written as, unless it is written
without a number. -/
def around : Addressing → Option (String × String)
  | .implied | .accumulator => none
  | .immediate => some ("#", "")
  | .zeroPage | .absolute => some ("", "")
  | .zeroPageX | .absoluteX => some ("", ",X")
  | .zeroPageY | .absoluteY => some ("", ",Y")
  | .indirect => some ("(", ")")
  | .indirectX => some ("(", ",X)")
  | .indirectY => some ("(", "),Y")

/-- The least number of digits that the mode asks for. -/
def leastDigits (a : Addressing) : Nat := if a.width = 1 then 1 else 4

variable {a b : Addressing} {front back : String} {k : Fin modes.length}

/-- A number is one or two bytes wide. -/
theorem width_of_around (h : a.around = some (front, back)) : a.width = 1 ∨ a.width = 2 := by
  cases a with
  | implied | accumulator => simp [around] at h
  | absolute | absoluteX | absoluteY | indirect => exact Or.inr rfl
  | _ => exact Or.inl rfl

/-- The text in front of a number has neither a letter nor a `$`. -/
theorem front_of_around (h : a.around = some (front, back)) :
    '$' ∉ front.toList ∧ ∀ c ∈ front.toList, isLetter c = false := by
  cases a with
  | implied | accumulator => simp [around] at h
  | _ =>
    obtain ⟨rfl, rfl⟩ := Prod.mk.inj (Option.some.inj h)
    exact ⟨by decide, by simp [isLetter]⟩

/-- The text behind a number does not go on with digits. -/
theorem back_of_around (h : a.around = some (front, back)) : EndsDigits back.toList := by
  cases a with
  | implied | accumulator => simp [around] at h
  | _ =>
    obtain ⟨rfl, rfl⟩ := Prod.mk.inj (Option.some.inj h)
    simp [EndsDigits, isHexDigit, isDecimalDigit]

/-- Operands that are written in the same way have the same mode. -/
theorem eq_of_around_eq : ∀ {a b : Addressing},
    a.around.isSome = true → a.around = b.around → a.width = b.width → a = b := by
  intro a b
  cases a <;> cases b <;> decide

/-- Every mode but that of the accumulator takes numbers. -/
theorem exists_of_mode (k : Fin modes.length) :
    k = ⟨0, by decide⟩ ∨ ∃ a front back, mode? a = some k ∧ a.around = some (front, back) := by
  match k with
  | ⟨0, _⟩ => exact Or.inl rfl
  | ⟨1, _⟩ => exact Or.inr ⟨.immediate, _, _, rfl, rfl⟩
  | ⟨2, _⟩ => exact Or.inr ⟨.zeroPage, _, _, rfl, rfl⟩
  | ⟨3, _⟩ => exact Or.inr ⟨.zeroPageX, _, _, rfl, rfl⟩
  | ⟨4, _⟩ => exact Or.inr ⟨.zeroPageY, _, _, rfl, rfl⟩
  | ⟨5, _⟩ => exact Or.inr ⟨.absolute, _, _, rfl, rfl⟩
  | ⟨6, _⟩ => exact Or.inr ⟨.absoluteX, _, _, rfl, rfl⟩
  | ⟨7, _⟩ => exact Or.inr ⟨.absoluteY, _, _, rfl, rfl⟩
  | ⟨8, _⟩ => exact Or.inr ⟨.indirect, _, _, rfl, rfl⟩
  | ⟨9, _⟩ => exact Or.inr ⟨.indirectX, _, _, rfl, rfl⟩
  | ⟨10, _⟩ => exact Or.inr ⟨.indirectY, _, _, rfl, rfl⟩
  | ⟨n + 11, h⟩ =>
    have hlength : modes.length = 11 := rfl
    omega

/-- A mode that takes numbers may take labels instead. -/
theorem pattern_of_around (h : a.around = some (front, back)) (hk : a.mode? = some k) :
    ∃ rest, (modes.get k).pattern =
      valueForm front (.hex "$" a.leastDigits (2 * a.width)) back :: rest ∧
        ∀ form ∈ rest, form = labelForm front back := by
  cases a with
  | implied | accumulator => simp [around] at h
  | immediate | zeroPage | zeroPageX | zeroPageY =>
    obtain ⟨rfl, rfl⟩ := Prod.mk.inj (Option.some.inj h)
    obtain rfl := Option.some.inj hk
    exact ⟨[], rfl, by simp⟩
  | _ =>
    obtain ⟨rfl, rfl⟩ := Prod.mk.inj (Option.some.inj h)
    obtain rfl := Option.some.inj hk
    exact ⟨[labelForm _ _], rfl, by simp⟩

theorem decode_of_around (h : a.around = some (front, back)) (hk : a.mode? = some k) :
    (modes.get k).decode = Numeral.dollarHex := by
  cases a with
  | implied | accumulator => simp [around] at h
  | _ =>
    obtain rfl := Option.some.inj hk
    rfl

end Addressing

/-- An operand as it is written: the number between the texts of its mode. -/
def numberText (front back : String) (ds : List Char) : String :=
  String.ofList (front.toList ++ '$' :: (ds ++ back.toList))

/-- A text that no alternative matches is not accepted. -/
theorem matchFrom?_of_forall_none {labels : LabelShape} {text : List Char} {pattern : Pattern}
    (h : ∀ form ∈ pattern, Alternative.match? form labels text = none) (index : Nat) :
    Pattern.matchFrom? labels text index pattern = none := by
  induction pattern generalizing index with
  | nil => rfl
  | cons form rest ih =>
    rw [Pattern.matchFrom?, h form List.mem_cons_self]
    exact ih (fun f hf => h f (List.mem_cons_of_mem _ hf)) (index + 1)

section Number

variable {a : Addressing} {front back : String} {ds : List Char}

/-- A form has the texts and the number of digits of an operand exactly if it is the form that the
operand was written in. -/
theorem form_iff_eq (ha : a.around = some (front, back)) (hlength : ds.length = 2 * a.width)
    {b : Addressing} {front' back' : String} (hb : b.around = some (front', back')) :
    (front'.toList = front.toList ∧ b.leastDigits ≤ ds.length ∧ ds.length ≤ 2 * b.width ∧
      back'.toList = back.toList) ↔ a = b := by
  have hwidth := Addressing.width_of_around ha
  have hwidth' := Addressing.width_of_around hb
  constructor
  · rintro ⟨hfront, hleast, hmost, hback⟩
    -- a form for one byte takes at most two digits, a form for two bytes takes four
    have hsame : a.width = b.width := by
      rw [Addressing.leastDigits] at hleast
      split at hleast
      · omega
      · omega
    apply Addressing.eq_of_around_eq _ _ hsame
    · rw [ha]
      rfl
    · rw [ha, hb, String.toList_inj.1 hfront, String.toList_inj.1 hback]
  · rintro rfl
    obtain ⟨rfl, rfl⟩ := Prod.mk.inj (Option.some.inj (ha.symm.trans hb))
    refine ⟨rfl, ?_, hlength.le, rfl⟩
    rw [Addressing.leastDigits]
    split
    · omega
    · omega

/-- Of the modes that take numbers, only the one that an operand was written for accepts it. -/
theorem match?_pattern (ha : a.around = some (front, back)) (hds : ∀ d ∈ ds, isHexDigit d = true)
    (hlength : ds.length = 2 * a.width) {b : Addressing} {front' back' : String}
    {k : Fin modes.length} (hb : b.around = some (front', back')) (hk : b.mode? = some k) :
    (modes.get k).pattern.match? {} (numberText front back ds) =
      if a = b then some ⟨String.ofList ('$' :: ds), 0⟩ else none := by
  obtain ⟨rest, hpattern, hrest⟩ := Addressing.pattern_of_around hb hk
  obtain ⟨hdollar, hletters⟩ := Addressing.front_of_around ha
  obtain ⟨hdollar', -⟩ := Addressing.front_of_around hb
  have hnumber : Alternative.match?
      (valueForm front' (.hex "$" b.leastDigits (2 * b.width)) back') {}
      (front.toList ++ '$' :: (ds ++ back.toList)) = if a = b then some ('$' :: ds) else none := by
    rw [match?_valueForm hdollar' hdollar (Addressing.back_of_around hb) hds
      (Addressing.back_of_around ha)]
    simp only [form_iff_eq ha hlength hb]
  -- the forms for labels behind it accept nothing
  have hlabel : ∀ form ∈ rest, Alternative.match? form {}
      (front.toList ++ '$' :: (ds ++ back.toList)) = none := by
    intro form hform
    rw [hrest form hform]
    exact match?_labelForm hdollar' hletters rfl
  rw [hpattern, Pattern.match?, numberText, String.toList_ofList, Pattern.matchFrom?, hnumber]
  by_cases hab : a = b
  · rw [if_pos hab, if_pos hab]
  · rw [if_neg hab, if_neg hab]
    exact matchFrom?_of_forall_none hlabel _

/-- The mode of the accumulator takes no number. -/
theorem match?_accumulator (ha : a.around = some (front, back)) :
    (modes.get ⟨0, by decide⟩).pattern.match? {} (numberText front back ds) = none := by
  obtain ⟨-, hletters⟩ := Addressing.front_of_around ha
  have hfirst : ¬ "A".toList.isPrefixOf (front.toList ++ '$' :: (ds ++ back.toList)) = true := by
    cases hfront : front.toList with
    | nil => simp
    | cons c cs =>
      have hc := hletters c (by simp [hfront])
      have hne : 'A' ≠ c := by
        rintro rfl
        exact absurd hc (by decide)
      simp [hne]
  have hword : Piece.longestWord ["A"] (front.toList ++ '$' :: (ds ++ back.toList)) = "" := by
    simp only [Piece.longestWord, List.filter_cons, hfirst]
    rfl
  have hnone : Alternative.match? [.choice ["A"]] {}
      (front.toList ++ '$' :: (ds ++ back.toList)) = none := by
    rw [Alternative.match?, matchFrom?_cons, Piece.split?, hword]
    rfl
  rw [Pattern.match?, numberText, String.toList_ofList]
  apply matchFrom?_of_forall_none
  intro form hform
  obtain rfl := List.mem_singleton.1 hform
  exact hnone

/-- A search finds the only element that there is something for. -/
theorem findSome?_of_unique {α β : Type} {f : α → Option β} {k : α} {b : β} (hk : f k = some b)
    {l : List α} (hmem : k ∈ l) (h : ∀ j ∈ l, j ≠ k → f j = none) : l.findSome? f = some b := by
  induction l with
  | nil => simp at hmem
  | cons j l ih =>
    rw [List.findSome?_cons]
    by_cases hj : j = k
    · rw [hj, hk]
    · rw [h j List.mem_cons_self hj]
      exact ih ((List.mem_cons.1 hmem).resolve_left (Ne.symm hj))
        fun i hi => h i (List.mem_cons_of_mem _ hi)

/-- An operand that is a number is read in the mode that it was written for. -/
theorem modeOf?_numberText (ha : a.around = some (front, back)) {k : Fin modes.length}
    (hk : a.mode? = some k) (hds : ∀ d ∈ ds, isHexDigit d = true)
    (hlength : ds.length = 2 * a.width) :
    architecture.modeOf? (numberText front back ds) = some (k, ⟨String.ofList ('$' :: ds), 0⟩) := by
  -- the order of the modes does not matter, since only one of them accepts the operand
  apply findSome?_of_unique (k := k)
  · have hmatch := match?_pattern ha hds hlength ha hk
    rw [if_pos rfl] at hmatch
    exact Option.map_eq_some_iff.2 ⟨_, hmatch, rfl⟩
  · exact List.mem_finRange k
  · intro j _ hj
    apply Option.map_eq_none_iff.2
    rcases Addressing.exists_of_mode j with rfl | ⟨b, front', back', hb, haround⟩
    · exact match?_accumulator ha
    · have hmatch := match?_pattern ha hds hlength haround hb
      rw [if_neg] at hmatch
      · exact hmatch
      · rintro rfl
        exact hj (Option.some.inj (hb.symm.trans hk))

/-- The operand is decoded to the number that it was written for. -/
theorem operandOf_numberText (ha : a.around = some (front, back)) {k : Fin modes.length}
    (hk : a.mode? = some k) {n : Nat} (hn : n < Word.modulus a.width) (relative : Bool) :
    architecture.operandOf (numberText front back (Word.hexChars n a.width)) relative =
      .ok { text := numberText front back (Word.hexChars n a.width)
            mode := k.val
            value := n
            size := a.width } := by
  have hwidth := Addressing.width_of_around ha
  have hmode := modeOf?_numberText ha hk (fun d hd => Word.isHexDigit_of_mem_hexChars hd)
    (Word.length_hexChars (by omega) hn)
  have hlabel : LabelShape.accepts {} ('$' :: Word.hexChars n a.width) = false := rfl
  have hdecode : (architecture.mode k).decode (String.ofList ('$' :: Word.hexChars n a.width)) =
      .ok (n : Int) := by
    show (modes.get k).decode _ = _
    rw [Addressing.decode_of_around ha hk]
    exact Numeral.dollarHex_hexChars (by omega) hn
  have hsize : (architecture.mode k).size = a.width := by
    rw [Addressing.width, hk]
    rfl
  rw [Architecture.operandOf, hmode]
  dsimp only
  rw [String.toList_ofList]
  have hrule : architecture.rules.labels = {} := rfl
  rw [hrule, hlabel, Bool.and_false, if_neg Bool.false_ne_true, decoded, hdecode, hsize]
  rfl

end Number

end Breadboard.Mos6502
