import Breadboard.Assembler.Source
import Mathlib.Tactic

/-!
# Lines and words that were written out

Lines that are written out one after another are read back as the same lines (`lines_unlines`), and
words that are written out with a blank between them are read back as the same words
(`words_unwords`). So a source text that was put together from words gives back those words, line by
line (`SourceLine.split_unlines`), as long as they hold neither a blank nor the comment marker.
-/

namespace Breadboard

namespace Text

/-- The lines, each followed by a line feed. -/
def unlines (ls : List (List Char)) : List Char := ls.flatMap (· ++ ['\n'])

/-- The words with a blank between any two of them. -/
def unwords : List (List Char) → List Char
  | [] => []
  | [w] => w
  | w :: ws => w ++ ' ' :: unwords ws

/-- A word that is not empty and has neither a blank nor the comment marker in it. -/
structure IsPlain (marker : Char) (w : List Char) : Prop where
  nonempty : w ≠ []
  solid : ∀ c ∈ w, isBlank c = false
  noMarker : marker ∉ w

instance (marker : Char) (w : List Char) : Decidable (IsPlain marker w) :=
  decidable_of_iff (w ≠ [] ∧ w.any isBlank = false ∧ marker ∉ w)
    ⟨fun ⟨hne, hsolid, hmarker⟩ => ⟨hne, by simpa using hsolid, hmarker⟩,
      fun h => ⟨h.nonempty, by simpa using h.solid, h.noMarker⟩⟩

/-! ## Dividing a text -/

theorem splitWhere_of_forall {p : Char → Bool} {cs : List Char} (h : ∀ c ∈ cs, p c = false) :
    splitWhere p cs = [cs] := by
  induction cs with
  | nil => rfl
  | cons c cs ih =>
    rw [splitWhere_cons, h c List.mem_cons_self, ih fun d hd => h d (List.mem_cons_of_mem _ hd)]
    rfl

/-- A text is divided at the first character that divides it. -/
theorem splitWhere_append_cons {p : Char → Bool} {cs : List Char} (h : ∀ c ∈ cs, p c = false)
    {d : Char} (hd : p d = true) (rest : List Char) :
    splitWhere p (cs ++ d :: rest) = cs :: splitWhere p rest := by
  induction cs with
  | nil => rw [List.nil_append, splitWhere_cons, if_pos hd]
  | cons c cs ih =>
    rw [List.cons_append, splitWhere_cons, h c List.mem_cons_self,
      ih fun d hd => h d (List.mem_cons_of_mem _ hd)]
    rfl

/-! ## Lines -/

theorem splitWhere_unlines {ls : List (List Char)} (h : ∀ l ∈ ls, '\n' ∉ l) :
    splitWhere (· == '\n') (unlines ls) = ls ++ [[]] := by
  induction ls with
  | nil => rfl
  | cons l ls ih =>
    have hl : ∀ c ∈ l, (c == '\n') = false := by
      intro c hc
      simp only [beq_eq_false_iff_ne, ne_eq]
      rintro rfl
      exact h l List.mem_cons_self hc
    rw [unlines, List.flatMap_cons, List.append_assoc, List.singleton_append,
      splitWhere_append_cons hl (by decide), ← unlines,
      ih fun k hk => h k (List.mem_cons_of_mem _ hk), List.cons_append]

theorem dropCarriageReturn_of_not_mem {cs : List Char} (h : '\r' ∉ cs) :
    dropCarriageReturn cs = cs := by
  rw [dropCarriageReturn, if_neg]
  intro hlast
  exact h (List.mem_of_getLast? hlast)

/-- Lines that were written out are read back. -/
theorem lines_unlines {ls : List (List Char)} (h : ∀ l ∈ ls, '\n' ∉ l ∧ '\r' ∉ l) :
    lines (unlines ls) = ls := by
  have hsplit := splitWhere_unlines fun l hl => (h l hl).1
  have hkeep : ls.map dropCarriageReturn = ls :=
    (List.map_congr_left fun l hl => dropCarriageReturn_of_not_mem (h l hl).2).trans
      (List.map_id' ls)
  simp only [lines, hsplit, List.dropLast_concat, List.getLast?_concat, hkeep]
  simp

/-! ## Words -/

@[simp] theorem unwords_singleton (w : List Char) : unwords [w] = w := rfl

theorem unwords_cons_cons (w v : List Char) (ws : List (List Char)) :
    unwords (w :: v :: ws) = w ++ ' ' :: unwords (v :: ws) := rfl

/-- Every character of words that were written out belongs to one of them or is a blank. -/
theorem mem_unwords {ws : List (List Char)} {c : Char} (h : c ∈ unwords ws) :
    c = ' ' ∨ ∃ w ∈ ws, c ∈ w := by
  induction ws with
  | nil => simp [unwords] at h
  | cons w ws ih =>
    cases ws with
    | nil => exact Or.inr ⟨w, List.mem_cons_self, h⟩
    | cons v ws =>
      rw [unwords_cons_cons, List.mem_append, List.mem_cons] at h
      rcases h with h | rfl | h
      · exact Or.inr ⟨w, List.mem_cons_self, h⟩
      · exact Or.inl rfl
      · rcases ih h with hc | ⟨u, hu, hc⟩
        · exact Or.inl hc
        · exact Or.inr ⟨u, List.mem_cons_of_mem _ hu, hc⟩

variable {marker : Char}

/-- Words that were written out are read back. -/
theorem words_unwords {ws : List (List Char)} (h : ∀ w ∈ ws, IsPlain marker w) :
    words (unwords ws) = ws := by
  induction ws with
  | nil => rfl
  | cons w ws ih =>
    have hw := h w List.mem_cons_self
    have hws : ∀ v ∈ ws, IsPlain marker v := fun v hv => h v (List.mem_cons_of_mem _ hv)
    cases ws with
    | nil =>
      rw [unwords_singleton, words, splitWhere_of_forall hw.solid]
      simp [hw.nonempty]
    | cons v ws =>
      have hrest := ih hws
      rw [words] at hrest ⊢
      -- the blank behind the first word is the first character that divides
      rw [unwords_cons_cons, splitWhere_append_cons hw.solid (by decide),
        List.filter_cons_of_pos (by simp [hw.nonempty]), hrest]

/-- Words without a blank are read back at the single blanks between them, also empty ones. -/
theorem splitWhere_unwords {ws : List (List Char)} (hne : ws ≠ []) (h : ∀ w ∈ ws, ' ' ∉ w) :
    splitWhere (· == ' ') (unwords ws) = ws := by
  induction ws with
  | nil => exact absurd rfl hne
  | cons w ws ih =>
    have hw : ∀ c ∈ w, (c == ' ') = false := by
      intro c hc
      rw [beq_eq_false_iff_ne]
      rintro rfl
      exact h w List.mem_cons_self hc
    cases ws with
    | nil => exact splitWhere_of_forall hw
    | cons v ws =>
      rw [unwords_cons_cons, splitWhere_append_cons hw (by decide),
        ih (List.cons_ne_nil v ws) fun u hu => h u (List.mem_cons_of_mem _ hu)]

/-- A text without the marker has no comment. -/
theorem before_of_not_mem {cs : List Char} (h : marker ∉ cs) : before [marker] cs = cs := by
  induction cs with
  | nil => rfl
  | cons c cs ih =>
    have hne : marker ≠ c := fun heq => h (heq ▸ List.mem_cons_self)
    have hrest : marker ∉ cs := fun hc => h (List.mem_cons_of_mem _ hc)
    rw [before, ih hrest, if_neg]
    simp [List.isPrefixOf, hne]

theorem trimEnd_of_getLast? {cs : List Char} {c : Char} (hlast : cs.getLast? = some c)
    (hc : isBlank c = false) : trimEnd cs = cs := by
  obtain ⟨ds, rfl⟩ := List.getLast?_eq_some_iff.1 hlast
  rw [trimEnd, List.reverse_append, List.reverse_singleton, List.singleton_append,
    List.dropWhile_cons_of_neg (by simp [hc])]
  simp

/-- Words that were written out end with the last character of the last word. -/
theorem getLast?_unwords {ws : List (List Char)} (hne : ws ≠ []) (h : ∀ w ∈ ws, IsPlain marker w) :
    ∃ c, (unwords ws).getLast? = some c ∧ isBlank c = false := by
  induction ws with
  | nil => exact absurd rfl hne
  | cons w ws ih =>
    cases ws with
    | nil =>
      have hw := h w List.mem_cons_self
      refine ⟨w.getLast hw.nonempty, List.getLast?_eq_some_getLast hw.nonempty, ?_⟩
      exact hw.solid _ (List.getLast_mem hw.nonempty)
    | cons v ws =>
      obtain ⟨c, hc, hblank⟩ :=
        ih (List.cons_ne_nil v ws) fun u hu => h u (List.mem_cons_of_mem _ hu)
      refine ⟨c, ?_, hblank⟩
      rw [unwords_cons_cons, List.getLast?_append, List.getLast?_cons, hc]
      rfl

end Text

/-! ## Source lines -/

namespace SourceLine

/-- The source line with a number that has the given words. -/
def ofWords (number : Nat) (ws : List (List Char)) : SourceLine :=
  { number, text := String.ofList (Text.unwords ws), words := ws.map String.ofList }

variable {marker : Char}

/-- A line that was put together from words has those words. -/
theorem ofText?_unwords (hmarker : Text.isBlank marker = false) {ws : List (List Char)}
    (hne : ws ≠ []) (h : ∀ w ∈ ws, Text.IsPlain marker w) (number : Nat) :
    ofText? [marker] number (Text.unwords ws) = some (ofWords number ws) := by
  -- the marker is in no word, and it is not a blank
  have hnone : marker ∉ Text.unwords ws := by
    intro hmem
    rcases Text.mem_unwords hmem with rfl | ⟨w, hw, hc⟩
    · exact absurd hmarker (by decide)
    · exact (h w hw).noMarker hc
  obtain ⟨c, hlast, hc⟩ := Text.getLast?_unwords hne h
  simp only [ofText?, Text.before_of_not_mem hnone, Text.trimEnd_of_getLast? hlast hc,
    Text.words_unwords h]
  rfl

/-- A line break in a line that was put together from words would be a blank in a word. -/
theorem not_mem_unwords {ws : List (List Char)} (h : ∀ w ∈ ws, Text.IsPlain marker w) {c : Char}
    (hc : Text.isBlank c = true) (hne : c ≠ ' ') : c ∉ Text.unwords ws := by
  intro hmem
  rcases Text.mem_unwords hmem with rfl | ⟨w, hw, hcw⟩
  · exact hne rfl
  · rw [(h w hw).solid c hcw] at hc
    exact Bool.false_ne_true hc

/-- A source text that was put together from words gives back the words of every line. -/
theorem split_unlines (hmarker : Text.isBlank marker = false) {lines : List (List (List Char))}
    (hne : ∀ ws ∈ lines, ws ≠ []) (h : ∀ ws ∈ lines, ∀ w ∈ ws, Text.IsPlain marker w) :
    split (String.singleton marker) (String.ofList (Text.unlines (lines.map Text.unwords))) =
      lines.zipIdx.map fun (ws, i) => ofWords (i + 1) ws := by
  have hlines : Text.lines (Text.unlines (lines.map Text.unwords)) = lines.map Text.unwords := by
    -- line breaks are blanks, and the words hold none
    apply Text.lines_unlines
    intro l hl
    obtain ⟨ws, hws, rfl⟩ := List.mem_map.1 hl
    exact ⟨not_mem_unwords (h ws hws) (by decide) (by decide),
      not_mem_unwords (h ws hws) (by decide) (by decide)⟩
  rw [split, String.toList_ofList, hlines, String.toList_singleton, List.zipIdx_map,
    List.filterMap_map, ← List.filterMap_eq_map']
  apply List.filterMap_congr
  rintro ⟨ws, i⟩ hmem
  have hws : ws ∈ lines := List.fst_mem_of_mem_zipIdx hmem
  exact ofText?_unwords hmarker (hne ws hws) (h ws hws) (i + 1)

end SourceLine

end Breadboard
