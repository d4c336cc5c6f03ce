import Breadboard.Proofs.Cpu.Reset

/-!
# The bits of a register file

A register that fits a narrow field is told by its bits (`Holds`). `Shows` tells a whole register
file by which indicators are set and which bits the status registers hold, when everything else is
zero. An indicator that changes also changes its bit in every status register
(`Shows.setIndicator`), so indicators that are set one after another add their bits (`Shows.light`),
and indicators that are cleared take away the bits of those that were set (`Shows.clear`). Storing
zero in a status register clears every indicator, but the bits of that register only
(`Shows.stored`).
-/

namespace Breadboard.Cpu

/-! ## Positions in the tables -/

/-- The register at position `i` is a status register. -/
def StatusAt (registers : List Register) (i : Nat) : Prop :=
  (registers[i]?).map (·.kind) = some .status

/-- The indicator at position `j` is of a kind. -/
def KindAt (indicators : List Indicator) (kind : IndicatorKind) (j : Nat) : Prop :=
  (indicators[j]?).map (·.kind) = some kind

/-- The indicator at position `j` has the bit `b` in status registers. -/
def RankAt (indicators : List Indicator) (j b : Nat) : Prop :=
  (indicators[j]?).map (·.rank) = some b

variable {registers : List Register} {indicators : List Indicator} {cpu : Cpu} {i j : Nat}

instance (registers : List Register) (i : Nat) : Decidable (StatusAt registers i) :=
  inferInstanceAs (Decidable (_ = _))

theorem StatusAt.lt (h : StatusAt registers i) : i < registers.length := by
  obtain ⟨r, hr, -⟩ := Option.map_eq_some_iff.1 h
  exact (List.getElem?_eq_some_iff.1 hr).1

theorem KindAt.lt {kind : IndicatorKind} (h : KindAt indicators kind j) :
    j < indicators.length := by
  obtain ⟨z, hz, -⟩ := Option.map_eq_some_iff.1 h
  exact (List.getElem?_eq_some_iff.1 hz).1

theorem kindAt_unique {kind kind' : IndicatorKind} (h : KindAt indicators kind j)
    (h' : KindAt indicators kind' j) : kind = kind' :=
  Option.some.inj (h.symm.trans h')

theorem statusAt_iff (ht : cpu.tables = (registers, indicators)) {r : RegisterCell}
    (hr : cpu.registers[i]? = some r) : StatusAt registers i ↔ r.kind = .status := by
  rw [StatusAt, register_of_tables ht, hr]
  simp

theorem rankAt_iff (ht : cpu.tables = (registers, indicators)) (b : Nat) :
    RankAt indicators j b ↔ ∃ a, cpu.indicators[j]? = some a ∧ a.rank = b := by
  rw [RankAt, indicator_of_tables ht, Option.map_map, Option.map_eq_some_iff]
  rfl

theorem mem_positionsOf (ht : cpu.tables = (registers, indicators)) (kind : IndicatorKind) :
    j ∈ cpu.positionsOf kind ↔ KindAt indicators kind j := by
  rw [positionsOf, List.mem_filter, List.mem_range, decide_eq_true_eq, KindAt,
    indicator_of_tables ht, Option.map_map]
  constructor
  · intro h
    exact h.2
  · intro h
    obtain ⟨a, ha, -⟩ := Option.map_eq_some_iff.1 h
    obtain ⟨hlt, -⟩ := List.getElem?_eq_some_iff.1 ha
    exact ⟨hlt, h⟩

/-! ## The bits of a register -/

/-- The number in the register fits its narrow field, and bit `b` of it is set exactly if
`bits b`. -/
structure Holds (r : RegisterCell) (bits : Nat → Prop) : Prop where
  narrow : r.size < 8
  fits : r.format.fit r.value r.size = r.value
  bit_iff : ∀ b, b < 8 * r.size → (Word.bit r.value b = true ↔ bits b)

namespace Holds

variable {r : RegisterCell} {bits bits' : Nat → Prop}

theorem congr (h : Holds r bits) (hbits : ∀ b, bits b ↔ bits' b) : Holds r bits' := by
  refine ⟨h.narrow, h.fits, ?_⟩
  intro b hb
  rw [h.bit_iff b hb]
  exact hbits b

/-- A register that holds zero holds no bit. -/
theorem of_value_eq_zero (hnarrow : r.size < 8) (hzero : r.value = 0) :
    Holds r fun _ => False := by
  refine ⟨hnarrow, ?_, ?_⟩
  · rw [hzero]
    exact Word.fit_zero _ _
  · intro b hb
    simp [hzero, Word.bit]

theorem value_eq_zero_iff (h : Holds r bits) : r.value = 0 ↔ ∀ b, b < 8 * r.size → ¬ bits b := by
  rw [Word.eq_zero_iff_bits h.narrow h.fits]
  apply forall₂_congr
  intro b hb
  rw [← h.bit_iff b hb, Bool.not_eq_true]

/-- Setting a bit of a status register changes that bit and no other. -/
theorem withStatusBit (h : Holds r bits) (rank : Nat) (on : Bool) :
    Holds (r.withStatusBit rank on) fun b =>
      if r.kind = .status ∧ rank = b then on = true else bits b := by
  rw [RegisterCell.withStatusBit]
  by_cases hk : r.kind = .status
  · rw [if_pos hk]
    refine ⟨h.narrow, Word.fit_fit _ _ _, ?_⟩
    intro b hb
    have hsize : b < 8 * r.size := hb
    have hnarrow := h.narrow
    -- the bit is set in the number, which is then cut off to the field of the register
    rw [RegisterCell.put, Word.bit_fit _ _ hsize]
    by_cases hrank : rank = b
    · rw [if_pos ⟨hk, hrank⟩, hrank, Word.bit_withBit_self _ _ (by omega)]
    · rw [if_neg (not_and_of_not_right _ hrank), Word.bit_withBit_of_ne _ _ (Ne.symm hrank)]
      exact h.bit_iff b hsize
  · rw [if_neg hk]
    apply h.congr
    intro b
    rw [if_neg (not_and_of_not_left _ hk)]

end Holds

/-! ## What a register file shows while it is reset -/

/-- An indicator that has the value already is not set again. -/
theorem cpu_setIndicator_of_eq {p : Nat} {on : Bool}
    (h : ∀ a, cpu.indicators[p]? = some a → a.value = on) : (cpu.setIndicator p on).cpu = cpu := by
  rw [setIndicator]
  split
  · rfl
  next a ha => rw [if_pos (h a ha)]

/-- The indicator at position `j` is set exactly if `lit j`, bit `b` of the status register at
position `i` is set exactly if `marked i b`, and all other registers are zero. -/
structure Shows (registers : List Register) (indicators : List Indicator) (lit : Nat → Prop)
    (marked : Nat → Nat → Prop) (cpu : Cpu) : Prop where
  tables_eq : cpu.tables = (registers, indicators)
  lit_iff : ∀ (j : Nat) (a : IndicatorCell), cpu.indicators[j]? = some a →
    (a.value = true ↔ lit j)
  holds : ∀ (i : Nat) (r : RegisterCell), cpu.registers[i]? = some r →
    Holds r fun b => StatusAt registers i ∧ marked i b

namespace Shows

variable {lit lit' : Nat → Prop} {marked marked' : Nat → Nat → Prop}

/-- What is said matters only where there is an indicator or a status register. -/
theorem congr (h : Shows registers indicators lit marked cpu)
    (hlit : ∀ j (a : IndicatorCell), cpu.indicators[j]? = some a → (lit j ↔ lit' j))
    (hmarked : ∀ i, StatusAt registers i → ∀ b, marked i b ↔ marked' i b) :
    Shows registers indicators lit' marked' cpu := by
  refine ⟨h.tables_eq, ?_, ?_⟩
  · intro j a ha
    rw [h.lit_iff j a ha]
    exact hlit j a ha
  · intro i r hr
    apply (h.holds i r hr).congr
    intro b
    exact and_congr_right fun hstatus => hmarked i hstatus b

/-- In a fresh register file nothing is set. -/
theorem fresh (hnarrow : ∀ r ∈ registers, r.size < 8) :
    Shows registers indicators (fun _ => False) (fun _ _ => False)
      (Cpu.fresh registers indicators) := by
  refine ⟨tables_fresh _ _, ?_, ?_⟩
  · intro j a ha
    obtain ⟨d, -, rfl⟩ := List.mem_map.1 (List.mem_of_getElem? ha)
    simp
  · intro i r hr
    obtain ⟨q, hq, rfl⟩ := List.mem_map.1 (List.mem_of_getElem? hr)
    apply (Holds.of_value_eq_zero (hnarrow q hq) rfl).congr
    intro b
    rw [and_false]

/-! ### Setting indicators -/

/-- The indicator at position `p` changes when it is set to `on`, and its bit is `b`. -/
def Turns (indicators : List Indicator) (lit : Nat → Prop) (p : Nat) (on : Bool) (b : Nat) : Prop :=
  RankAt indicators p b ∧ ¬ (lit p ↔ on = true)

theorem not_turns (h : Shows registers indicators lit marked cpu) {p : Nat} {on : Bool}
    (hsame : ∀ a, cpu.indicators[p]? = some a → a.value = on) (b : Nat) :
    ¬ Turns indicators lit p on b := by
  intro hturns
  obtain ⟨a, ha, -⟩ := (rankAt_iff h.tables_eq b).1 hturns.1
  apply hturns.2
  rw [← h.lit_iff p a ha, hsame a ha]

theorem turns_iff (h : Shows registers indicators lit marked cpu) {p : Nat} {on : Bool}
    {a : IndicatorCell} (ha : cpu.indicators[p]? = some a) (hchange : a.value ≠ on) (b : Nat) :
    Turns indicators lit p on b ↔ a.rank = b := by
  have hlit : ¬ (lit p ↔ on = true) := by
    rw [← h.lit_iff p a ha, ← Bool.eq_iff_iff]
    exact hchange
  rw [Turns, rankAt_iff h.tables_eq, and_iff_left hlit, ha]
  simp

/-- An indicator that was set to `on` shows that, and so does its bit in every status register if
the indicator changed. -/
theorem setIndicator (h : Shows registers indicators lit marked cpu) (p : Nat) (on : Bool) :
    Shows registers indicators (fun j => if j = p then on = true else lit j)
      (fun i b => (Turns indicators lit p on b ∧ on = true) ∨
        (¬ Turns indicators lit p on b ∧ marked i b))
      (cpu.setIndicator p on).cpu := by
  refine ⟨?_, ?_, ?_⟩
  · rw [tables_setIndicator, h.tables_eq]
  · intro j c hc
    rw [getElem?_indicators_setIndicator] at hc
    split at hc
    next hj =>
      obtain ⟨a, -, rfl⟩ := Option.map_eq_some_iff.1 hc
      rw [if_pos hj]
    next hj =>
      rw [if_neg hj]
      exact h.lit_iff j c hc
  · intro i q hq
    by_cases hsame : ∀ a, cpu.indicators[p]? = some a → a.value = on
    · rw [cpu_setIndicator_of_eq hsame] at hq
      apply (h.holds i q hq).congr
      intro b
      simp [h.not_turns hsame b]
    · simp only [not_forall] at hsame
      obtain ⟨a, ha, hchange⟩ := hsame
      rw [Cpu.setIndicator, ha] at hq
      simp only [if_neg hchange, List.getElem?_map] at hq
      obtain ⟨r, hr, rfl⟩ := Option.map_eq_some_iff.1 hq
      apply ((h.holds i r hr).withStatusBit a.rank on).congr
      intro b
      rw [h.turns_iff ha hchange, statusAt_iff h.tables_eq hr]
      by_cases hk : r.kind = .status
      · by_cases hrank : a.rank = b
        · simp [hk, hrank]
        · simp [hk, hrank]
      · simp [hk]

/-- An indicator that was set marks its bit, if the bit is marked in case it was set already. -/
theorem setIndicator_true (h : Shows registers indicators lit marked cpu) {p : Nat}
    (hlit : lit p → ∀ i, StatusAt registers i → ∀ b, RankAt indicators p b → marked i b) :
    Shows registers indicators (fun j => lit j ∨ j = p)
      (fun i b => marked i b ∨ RankAt indicators p b) (cpu.setIndicator p true).cpu := by
  apply (h.setIndicator p true).congr
  · intro j a _
    by_cases hj : j = p
    · simp [hj]
    · simp [hj]
  · intro i hi b
    by_cases hp : lit p
    · simpa [Turns, hp] using hlit hp i hi b
    · by_cases hb : RankAt indicators p b
      · simp [Turns, hp, hb]
      · simp [Turns, hp, hb]

/-- An indicator that was cleared clears its bit, if it was set. -/
theorem setIndicator_false (h : Shows registers indicators lit marked cpu) (p : Nat) :
    Shows registers indicators (fun j => lit j ∧ j ≠ p)
      (fun i b => marked i b ∧ (lit p → ¬ RankAt indicators p b))
      (cpu.setIndicator p false).cpu := by
  apply (h.setIndicator p false).congr
  · intro j a _
    by_cases hj : j = p
    · simp [hj]
    · simp [hj]
  · intro i _ b
    simp only [Turns, Bool.false_eq_true, iff_false, not_not, and_false, false_or]
    tauto

/-- Setting indicators marks their bits, if the bits of those that are set already are marked. -/
theorem light (ps : List Nat) {t : Traced} (h : Shows registers indicators lit marked t.cpu)
    (hlit : ∀ p, lit p → ∀ i, StatusAt registers i → ∀ b, RankAt indicators p b → marked i b) :
    Shows registers indicators (fun j => lit j ∨ j ∈ ps)
      (fun i b => marked i b ∨ ∃ p ∈ ps, RankAt indicators p b)
      (ps.foldl (fun t i => t.andThen (·.setIndicator i true)) t).cpu := by
  induction ps generalizing lit marked t with
  | nil => exact h.congr (by simp) (by simp)
  | cons p ps ih =>
    have hfirst := h.setIndicator_true (hlit p)
    have hrest := ih (t := t.andThen (·.setIndicator p true)) hfirst ?_
    · apply hrest.congr
      · intro j a _
        simp [or_assoc]
      · intro i _ b
        simp [or_assoc]
    · rintro q (hq | rfl) i hi b hb
      · exact Or.inl (hlit q hq i hi b hb)
      · exact Or.inr hb

/-- Clearing indicators clears the bits of those that were set. -/
theorem clear (ps : List Nat) {t : Traced} (h : Shows registers indicators lit marked t.cpu) :
    Shows registers indicators (fun j => lit j ∧ j ∉ ps)
      (fun i b => marked i b ∧ ∀ p ∈ ps, lit p → ¬ RankAt indicators p b)
      (ps.foldl (fun t i => t.andThen (·.setIndicator i false)) t).cpu := by
  induction ps generalizing lit marked t with
  | nil => exact h.congr (by simp) (by simp)
  | cons p ps ih =>
    have hrest := ih (t := t.andThen (·.setIndicator p false)) (h.setIndicator_false p)
    apply hrest.congr
    · intro j a _
      simp [and_assoc]
    · intro i _ b
      simp only [List.forall_mem_cons]
      constructor
      · rintro ⟨⟨hm, hp⟩, hps⟩
        refine ⟨hm, hp, ?_⟩
        intro q hq hlit
        by_cases hqp : q = p
        · subst hqp
          exact hp hlit
        · exact hps q hq ⟨hlit, hqp⟩
      · rintro ⟨hm, hp, hps⟩
        exact ⟨⟨hm, hp⟩, fun q hq hlit => hps q hq hlit.1⟩

/-! ### Storing zero -/

/-- Storing zero clears the bits of that register. -/
theorem write (h : Shows registers indicators lit marked cpu) {k : Nat} {r : RegisterCell}
    (hr : cpu.registers[k]? = some r) :
    Shows registers indicators lit (fun i b => i ≠ k ∧ marked i b)
      { cpu with registers := cpu.registers.set k (r.put 0) } := by
  obtain ⟨hk, -⟩ := List.getElem?_eq_some_iff.1 hr
  refine ⟨?_, h.lit_iff, ?_⟩
  · rw [← h.tables_eq]
    exact Prod.ext (map_set_of_getElem? hr rfl) rfl
  · intro i q hq
    rw [List.getElem?_set] at hq
    by_cases hi : k = i
    · rw [if_pos hi, if_pos hk, Option.some.injEq] at hq
      subst hq
      have hzero : Holds (r.put 0) fun _ => False :=
        Holds.of_value_eq_zero (h.holds k r hr).narrow (Word.fit_zero _ _)
      apply hzero.congr
      intro b
      simp [hi]
    · rw [if_neg hi] at hq
      apply (h.holds i q hq).congr
      intro b
      simp [Ne.symm hi]

/-- Setting all indicators from a status of zero clears them, and leaves the registers alone. -/
theorem showStatus (h : Shows registers indicators lit marked cpu) :
    Shows registers indicators (fun _ => False) marked (cpu.showStatus 0).cpu := by
  refine ⟨?_, ?_, h.holds⟩
  · rw [tables_showStatus, h.tables_eq]
  · intro j a ha
    obtain ⟨c, -, rfl⟩ := List.mem_map.1 (List.mem_of_getElem? ha)
    simp [Word.bit]

/-- Zero in a status register clears all indicators, but the bits of that register only. -/
theorem stored (h : Shows registers indicators lit marked cpu) {k : Nat} {r : RegisterCell}
    (hr : cpu.registers[k]? = some r) :
    Shows registers indicators (fun j => lit j ∧ ¬ StatusAt registers k)
      (fun i b => i ≠ k ∧ marked i b) (cpu.stored k (r.put 0)) := by
  have hzero : (r.put 0).value = 0 := Word.fit_zero _ _
  have hkind : (r.put 0).kind = .status ↔ StatusAt registers k := (statusAt_iff h.tables_eq hr).symm
  rw [Cpu.stored]
  by_cases hk : StatusAt registers k
  · rw [if_pos (hkind.2 hk), hzero]
    apply (h.write hr).showStatus.congr
    · simp [hk]
    · simp
  · rw [if_neg (hkind.not.2 hk)]
    apply (h.write hr).congr
    · simp [hk]
    · simp

end Shows

end Breadboard.Cpu
