import Breadboard.Mos6502
import Breadboard.Proofs.Cpu

/-!
# The status register mirrors the indicators

In a register file with one status register, whose indicators have different ranks that all lie
inside it, the status register and the indicators tell the same. The invariant `Mirrored` also says
that every register holds a number that fits its field. Setting an indicator keeps it
(`Mirrored.setIndicator`), and so does writing a register (`Mirrored.setRegister`), although between
the write of the status register and the update of the indicators the two views differ. Hence every
sequence of edits keeps it (`Mirrored.edits`), and after any edits of a fresh register file the two
views agree (`status_mirrors_indicators`).
-/

namespace Breadboard.Cpu

/-- The only status register is `s`, and every indicator has a bit of its own in it. -/
structure StatusLayout (registers : List Register) (indicators : List Indicator) (s : Register) :
    Prop where
  only : registers.filter (·.kind = .status) = [s]
  narrow : s.size ≤ 8
  distinct : (indicators.map (·.rank)).Nodup
  inside : ∀ i ∈ indicators, i.rank < 8 * s.size

/-- Every register holds what fits its field, and every indicator is the bit of its rank in the
status registers. -/
structure Mirrored (registers : List Register) (indicators : List Indicator) (cpu : Cpu) :
    Prop where
  tables_eq : cpu.tables = (registers, indicators)
  stored : ∀ r ∈ cpu.registers, r.format.fit r.value r.size = r.value
  shown : ∀ r ∈ cpu.registers, r.kind = .status →
    ∀ i ∈ cpu.indicators, i.value = Word.bit r.value i.rank

variable {registers : List Register} {indicators : List Indicator} {s : Register} {cpu : Cpu}

/-! ## The status register -/

/-- A status register of the file is the one that the tables list. -/
theorem toRegister_eq_of_status (hL : StatusLayout registers indicators s)
    (ht : cpu.tables = (registers, indicators)) {r : RegisterCell} (hr : r ∈ cpu.registers)
    (hk : r.kind = .status) : r.toRegister = s := by
  have hregs : cpu.registers.map (·.toRegister) = registers := congrArg Prod.fst ht
  have hmem : r.toRegister ∈ registers.filter (·.kind = .status) := by
    rw [List.mem_filter, ← hregs]
    exact ⟨List.mem_map_of_mem hr, by simpa using hk⟩
  rw [hL.only] at hmem
  exact List.mem_singleton.1 hmem

/-- Two cells of status registers are the same cell. -/
theorem eq_of_status (hL : StatusLayout registers indicators s)
    (ht : cpu.tables = (registers, indicators)) {q r : RegisterCell} (hq : q ∈ cpu.registers)
    (hqk : q.kind = .status) (hr : r ∈ cpu.registers) (hrk : r.kind = .status) : q = r := by
  have hregs : cpu.registers.map (·.toRegister) = registers := congrArg Prod.fst ht
  -- the cells of status registers are as many as the status registers of the tables
  have hmap : (cpu.registers.filter (·.kind = .status)).map (·.toRegister) = [s] := by
    rw [← hL.only, ← hregs, List.filter_map]
    rfl
  obtain ⟨x, hx, -⟩ := List.map_eq_singleton_iff.1 hmap
  have hqx : q ∈ cpu.registers.filter (·.kind = .status) :=
    List.mem_filter.2 ⟨hq, by simpa using hqk⟩
  have hrx : r ∈ cpu.registers.filter (·.kind = .status) :=
    List.mem_filter.2 ⟨hr, by simpa using hrk⟩
  rw [hx, List.mem_singleton] at hqx hrx
  rw [hqx, hrx]

/-- Every register file with these tables has a cell for the status register. -/
theorem exists_status (hL : StatusLayout registers indicators s)
    (ht : cpu.tables = (registers, indicators)) :
    ∃ r ∈ cpu.registers, r.toRegister = s ∧ r.kind = .status := by
  have hregs : cpu.registers.map (·.toRegister) = registers := congrArg Prod.fst ht
  -- the tables list the status register, and every entry has a cell
  have hs : s ∈ registers.filter (·.kind = .status) := by
    rw [hL.only]
    exact List.mem_singleton_self s
  obtain ⟨hmem, hk⟩ := List.mem_filter.1 hs
  rw [← hregs] at hmem
  obtain ⟨r, hr, rfl⟩ := List.mem_map.1 hmem
  exact ⟨r, hr, rfl, by simpa using hk⟩

/-- Indicators at different positions have different ranks. -/
theorem rank_ne_of_ne (hL : StatusLayout registers indicators s)
    (ht : cpu.tables = (registers, indicators)) {i j : Nat} {a b : IndicatorCell}
    (ha : cpu.indicators[i]? = some a) (hb : cpu.indicators[j]? = some b) (hne : j ≠ i) :
    b.rank ≠ a.rank := by
  have hinds : cpu.indicators.map (·.toIndicator) = indicators := congrArg Prod.snd ht
  have hnodup := hL.distinct
  rw [← hinds, List.map_map] at hnodup
  -- equal ranks at two positions would be a repetition in the list of ranks
  intro heq
  obtain ⟨hj, -⟩ := List.getElem?_eq_some_iff.1 hb
  apply hne
  apply (List.getElem?_inj (by simpa using hj) hnodup).1
  simp [ha, hb, heq]

theorem rank_lt (hL : StatusLayout registers indicators s)
    (ht : cpu.tables = (registers, indicators)) {i : IndicatorCell} (hi : i ∈ cpu.indicators) :
    i.rank < 8 * s.size := by
  have hinds : cpu.indicators.map (·.toIndicator) = indicators := congrArg Prod.snd ht
  exact hL.inside i.toIndicator (hinds ▸ List.mem_map_of_mem hi)

/-- Setting the indicators from the status register changes nothing. -/
theorem Mirrored.indicators_showStatus (h : Mirrored registers indicators cpu) {r : RegisterCell}
    (hr : r ∈ cpu.registers) (hk : r.kind = .status) :
    (cpu.showStatus r.value).cpu.indicators = cpu.indicators := by
  have hshown : ∀ i ∈ cpu.indicators, { i with value := Word.bit r.value i.rank } = i := by
    intro i hi
    rw [← h.shown r hr hk i hi]
  exact (List.map_congr_left hshown).trans (List.map_id _)

/-! ## Steps -/

/-- In the file that an indicator was set in, every indicator is the bit of its rank in `r`, if it
was so before. -/
theorem shown_set (hL : StatusLayout registers indicators s) (h : Mirrored registers indicators cpu)
    {i : Nat} {a : IndicatorCell} (ha : cpu.indicators[i]? = some a) (on : Bool) {r : RegisterCell}
    (hr : r ∈ cpu.registers) (hk : r.kind = .status) :
    ∀ b ∈ cpu.indicators.set i { a with value := on },
      b.value = Word.bit (r.withStatusBit a.rank on).value b.rank := by
  have hsize : r.size = s.size := by rw [← toRegister_eq_of_status hL h.tables_eq hr hk]
  -- the bit is set in the number, which is then cut off to the field of the register
  have hvalue : (r.withStatusBit a.rank on).value =
      r.format.fit (Word.withBit r.value a.rank on) r.size := by
    rw [RegisterCell.withStatusBit, if_pos hk]
    rfl
  have hnarrow := hL.narrow
  intro b hb
  obtain ⟨j, hj⟩ := List.mem_iff_getElem?.1 hb
  rw [List.getElem?_set] at hj
  split at hj
  next hij =>
    obtain ⟨hi, -⟩ := List.getElem?_eq_some_iff.1 ha
    rw [if_pos hi, Option.some.injEq] at hj
    have hrank : a.rank < 8 * s.size := rank_lt hL h.tables_eq (List.mem_of_getElem? ha)
    subst hj
    rw [hvalue, hsize, Word.bit_fit _ _ hrank, Word.bit_withBit_self _ _ (by omega)]
  next hij =>
    -- the bits of the other indicators are at other ranks
    have hbmem := List.mem_of_getElem? hj
    have hrank : b.rank < 8 * s.size := rank_lt hL h.tables_eq hbmem
    have hne : b.rank ≠ a.rank := rank_ne_of_ne hL h.tables_eq ha hj (Ne.symm hij)
    rw [hvalue, hsize, Word.bit_fit _ _ hrank, Word.bit_withBit_of_ne _ _ hne]
    exact h.shown r hr hk b hbmem

theorem Mirrored.setIndicator (hL : StatusLayout registers indicators s)
    (h : Mirrored registers indicators cpu) (i : Nat) (on : Bool) :
    Mirrored registers indicators (cpu.setIndicator i on).cpu := by
  have ht : (cpu.setIndicator i on).cpu.tables = (registers, indicators) := by
    rw [tables_setIndicator, h.tables_eq]
  rw [Cpu.setIndicator] at ht ⊢
  split
  -- no such indicator, or one that is set that way already: nothing changes
  · exact h
  next a ha =>
    split
    · exact h
    next hchange =>
      rw [ha] at ht
      refine ⟨by simpa [if_neg hchange] using ht, ?_, ?_⟩
      · intro r' hr'
        obtain ⟨r, hr, rfl⟩ := List.mem_map.1 hr'
        rw [RegisterCell.withStatusBit]
        split
        · exact Word.fit_fit _ _ _
        · exact h.stored r hr
      · intro r' hr' hk
        obtain ⟨r, hr, rfl⟩ := List.mem_map.1 hr'
        have hkr : r.kind = .status := by
          have hdesc := toRegister_withStatusBit r a.rank on
          rw [← hk, ← congrArg Register.kind hdesc]
        exact shown_set hL h ha on hr hkr

theorem Mirrored.setSigns (hL : StatusLayout registers indicators s)
    (h : Mirrored registers indicators cpu) (v : Int) :
    Mirrored registers indicators (cpu.setSigns v).cpu :=
  setSigns_induct (P := Mirrored registers indicators)
    (fun _ i on hc => hc.setIndicator hL i on) v h

/-- Storing a number that is not a status keeps the mirror. -/
theorem Mirrored.write (h : Mirrored registers indicators cpu) {i : Nat} {r : RegisterCell}
    (hr : cpu.registers[i]? = some r) (hk : r.kind ≠ .status) (v : Int) :
    Mirrored registers indicators { cpu with registers := cpu.registers.set i (r.put v) } := by
  refine ⟨?_, ?_, ?_⟩
  · rw [← h.tables_eq]
    exact Prod.ext (map_set_of_getElem? hr rfl) rfl
  · intro q hq
    rcases List.mem_or_eq_of_mem_set hq with hold | rfl
    · exact h.stored q hold
    · exact Word.fit_fit _ _ _
  · intro q hq hqk
    rcases List.mem_or_eq_of_mem_set hq with hold | rfl
    · exact h.shown q hold hqk
    · exact absurd hqk hk

/-- Storing a status and then setting every indicator from it keeps the mirror. -/
theorem Mirrored.writeStatus (hL : StatusLayout registers indicators s)
    (h : Mirrored registers indicators cpu) {i : Nat} {r : RegisterCell}
    (hr : cpu.registers[i]? = some r) (hk : r.kind = .status) (v : Int) :
    Mirrored registers indicators
      (Cpu.showStatus { cpu with registers := cpu.registers.set i (r.put v) }
        (r.put v).value).cpu := by
  have hwritten : ({ cpu with registers := cpu.registers.set i (r.put v) } : Cpu).tables =
      (registers, indicators) := by
    rw [← h.tables_eq]
    exact Prod.ext (map_set_of_getElem? hr rfl) rfl
  obtain ⟨hi, -⟩ := List.getElem?_eq_some_iff.1 hr
  have hput : r.put v ∈ cpu.registers.set i (r.put v) := List.mem_set hi _
  refine ⟨by rw [tables_showStatus, hwritten], ?_, ?_⟩
  · intro q hq
    rcases List.mem_or_eq_of_mem_set hq with hold | rfl
    · exact h.stored q hold
    · exact Word.fit_fit _ _ _
  · intro q hq hqk b hb
    -- the register just written is the only status register
    have heq : q = r.put v := eq_of_status hL hwritten hq hqk hput hk
    obtain ⟨a, -, rfl⟩ := List.mem_map.1 hb
    rw [heq]

theorem Mirrored.setRegister (hL : StatusLayout registers indicators s)
    (h : Mirrored registers indicators cpu) (i : Nat) (v : Int) :
    Mirrored registers indicators (cpu.setRegister i v).cpu := by
  rw [Cpu.setRegister]
  split
  · exact h
  next r hr =>
    dsimp only
    -- only a status register makes the indicators follow it
    by_cases hk : r.kind = .status
    · have hshown := h.writeStatus hL hr hk v
      rw [if_pos hk]
      split
      · exact hshown.setSigns hL _
      · exact hshown
    · have hwritten := h.write hr hk v
      rw [if_neg hk]
      split
      · exact hwritten.setSigns hL _
      · exact hwritten

/-! ## Runs -/

/-- In a fresh register file all is zero and clear. -/
theorem Mirrored.fresh : Mirrored registers indicators (Cpu.fresh registers indicators) := by
  refine ⟨tables_fresh _ _, ?_, ?_⟩
  · intro r hr
    obtain ⟨q, -, rfl⟩ := List.mem_map.1 hr
    exact Word.fit_zero _ _
  · intro r hr _ i hi
    obtain ⟨q, -, rfl⟩ := List.mem_map.1 hr
    obtain ⟨j, -, rfl⟩ := List.mem_map.1 hi
    simp [Word.bit]

/-- Every edit keeps the mirror. -/
theorem Mirrored.edit (hL : StatusLayout registers indicators s)
    (h : Mirrored registers indicators cpu) (change : Edit) :
    Mirrored registers indicators (cpu.edit change).cpu :=
  edit_induct (P := Mirrored registers indicators)
    (fun _ i v hc => hc.setRegister hL i v)
    (fun _ i on hc => hc.setIndicator hL i on)
    (fun _ _ hc => ⟨hc.tables_eq, hc.stored, hc.shown⟩) change h

/-- Every sequence of edits keeps the mirror. -/
theorem Mirrored.edits (hL : StatusLayout registers indicators s)
    (h : Mirrored registers indicators cpu) (changes : List Edit) :
    Mirrored registers indicators (cpu.edits changes).cpu :=
  edits_induct (P := Mirrored registers indicators) (fun change _ hc => hc.edit hL change) changes h

/-- Take a register file with one status register of at most eight bytes, which is twice as wide as
any that an architecture may have, and with indicators at different bits of it. Then, after any
edits of the fresh register file, there are the same registers and indicators, every register holds
what fits its field, and every indicator is set exactly when its bit is set in the status
register. -/
theorem status_mirrors_indicators {registers : List Register} {indicators : List Indicator}
    {s : Register} (hone : registers.filter (·.kind = .status) = [s]) (hsize : s.size ≤ 8)
    (hdistinct : (indicators.map (·.rank)).Nodup)
    (hinside : ∀ i ∈ indicators, i.rank < 8 * s.size) (changes : List Edit) :
    let cpu := ((fresh registers indicators).edits changes).cpu
    cpu.tables = (registers, indicators) ∧
      (∀ r ∈ cpu.registers, r.value = r.format.fit r.value r.size) ∧
      ∃ r ∈ cpu.registers, r.toRegister = s ∧
        ∀ i ∈ cpu.indicators, i.value = true ↔ Word.bit r.value i.rank = true := by
  intro cpu
  have hL : StatusLayout registers indicators s := ⟨hone, hsize, hdistinct, hinside⟩
  have hcpu : Mirrored registers indicators cpu := (Mirrored.fresh).edits hL changes
  obtain ⟨r, hr, hrs, hk⟩ := exists_status hL hcpu.tables_eq
  refine ⟨hcpu.tables_eq, fun q hq => (hcpu.stored q hq).symm, r, hr, hrs, ?_⟩
  intro i hi
  rw [hcpu.shown r hr hk i hi]

/-- The 6502 has one status register, of one byte. -/
theorem statusLayout_mos6502 :
    StatusLayout Mos6502.registers Mos6502.indicators Mos6502.registers[5] :=
  ⟨rfl, by decide, by decide, by decide⟩

theorem status_mirrors_indicators_mos6502 :
    ∃ s, Mos6502.registers.filter (·.kind = .status) = [s] ∧ s.size ≤ 8 ∧
      (Mos6502.indicators.map (·.rank)).Nodup ∧
      (∀ i ∈ Mos6502.indicators, i.rank < 8 * s.size) ∧
      let cpu := ((fresh Mos6502.registers Mos6502.indicators).edits
        [.register 2 0x180, .register 5 0x143, .flag .carry false, .signs 0, .reset]).cpu
      cpu.tables = (Mos6502.registers, Mos6502.indicators) ∧
        (∀ r ∈ cpu.registers, r.value = r.format.fit r.value r.size) ∧
        ∃ r ∈ cpu.registers, r.toRegister = s ∧
          ∀ i ∈ cpu.indicators, i.value = true ↔ Word.bit r.value i.rank = true :=
  ⟨_, rfl, by decide, by decide, by decide,
    status_mirrors_indicators rfl (by decide) (by decide) (by decide) _⟩

end Breadboard.Cpu
