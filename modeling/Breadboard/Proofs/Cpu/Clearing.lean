import Breadboard.Mos6502
import Breadboard.Proofs.Architecture.Checks
import Breadboard.Proofs.Cpu.Bits

/-!
# What a reset clears

A reset zeroes the registers one by one. Zeroing a register that updates the status sets the zero
indicators, and with them their bits in every status register; zeroing a status register clears all
indicators, but their bits in that register only. So a status register that was zeroed before may
show a zero indicator that is no longer set, and then nothing clears its bit at the end. `Zeroed` is
the invariant of the loops: it says whether the zero indicators are set and which status registers
hold their bits. `reset_clears_iff` says which registers are zero after a reset.
-/

namespace Breadboard.Cpu

/-! ## The zero indicators -/

/-- The register at position `i` updates the status automatically. -/
def AutoAt (registers : List Register) (i : Nat) : Prop :=
  (registers[i]?).map (·.status) = some .auto

/-- The bit `b` of status registers belongs to an indicator that reports a zero. -/
def ZeroBit (indicators : List Indicator) (b : Nat) : Prop :=
  ∃ j, KindAt indicators .zero j ∧ RankAt indicators j b

/-- The zero indicators are set exactly if `lit`, the status register at position `i` holds their
bits exactly if `marked i`, and nothing else is set. -/
def Zeroed (registers : List Register) (indicators : List Indicator) (lit : Prop)
    (marked : Nat → Prop) (cpu : Cpu) : Prop :=
  Shows registers indicators (fun j => KindAt indicators .zero j ∧ lit)
    (fun i b => marked i ∧ ZeroBit indicators b) cpu

variable {registers : List Register} {indicators : List Indicator} {cpu : Cpu} {i k : Nat}
  {lit lit' : Prop} {marked marked' : Nat → Prop}

theorem AutoAt.lt (h : AutoAt registers i) : i < registers.length := by
  obtain ⟨r, hr, -⟩ := Option.map_eq_some_iff.1 h
  exact (List.getElem?_eq_some_iff.1 hr).1

theorem autoAt_iff (ht : cpu.tables = (registers, indicators)) {r : RegisterCell}
    (hr : cpu.registers[i]? = some r) : AutoAt registers i ↔ r.status = .auto := by
  rw [AutoAt, register_of_tables ht, hr]
  simp

namespace Zeroed

theorem congr (h : Zeroed registers indicators lit marked cpu) (hlit : lit ↔ lit')
    (hmarked : ∀ i, StatusAt registers i → (marked i ↔ marked' i)) :
    Zeroed registers indicators lit' marked' cpu := by
  apply Shows.congr h
  · intro j a _
    rw [hlit]
  · intro i hi b
    rw [hmarked i hi]

/-- A number that is zero sets the zero indicators and their bits in all status registers. -/
theorem setZero (h : Zeroed registers indicators lit marked cpu)
    (hlit : lit → ∀ i, StatusAt registers i → marked i) :
    Zeroed registers indicators True (fun _ => True) (cpu.setZero 0).cpu := by
  have hset := Shows.light (cpu.positionsOf .zero) (t := ⟨cpu, []⟩) h
    (fun p hp i hi b hb => ⟨hlit hp.2 i hi, p, hp.1, hb⟩)
  apply Shows.congr hset
  · intro j a _
    rw [mem_positionsOf h.tables_eq]
    tauto
  · intro i _ b
    simp only [mem_positionsOf h.tables_eq]
    constructor
    · rintro (hm | hbit)
      · exact ⟨trivial, hm.2⟩
      · exact ⟨trivial, hbit⟩
    · intro hbit
      exact Or.inr hbit.2

/-- No negative indicator is set, so a number that is not negative changes nothing. -/
theorem setNegative (h : Zeroed registers indicators lit marked cpu) :
    Zeroed registers indicators lit marked (cpu.setNegative 0).cpu := by
  have hclear := Shows.clear (cpu.positionsOf .negative) (t := ⟨cpu, []⟩) h
  have hother : ∀ j, KindAt indicators .zero j → j ∉ cpu.positionsOf .negative := by
    intro j hj hneg
    rw [mem_positionsOf h.tables_eq] at hneg
    have hkind := kindAt_unique hj hneg
    simp at hkind
  apply Shows.congr hclear
  · intro j a _
    constructor
    · intro hj
      exact hj.1
    · intro hj
      exact ⟨hj, hother j hj.1⟩
  · intro i _ b
    constructor
    · intro hb
      exact hb.1
    · intro hb
      exact ⟨hb, fun p hp hset => absurd hp (hother p hset.1)⟩

/-- The signs of zero set the zero indicators and their bits in all status registers. -/
theorem setSigns (h : Zeroed registers indicators lit marked cpu)
    (hlit : lit → ∀ i, StatusAt registers i → marked i) :
    Zeroed registers indicators True (fun _ => True) (cpu.setSigns 0).cpu :=
  (h.setZero hlit).setNegative

end Zeroed

/-! ## Which status registers keep bits -/

/-- Among the first `k` registers is one that updates the status, and no status register is behind
it, so the zero indicators are set when they were all zeroed. -/
def LitBefore (registers : List Register) (k : Nat) : Prop :=
  ∃ a, a < k ∧ AutoAt registers a ∧ ∀ j, a < j → j < k → ¬ StatusAt registers j

/-- Among the first `k` registers is one that updates the status, and the status register at
position `i` was not zeroed after it, so it holds the bits of the zero indicators when the first `k`
registers were zeroed. -/
def MarkedBefore (registers : List Register) (k i : Nat) : Prop :=
  ∃ a, a < k ∧ AutoAt registers a ∧ (i ≤ a ∨ k ≤ i)

theorem LitBefore.markedBefore (h : LitBefore registers k) (hi : StatusAt registers i) :
    MarkedBefore registers k i := by
  obtain ⟨a, ha, hauto, hnone⟩ := h
  refine ⟨a, ha, hauto, ?_⟩
  by_contra hcon
  exact hnone i (by omega) (by omega) hi

theorem litBefore_succ_of_auto (h : AutoAt registers k) : LitBefore registers (k + 1) :=
  ⟨k, by omega, h, by omega⟩

theorem markedBefore_succ_of_auto (h : AutoAt registers k) (i : Nat) :
    MarkedBefore registers (k + 1) i :=
  ⟨k, by omega, h, by omega⟩

theorem litBefore_succ (h : ¬ AutoAt registers k) :
    LitBefore registers (k + 1) ↔ LitBefore registers k ∧ ¬ StatusAt registers k := by
  constructor
  · rintro ⟨a, ha, hauto, hnone⟩
    have hne : a ≠ k := by
      rintro rfl
      exact h hauto
    exact ⟨⟨a, by omega, hauto, fun j haj hjk => hnone j haj (by omega)⟩,
      hnone k (by omega) (by omega)⟩
  · rintro ⟨⟨a, ha, hauto, hnone⟩, hk⟩
    refine ⟨a, by omega, hauto, ?_⟩
    intro j haj hjk
    rcases Nat.lt_succ_iff_lt_or_eq.1 hjk with hlt | rfl
    · exact hnone j haj hlt
    · exact hk

theorem markedBefore_succ (h : ¬ AutoAt registers k) (i : Nat) :
    MarkedBefore registers (k + 1) i ↔ i ≠ k ∧ MarkedBefore registers k i := by
  constructor
  · rintro ⟨a, ha, hauto, hi⟩
    have hne : a ≠ k := by
      rintro rfl
      exact h hauto
    exact ⟨by omega, a, by omega, hauto, by omega⟩
  · rintro ⟨hik, a, ha, hauto, hi⟩
    exact ⟨a, by omega, hauto, by omega⟩

namespace Zeroed

/-- One more register is zeroed. -/
theorem setRegister (h : Zeroed registers indicators (LitBefore registers k)
      (MarkedBefore registers k) cpu) :
    Zeroed registers indicators (LitBefore registers (k + 1)) (MarkedBefore registers (k + 1))
      (cpu.setRegister k 0).cpu := by
  cases hr : cpu.registers[k]? with
  | none =>
    have hnone : registers[k]? = none := by
      rw [register_of_tables h.tables_eq, hr, Option.map_none]
    have hauto : ¬ AutoAt registers k := by simp [AutoAt, hnone]
    have hstatus : ¬ StatusAt registers k := by simp [StatusAt, hnone]
    rw [Cpu.setRegister, hr]
    apply h.congr
    · rw [litBefore_succ hauto, and_iff_left hstatus]
    · intro i hi
      have hik : i ≠ k := by
        rintro rfl
        exact hstatus hi
      rw [markedBefore_succ hauto, and_iff_right hik]
  | some r =>
    have hzero : (r.put 0).value = 0 := Word.fit_zero _ _
    have hstored : Zeroed registers indicators
        (LitBefore registers k ∧ ¬ StatusAt registers k)
        (fun i => i ≠ k ∧ MarkedBefore registers k i) (cpu.stored k (r.put 0)) := by
      apply (Shows.stored h hr).congr
      · intro j a _
        rw [and_assoc]
      · intro i _ b
        rw [and_assoc]
    rw [cpu_setRegister hr, hzero]
    by_cases hauto : AutoAt registers k
    · rw [if_pos ((autoAt_iff h.tables_eq hr).1 hauto)]
      have hshown := hstored.setSigns ?_
      · apply hshown.congr
        · exact (iff_true_intro (litBefore_succ_of_auto hauto)).symm
        · intro i _
          exact (iff_true_intro (markedBefore_succ_of_auto hauto i)).symm
      · intro hlit i hi
        refine ⟨?_, hlit.1.markedBefore hi⟩
        rintro rfl
        exact hlit.2 hi
    · rw [if_neg ((autoAt_iff h.tables_eq hr).not.1 hauto)]
      apply hstored.congr
      · exact (litBefore_succ hauto).symm
      · intro i _
        exact (markedBefore_succ hauto i).symm

/-- The first `n` registers are zeroed. -/
theorem setRegisters (hnarrow : ∀ r ∈ registers, r.size < 8) (n : Nat) :
    Zeroed registers indicators (LitBefore registers n) (MarkedBefore registers n)
      ((List.range n).foldl (fun t i => t.andThen (·.setRegister i 0))
        (⟨Cpu.fresh registers indicators, []⟩ : Traced)).cpu := by
  induction n with
  | zero =>
    have hlit : ¬ LitBefore registers 0 := by
      rintro ⟨a, ha, -⟩
      omega
    have hmarked : ∀ i, ¬ MarkedBefore registers 0 i := by
      rintro i ⟨a, ha, -⟩
      omega
    apply (Shows.fresh hnarrow).congr
    · simp [hlit]
    · simp [hmarked]
  | succ n ih =>
    rw [List.range_succ, List.foldl_append]
    exact ih.setRegister

end Zeroed

/-- A reset leaves no indicator set. A status register holds the bits of the zero indicators if
these were not set any more when they were cleared. -/
theorem zeroed_reset (hnarrow : ∀ r ∈ registers, r.size < 8)
    (ht : cpu.tables = (registers, indicators)) :
    Zeroed registers indicators False
      (fun i => MarkedBefore registers registers.length i ∧
        ¬ LitBefore registers registers.length) cpu.reset.cpu := by
  have hfresh : cpu.reset.cpu = (fresh registers indicators).reset.cpu := by
    apply cpu_reset_congr
    rw [ht, tables_fresh]
  have hregisters : (fresh registers indicators).registers.length = registers.length := by
    simp [fresh]
  have hindicators : (fresh registers indicators).indicators.length = indicators.length := by
    simp [fresh]
  have hzeroed : Zeroed registers indicators _ _ _ :=
    Zeroed.setRegisters hnarrow registers.length
  have hcleared := Shows.clear (List.range indicators.length) hzeroed
  rw [hfresh, Cpu.reset, hregisters, hindicators]
  -- the end latch is no part of what is shown
  refine Shows.congr ⟨hcleared.tables_eq, hcleared.lit_iff, hcleared.holds⟩ ?_ ?_
  · intro j a _
    simp only [List.mem_range]
    constructor
    · rintro ⟨⟨hzero, -⟩, hout⟩
      exact absurd hzero.lt hout
    · intro h
      exact h.2.elim
  · intro i _ b
    simp only [List.mem_range]
    constructor
    · rintro ⟨⟨hmarked, hbit⟩, hunset⟩
      refine ⟨⟨hmarked, ?_⟩, hbit⟩
      intro hlit
      obtain ⟨j, hzero, hrank⟩ := hbit
      exact hunset j hzero.lt ⟨hzero, hlit⟩ hrank
    · rintro ⟨⟨hmarked, hlit⟩, hbit⟩
      exact ⟨⟨hmarked, hbit⟩, fun p _ hp => absurd hp.2 hlit⟩

/-- After a reset the status register at position `i` keeps a bit: a zero indicator has its bit in
the register, some register that updates the status is not before it, and behind every register that
updates the status there is another status register. -/
structure KeepsBit (registers : List Register) (indicators : List Indicator) (i : Nat) : Prop where
  bit : ∃ s, registers[i]? = some s ∧ s.kind = .status ∧
    ∃ z ∈ indicators, z.kind = .zero ∧ z.rank < 8 * s.size
  auto : ∃ a, i ≤ a ∧ AutoAt registers a
  behind : ∀ a, AutoAt registers a → ∃ j, a < j ∧ StatusAt registers j

/-- A status register that keeps a bit has another status register behind it. -/
theorem KeepsBit.exists_status_behind (h : KeepsBit registers indicators i) :
    ∃ j, i < j ∧ StatusAt registers j := by
  obtain ⟨a, hia, hauto⟩ := h.auto
  obtain ⟨j, haj, hstatus⟩ := h.behind a hauto
  exact ⟨j, by omega, hstatus⟩

/-- The only status register of a register file keeps no bit. -/
theorem not_keepsBit_of_single
    (hsingle : ∀ j k, StatusAt registers j → StatusAt registers k → j = k) :
    ¬ KeepsBit registers indicators i := by
  intro h
  obtain ⟨s, hs, hkind, -⟩ := h.bit
  have hi : StatusAt registers i := by rw [StatusAt, hs, Option.map_some, hkind]
  obtain ⟨j, hij, hj⟩ := h.exists_status_behind
  have heq := hsingle i j hi hj
  omega

theorem keepsBit_iff {s : Register} (hs : registers[i]? = some s) :
    KeepsBit registers indicators i ↔
      ∃ b, b < 8 * s.size ∧ StatusAt registers i ∧
        (MarkedBefore registers registers.length i ∧ ¬ LitBefore registers registers.length) ∧
        ZeroBit indicators b := by
  obtain ⟨hi, -⟩ := List.getElem?_eq_some_iff.1 hs
  constructor
  · rintro ⟨⟨s', hs', hk, z, hz, hzero, hrank⟩, ⟨a, hia, ha⟩, hbehind⟩
    obtain rfl : s = s' := Option.some.inj (hs.symm.trans hs')
    obtain ⟨j, hj⟩ := List.mem_iff_getElem?.1 hz
    refine ⟨z.rank, hrank, ?_, ⟨⟨a, ha.lt, ha, Or.inl hia⟩, ?_⟩, j, ?_, ?_⟩
    · simp [StatusAt, hs, hk]
    · rintro ⟨a', -, ha', hnone⟩
      obtain ⟨j', hj', hstatus⟩ := hbehind a' ha'
      exact hnone j' hj' hstatus.lt hstatus
    · simp [KindAt, hj, hzero]
    · simp [RankAt, hj]
  · rintro ⟨b, hb, hstatus, ⟨⟨a, -, ha, hia⟩, hlit⟩, j, hkind, hrank⟩
    refine ⟨?_, ⟨a, by omega, ha⟩, ?_⟩
    · obtain ⟨z, hz, hzero⟩ := Option.map_eq_some_iff.1 hkind
      rw [RankAt, hz] at hrank
      refine ⟨s, hs, ?_, z, List.mem_of_getElem? hz, hzero, ?_⟩
      · simpa [StatusAt, hs] using hstatus
      · have hz : z.rank = b := Option.some.inj hrank
        rw [hz]
        exact hb
    · intro a' ha'
      by_contra hcon
      simp only [not_exists, not_and] at hcon
      exact hlit ⟨a', ha'.lt, ha', fun j' hj' _ => hcon j' hj'⟩

/-- A reset of a register file with accepted tables, whatever it holds, clears the end latch and
every indicator. It zeroes every register but the status registers that keep a bit, of which there
is none unless there are several status registers. -/
theorem reset_clears_iff {d : Draft} {arch : Architecture} (hbuild : d.build = .ok arch)
    (htables : cpu.tables = (arch.registers, arch.indicators)) :
    let after := cpu.reset.cpu
    after.ended = false ∧ (∀ a ∈ after.indicators, a.value = false) ∧
      ∀ i, after.register i = 0 ↔ ¬ KeepsBit arch.registers arch.indicators i := by
  intro after
  have hnarrow : ∀ r ∈ arch.registers, r.size < 8 := by
    intro r hr
    have hsize := ((Architecture.checked_of_build hbuild).register_size r hr).2
    rw [Draft.widest] at hsize
    omega
  have hzeroed := zeroed_reset hnarrow htables
  refine ⟨rfl, ?_, ?_⟩
  · intro a ha
    obtain ⟨j, hj⟩ := List.mem_iff_getElem?.1 ha
    rw [← Bool.not_eq_true, hzeroed.lit_iff j a hj]
    simp
  · intro i
    have hdesc : arch.registers[i]? = (after.registers[i]?).map (·.toRegister) :=
      register_of_tables hzeroed.tables_eq i
    rw [register]
    cases hr : after.registers[i]? with
    | none =>
      rw [hr, Option.map_none] at hdesc
      have hnone : ¬ KeepsBit arch.registers arch.indicators i := by
        intro h
        obtain ⟨s, hs, -⟩ := h.bit
        simp [hdesc] at hs
      simp [hnone]
    | some r =>
      rw [hr, Option.map_some] at hdesc
      rw [keepsBit_iff hdesc]
      simpa using (hzeroed.holds i r hr).value_eq_zero_iff

theorem reset_clears_iff_mos6502 :
    let after := (Mos6502.architecture.freshCpu.edits [.register 5 0xFF, .signs 0]).cpu.reset.cpu
    after.ended = false ∧ (∀ a ∈ after.indicators, a.value = false) ∧
      ∀ i, after.register i = 0 := by
  have htables : (Mos6502.architecture.freshCpu.edits [.register 5 0xFF, .signs 0]).cpu.tables =
      (Mos6502.architecture.registers, Mos6502.architecture.indicators) := by
    rw [tables_edits, Architecture.freshCpu, tables_fresh]
  obtain ⟨hended, hindicators, hregisters⟩ := reset_clears_iff Mos6502.build_draft htables
  refine ⟨hended, hindicators, ?_⟩
  -- there is one status register
  have honly : ∀ j, j < 6 → StatusAt Mos6502.registers j → j = 5 := by decide
  intro i
  rw [hregisters i]
  apply not_keepsBit_of_single
  intro j k hj hk
  rw [honly j hj.lt hj, honly k hk.lt hk]

/-- Tables with an accumulator that updates the status between two status registers. -/
def twoStatusRegisters : Draft where
  name := "two status registers"
  registers :=
    [{ name := "S", kind := .status, format := .unsigned, size := 1, rank := 0 },
      { name := "A", kind := .accumulator, format := .signed, size := 1, rank := 1,
        status := .auto },
      { name := "T", kind := .status, format := .unsigned, size := 1, rank := 2 },
      { name := "PC", kind := .programCounter, format := .unsigned, size := 1, rank := 3 }]
  indicators := [{ name := "Z", kind := .zero, rank := 0 }]

/-- A reset may set a bit of a status register: zeroing the accumulator sets the zero indicator in
both status registers, and zeroing the second of them clears the indicator, but not its bit in the
first. -/
theorem reset_keeps_bit_of_two_status_registers :
    ∃ arch, twoStatusRegisters.build = .ok arch ∧ arch.freshCpu.register 0 = 0 ∧
      arch.freshCpu.reset.cpu.register 0 = 1 :=
  ⟨_, rfl, by decide, by decide⟩

end Breadboard.Cpu
