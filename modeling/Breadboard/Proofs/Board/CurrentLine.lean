import Breadboard.Proofs.Board.Session
import Breadboard.Proofs.Assembler.Loading
import Breadboard.Proofs.Architecture.Checks

/-!
# The line at the program counter

The line shown while stepping is the last instruction of the source whose address the program
counter has reached (`Program.lineFor?_of_lines`). Where no two instructions share a byte, the
instruction at the program counter is therefore shown exactly if no instruction behind it in the
source lies below it in memory; otherwise one of those is shown (`currentLine?_of_apart`). An origin
that moves backwards is enough for this to happen right after a load
(`currentLine?_of_backward_origin`).
-/

namespace Breadboard

/-- The line is an instruction, and its address is at most `address`. -/
def Line.reachedBy (address : Int) (l : Line) : Bool :=
  l.isCode && l.address.any (· ≤ address)

/-- One of the lines ends where the other begins, or before it. -/
def Line.Apart (k l : Line) : Prop :=
  ∀ a ∈ k.address, ∀ b ∈ l.address, a + k.footprint ≤ b ∨ b + l.footprint ≤ a

instance (k l : Line) : Decidable (k.Apart l) :=
  inferInstanceAs (Decidable (∀ a ∈ k.address, ∀ b ∈ l.address, _))

/-- No two instructions of the program have a byte in common. -/
def Program.InstructionsApart (p : Program) : Prop :=
  (p.lines.filter (·.isCode)).Pairwise Line.Apart

instance (p : Program) : Decidable p.InstructionsApart :=
  inferInstanceAs (Decidable (List.Pairwise _ _))

theorem Line.reachedBy_eq_true_iff {address : Int} {l : Line} :
    l.reachedBy address = true ↔ l.isCode = true ∧ ∃ a, l.address = some a ∧ a ≤ address := by
  simp [reachedBy, Option.any_eq_true]

namespace Program

/-- The search runs from the end of the source, so it finds a line that was reached unless it finds
one behind it. -/
theorem lineFor?_of_lines {p : Program} {address : Int} {front back : List Line} {l : Line}
    (hlines : p.lines = front ++ l :: back) (hl : l.reachedBy address = true) :
    p.lineFor? address = some ((back.reverse.find? (·.reachedBy address)).getD l) := by
  have hsearch : p.lineFor? address = p.lines.reverse.find? (·.reachedBy address) := rfl
  rw [hsearch, hlines, List.reverse_append, List.reverse_cons, List.append_assoc,
    List.find?_append, List.singleton_append, List.find?_cons_of_pos hl]
  cases back.reverse.find? (·.reachedBy address) with
  | none => rfl
  | some k => rfl

variable {arch : Architecture} {source : String} {memorySize : Nat} {l : Line}

/-- An instruction without a problem has an address, and a byte there. -/
theorem exists_address_of_isCode (harch : arch.Checked)
    (hl : l ∈ (assemble arch source memorySize).lines) (hcode : l.isCode = true)
    (herrors : l.errors = []) : (∃ a, l.address = some a) ∧ 1 ≤ l.footprint := by
  have hstored := Line.isStored_of_isCode hcode
  obtain ⟨start, haddress, -⟩ := (loadable_of_mem_lines hl herrors).inside hstored
  obtain ⟨c, hbody⟩ : ∃ c, l.body = .code c := by
    cases hbody : l.body with
    | code c => exact ⟨c, rfl⟩
    | _ => simp [Line.isCode, hbody] at hcode
  obtain ⟨i, hi⟩ := Architecture.exists_selects_of_mem_lines hl hbody herrors
  refine ⟨⟨start, haddress⟩, ?_⟩
  -- the opcode alone has a byte
  have hopcode := harch.opcode_size.1
  rw [← hi.size] at hopcode
  rw [Line.footprint, hbody]
  exact Nat.le_trans hopcode (Nat.le_add_right _ _)

/-- Of two instructions that have no byte in common, the later one is somewhere else. -/
theorem address_ne_of_apart (harch : arch.Checked)
    (hok : (assemble arch source memorySize).isOk = true)
    (hapart : (assemble arch source memorySize).InstructionsApart) {front back : List Line}
    (hlines : (assemble arch source memorySize).lines = front ++ l :: back)
    (hcode : l.isCode = true) {k : Line} (hk : k ∈ back) (hkcode : k.isCode = true) :
    k.address ≠ l.address := by
  intro hsame
  have hlmem : l ∈ (assemble arch source memorySize).lines := by
    rw [hlines]
    exact List.mem_append_right front List.mem_cons_self
  have hkmem : k ∈ (assemble arch source memorySize).lines := by
    rw [hlines]
    exact List.mem_append_right front (List.mem_cons_of_mem l hk)
  have herrors := isOk_eq_true_iff.1 hok
  obtain ⟨⟨a, ha⟩, hbytes⟩ := exists_address_of_isCode harch hlmem hcode (herrors l hlmem)
  obtain ⟨-, hbytes'⟩ := exists_address_of_isCode harch hkmem hkcode (herrors k hkmem)
  have hpair : l.Apart k := by
    rw [InstructionsApart, hlines, List.filter_append, List.filter_cons_of_pos hcode] at hapart
    have hbehind := (List.pairwise_append.1 hapart).2.1
    exact List.rel_of_pairwise_cons hbehind (List.mem_filter.2 ⟨hk, hkcode⟩)
  -- two ranges that begin in the same place and are not empty overlap
  have hranges := hpair a ha a (hsame.trans ha)
  omega

end Program

namespace Board

/-- Take a board on accepted tables that holds a program without problems, no two instructions of
which have a byte in common. When the program counter is at an instruction, some line is shown. It
is that instruction exactly if no instruction behind it in the source has a lower address, and
otherwise it is one of those. -/
theorem currentLine?_of_apart {d : Draft} {b : Board} (hbuild : d.build = .ok b.arch)
    {source : String} {memorySize : Nat} {front back : List Line} {l : Line}
    (hprogram : b.program = some (Program.assemble b.arch source memorySize))
    (hok : (Program.assemble b.arch source memorySize).isOk = true)
    (hapart : (Program.assemble b.arch source memorySize).InstructionsApart)
    (hlines : (Program.assemble b.arch source memorySize).lines = front ++ l :: back)
    (hcode : l.isCode = true) (hpc : l.address = some (b.arch.pcOf b.machine)) :
    ∃ shown, b.currentLine? = some shown ∧
      (shown = l ↔ ∀ k ∈ back, k.isCode = true → ∀ a, k.address = some a →
        b.arch.pcOf b.machine ≤ a) ∧
      (shown ≠ l → shown ∈ back ∧ shown.isCode = true ∧
        ∃ a, shown.address = some a ∧ a < b.arch.pcOf b.machine) := by
  have harch := Architecture.checked_of_build hbuild
  have hreached : l.reachedBy (b.arch.pcOf b.machine) = true :=
    Line.reachedBy_eq_true_iff.2 ⟨hcode, _, hpc, le_rfl⟩
  have hshown : b.currentLine? = some
      ((back.reverse.find? (·.reachedBy (b.arch.pcOf b.machine))).getD l) := by
    rw [currentLine?, hprogram]
    exact Program.lineFor?_of_lines hlines hreached
  refine ⟨_, hshown, ?_⟩
  cases hfind : back.reverse.find? (·.reachedBy (b.arch.pcOf b.machine)) with
  | none =>
    -- no line behind the instruction was reached
    rw [List.find?_eq_none] at hfind
    refine ⟨⟨fun _ k hk hkcode a ha => ?_, fun _ => rfl⟩, fun hne => absurd rfl hne⟩
    by_contra hbelow
    apply hfind k (List.mem_reverse.2 hk)
    exact Line.reachedBy_eq_true_iff.2 ⟨hkcode, a, ha, by omega⟩
  | some k =>
    -- the line found was reached and is somewhere else, so it lies below
    have hk : k ∈ back := List.mem_reverse.1 (List.mem_of_find?_eq_some hfind)
    obtain ⟨hkcode, a, ha, hle⟩ := Line.reachedBy_eq_true_iff.1 (List.find?_some hfind)
    have haddress := Program.address_ne_of_apart harch hok hapart hlines hcode hk hkcode
    have hbelow : a < b.arch.pcOf b.machine := by
      have hne : a ≠ b.arch.pcOf b.machine := by
        rintro rfl
        exact haddress (ha.trans hpc.symm)
      omega
    have hother : k ≠ l := fun heq => haddress (by rw [heq])
    refine ⟨⟨fun heq => absurd heq hother, fun hall => ?_⟩, fun _ => ⟨hk, hkcode, a, ha, hbelow⟩⟩
    have habove := hall k hk hkcode a ha
    omega

/-- After the load of a program that ascends, its first instruction is shown. -/
theorem currentLine?_of_apart_edu1 :
    let source := "LDA 9\nloop: JMP loop\n"
    let p := Program.assemble Edu1.architecture source 16
    ∃ b₀ l back, buildOn Edu1.architecture ⟨"edu1", .bytes 16, []⟩ = .ok b₀ ∧
      (b₀.load source).1 = .ok 0 ∧ p.isOk = true ∧ p.InstructionsApart ∧ p.lines = l :: back ∧
      (b₀.load source).2.currentLine? = some l := by
  intro source p
  obtain ⟨b₀, hb₀, harch, hload, hprogram, hpc⟩ :
      ∃ b₀, buildOn Edu1.architecture ⟨"edu1", .bytes 16, []⟩ = .ok b₀ ∧
        b₀.arch = Edu1.architecture ∧ (b₀.load source).1 = .ok 0 ∧
        (b₀.load source).2.program = some p ∧
        Edu1.architecture.pcOf (b₀.load source).2.machine = 0 :=
    ⟨_, rfl, rfl, by decide, by decide, by decide⟩
  obtain ⟨l, back, hlines⟩ : ∃ l back, p.lines = l :: back :=
    List.exists_cons_of_ne_nil (by decide)
  have hfirst : ∀ k ∈ p.lines.head?, k.isCode = true ∧ k.address = some 0 := by decide
  have hbehind : ∀ k ∈ p.lines.tail, k.isCode = true → ∀ a ∈ k.address, 0 ≤ a := by
    decide
  rw [hlines] at hfirst hbehind
  obtain ⟨hcode, haddress⟩ := hfirst l rfl
  have hloaded : (b₀.load source).2.arch = Edu1.architecture := by rw [arch_load, harch]
  have hok : p.isOk = true := by decide
  have hapart : p.InstructionsApart := by decide
  have hbuild : Edu1.draft.build = .ok (b₀.load source).2.arch := by
    rw [hloaded]
    exact Edu1.build_draft
  have hall : (Program.assemble (b₀.load source).2.arch source 16).lines = [] ++ l :: back := by
    rw [hloaded]
    exact hlines
  obtain ⟨shown, hshown, hiff, -⟩ := currentLine?_of_apart hbuild
    (by rw [hloaded]; exact hprogram) (by rw [hloaded]; exact hok) (by rw [hloaded]; exact hapart)
    hall hcode (by rw [hloaded, hpc]; exact haddress)
  obtain rfl : shown = l := hiff.2 (by rw [hloaded, hpc]; exact hbehind)
  exact ⟨b₀, shown, back, hb₀, hload, hok, hapart, hlines, hshown⟩

/-- The instruction at the start of memory comes last in the source, and so it is shown right after
the load, although the program counter is at the other one. -/
theorem currentLine?_of_backward_origin :
    let source := ".CODE 4\nLDA 9\n.CODE 0\n.END\n"
    let p := Program.assemble Edu1.architecture source 16
    ∃ b₀, buildOn Edu1.architecture ⟨"edu1", .bytes 16, []⟩ = .ok b₀ ∧
      p.isOk = true ∧ p.InstructionsApart ∧
      let b := (b₀.load source).2
      b.program = some p ∧ ∃ l ∈ p.lines, l.isCode = true ∧
        l.address = some (Edu1.architecture.pcOf b.machine) ∧ b.currentLine? ≠ some l :=
  ⟨_, rfl, by decide, by decide, by decide, by decide⟩

end Board

end Breadboard
