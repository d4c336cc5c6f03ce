import Breadboard.Architecture
import Mathlib.Tactic

/-!
# What accepted tables guarantee

Tables pass the checks of `Draft.build` one after another, so an architecture that came out of them
has a program counter and widths between one and four bytes, an operand possibly of none
(`Architecture.Checked`). Its opcodes fit their field and differ, so looking up the opcode of an
instruction gives that instruction (`Checked.instruction?_opcode`).
-/

namespace Breadboard

/-! ## Single checks -/

/-- Two steps in sequence succeed when each of them does. -/
theorem bind_eq_ok_iff {ε α β : Type} {x : Except ε α} {f : α → Except ε β} {b : β} :
    (x >>= f) = .ok b ↔ ∃ a, x = .ok a ∧ f a = .ok b := by
  cases x with
  | error e => simp [bind, Except.bind]
  | ok a => simp [bind, Except.bind]

namespace Draft

/-- Widths pass when each lies between the least and the widest. -/
theorem checkSizes_eq_ok_iff {what : String} {least : Nat} {sizes : List Nat} :
    checkSizes what least sizes = .ok () ↔ ∀ n ∈ sizes, least ≤ n ∧ n ≤ widest := by
  rw [checkSizes]
  cases hfind : sizes.find? fun n => n < least || widest < n with
  | none =>
    rw [List.find?_eq_none] at hfind
    simp only [true_iff]
    intro n hn
    have h := hfind n hn
    simp only [Bool.or_eq_true, decide_eq_true_eq, not_or, Nat.not_lt] at h
    exact h
  | some n =>
    have hmem := List.mem_of_find?_eq_some hfind
    have hbad := List.find?_some hfind
    simp only [Bool.or_eq_true, decide_eq_true_eq] at hbad
    simp only [reduceCtorEq, false_iff]
    intro hall
    have h := hall n hmem
    omega

/-- Instructions pass when every opcode fits its field, no opcode was seen before, and relative
instructions have a mode for their labels. -/
theorem checkInstructions_eq_ok_iff {modes width : Nat} {hasOffsetMode : Bool} {seen : List Int}
    {is : List (Instruction modes)} :
    checkInstructions width hasOffsetMode seen is = .ok () ↔
      (∀ i ∈ is, Word.fitsUnsigned i.opcode width = true) ∧
      ((is.map (·.opcode)).Nodup ∧ ∀ i ∈ is, i.opcode ∉ seen) ∧
      ∀ i ∈ is, i.relative = true → hasOffsetMode = true := by
  -- each opcode is added to those seen, so the rest must differ from it as well
  induction is generalizing seen with
  | nil => simp [checkInstructions]
  | cons i rest ih =>
    rw [checkInstructions]
    split
    next h => simp_all
    next hfits =>
      split
      next h => simp_all
      next hnew =>
        split
        next h => simp_all
        next hoffset =>
          rw [ih]
          simp only [Bool.not_eq_true', Bool.not_eq_false] at hfits
          simp only [List.contains_iff_mem] at hnew
          have hrelative : i.relative = true → hasOffsetMode = true := by
            intro hr
            simpa [hr] using hoffset
          simp only [List.forall_mem_cons, List.map_cons, List.nodup_cons, List.mem_map, hfits,
            hnew, not_exists, not_and, not_false_eq_true, true_and]
          constructor
          · rintro ⟨h1, ⟨h2, h3⟩, h4⟩
            exact ⟨h1, ⟨⟨fun j hj => List.ne_of_not_mem_cons (h3 j hj), h2⟩,
              fun j hj => List.not_mem_of_not_mem_cons (h3 j hj)⟩, hrelative, h4⟩
          · rintro ⟨h1, ⟨⟨h2, h3⟩, h5⟩, -, h6⟩
            exact ⟨h1, ⟨h3, fun j hj => List.not_mem_cons_of_ne_of_not_mem (h2 j hj) (h5 j hj)⟩,
              h6⟩

/-- Tables pass when they have a program counter and every check passes. -/
theorem build_eq_ok_iff {d : Draft} {arch : Architecture} :
    d.build = .ok arch ↔ ∃ pc, arch = { d.normalized with pc } ∧
      (d.registers.findIdx? fun r => r.kind = .programCounter) = some pc ∧
      checkSizes "word" 1 [d.sizes.word] = .ok () ∧
      checkSizes "address" 1 [d.sizes.address] = .ok () ∧
      checkSizes "instruction" 1 [d.sizes.opcode] = .ok () ∧
      checkSizes "register" 1 (d.registers.map (·.size)) = .ok () ∧
      checkSizes "operand" 0 (d.modes.map (·.size)) = .ok () ∧
      checkSizes "data" 1 (d.data.map (·.size)) = .ok () ∧
      checkInstructions d.sizes.opcode d.offsetMode.isSome [] d.normalized.instructions =
        .ok () := by
  rw [build]
  -- the checks are read off the sequence, and without a program counter there is none
  split
  next pc hpc =>
    simp only [bind_eq_ok_iff, hpc]
    constructor
    · rintro ⟨_, h1, _, h2, _, h3, _, h4, _, h5, _, h6, _, h7, h8⟩
      exact ⟨pc, (Except.ok.inj h8).symm, rfl, h1, h2, h3, h4, h5, h6, h7⟩
    · rintro ⟨pc', rfl, hpc', h1, h2, h3, h4, h5, h6, h7⟩
      obtain rfl := Option.some.inj hpc'
      exact ⟨(), h1, (), h2, (), h3, (), h4, (), h5, (), h6, (), h7, rfl⟩
  next hnone =>
    constructor
    · intro h
      exact absurd h (by simp [throw, throwThe, MonadExceptOf.throw])
    · rintro ⟨pc, -, hpc, -⟩
      exact absurd hpc (hnone pc)

end Draft

/-! ## Accepted tables -/

namespace Architecture

/-- What the checks of the tables establish. -/
structure Checked (arch : Architecture) : Prop where
  pc_eq : (arch.registers.findIdx? fun r => r.kind = .programCounter) = some arch.pc
  word_size : 1 ≤ arch.sizes.word ∧ arch.sizes.word ≤ Draft.widest
  address_size : 1 ≤ arch.sizes.address ∧ arch.sizes.address ≤ Draft.widest
  opcode_size : 1 ≤ arch.sizes.opcode ∧ arch.sizes.opcode ≤ Draft.widest
  register_size : ∀ r ∈ arch.registers, 1 ≤ r.size ∧ r.size ≤ Draft.widest
  mode_size : ∀ m ∈ arch.modes, m.size ≤ Draft.widest
  data_size : ∀ d ∈ arch.data, 1 ≤ d.size ∧ d.size ≤ Draft.widest
  opcode_fits : ∀ i ∈ arch.instructions, Word.fitsUnsigned i.opcode arch.sizes.opcode = true
  opcode_nodup : (arch.instructions.map (·.opcode)).Nodup
  offset_mode : ∀ i ∈ arch.instructions, i.relative = true → arch.offsetMode.isSome = true

theorem checked_of_build {d : Draft} {arch : Architecture} (h : d.build = .ok arch) :
    arch.Checked := by
  obtain ⟨pc, rfl, hpc, hword, haddress, hopcode, hregister, hmode, hdata, hinstr⟩ :=
    Draft.build_eq_ok_iff.1 h
  simp only [Draft.checkSizes_eq_ok_iff, List.forall_mem_map, List.mem_singleton,
    forall_eq] at hword haddress hopcode hregister hmode hdata
  -- no opcode was seen before the first instruction
  obtain ⟨hfits, ⟨hnodup, -⟩, hoffset⟩ := Draft.checkInstructions_eq_ok_iff.1 hinstr
  exact ⟨hpc, hword, haddress, hopcode, hregister, fun m hm => (hmode m hm).2, hdata, hfits, hnodup,
    hoffset⟩

variable {arch : Architecture}

namespace Checked

/-- Opcodes differ, so the opcode of an instruction is the opcode of no other. -/
theorem instruction?_opcode (h : arch.Checked) {i : Instruction arch.modes.length}
    (hi : i ∈ arch.instructions) : arch.instruction? i.opcode = some i := by
  -- the search finds some instruction with this opcode, and there is only one
  obtain ⟨j, hj⟩ : ∃ j, arch.instruction? i.opcode = some j := by
    apply Option.isSome_iff_exists.1
    rw [instruction?, List.find?_isSome]
    exact ⟨i, hi, by simp⟩
  have hmem := List.mem_of_find?_eq_some hj
  have heq : j.opcode = i.opcode := by simpa using List.find?_some hj
  rw [hj, List.inj_on_of_nodup_map h.opcode_nodup hmem hi heq]

/-- The program counter is a register of the kind asked for. -/
theorem exists_pc (h : arch.Checked) :
    ∃ r, arch.registers[arch.pc]? = some r ∧ r.kind = .programCounter := by
  obtain ⟨hlt, hkind, -⟩ := List.findIdx?_eq_some_iff_getElem.1 h.pc_eq
  exact ⟨arch.registers[arch.pc], List.getElem?_eq_getElem hlt, by simpa using hkind⟩

end Checked

end Architecture

end Breadboard
