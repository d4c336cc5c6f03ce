import Breadboard.Architecture.Micro
import Breadboard.Mos6502
import Breadboard.Proofs.Architecture.Checks
import Breadboard.Proofs.Assembler.Classified

/-!
# How a line encodes a label

Whether the label of an instruction line is encoded as a distance or as an address is taken from the
first instruction of its mnemonic. The opcode is that of the first instruction of the mnemonic with
the addressing mode of the operand, and this may be another one. So the encoding suits the opcode
where all instructions of the mnemonic agree (`Architecture.Uniform`), as they do on the 6502
(`Mos6502.uniform`); `relative_of_classify` says what holds in general.
-/

namespace Breadboard

namespace Architecture

/-- All instructions of the mnemonic encode labels in the same way. -/
def Uniform (arch : Architecture) (mnemonic : String) : Prop :=
  ∀ i ∈ arch.instructions, ∀ j ∈ arch.instructions, i.mnemonic = mnemonic → j.mnemonic = mnemonic →
    i.relative = j.relative

variable {arch : Architecture} {c : CodeLine} {i : Instruction arch.modes.length}

theorem head?_named (word : String) :
    (arch.named word).head? = arch.instructions.find? (·.mnemonic = Text.upper word) :=
  List.head?_filter

/-- A line that selects an instruction encodes a label as the first instruction of its mnemonic
does. -/
theorem Selects.exists_first (hi : arch.Selects c i)
    (hrelative : ∃ word, c.mnemonic = Text.upper word ∧
      c.relative = (arch.named word).head?.any (·.relative)) :
    ∃ first, arch.instructions.find? (·.mnemonic = c.mnemonic) = some first ∧
      c.relative = first.relative := by
  obtain ⟨word, hword, hflag⟩ := hrelative
  -- the instruction selected has the mnemonic, so there is a first one
  obtain ⟨first, hfirst⟩ : ∃ first,
      arch.instructions.find? (·.mnemonic = c.mnemonic) = some first := by
    apply Option.isSome_iff_exists.1
    rw [List.find?_isSome]
    exact ⟨i, hi.mem, by simpa using hi.mnemonic⟩
  refine ⟨first, hfirst, ?_⟩
  rw [hflag, head?_named, ← hword, hfirst]
  rfl

/-- Where all instructions of a mnemonic agree, the first one may be replaced by the one
selected. -/
theorem Selects.relative_of_uniform (hi : arch.Selects c i)
    {first : Instruction arch.modes.length}
    (hfirst : arch.instructions.find? (·.mnemonic = c.mnemonic) = some first)
    (huniform : arch.Uniform c.mnemonic) : first.relative = i.relative := by
  have hname : first.mnemonic = c.mnemonic := by simpa using List.find?_some hfirst
  exact huniform first (List.mem_of_find?_eq_some hfirst) i hi.mem hname hi.mnemonic

end Architecture

namespace Mos6502

/-- Only branches have the mnemonic of a branch. -/
theorem isRelative_of_mnemonic : ∀ e ∈ opcodes, e.operation.isRelative = true →
    ∀ f ∈ opcodes, f.mnemonic = e.mnemonic → f.operation.isRelative = true := by
  decide +kernel

/-- The instructions of a mnemonic of the 6502 are all branches or none is. -/
theorem uniform (mnemonic : String) : architecture.Uniform mnemonic := by
  intro i hi j hj hname hname'
  obtain ⟨e, he, rfl⟩ := List.mem_map.1 hi
  obtain ⟨f, hf, rfl⟩ := List.mem_map.1 hj
  have hsame : f.mnemonic = e.mnemonic := hname'.trans hname.symm
  show e.operation.isRelative = f.operation.isRelative
  rw [Bool.eq_iff_iff]
  constructor
  · intro h
    exact isRelative_of_mnemonic e he h f hf hsame
  · intro h
    exact isRelative_of_mnemonic f hf h e he hsame.symm

end Mos6502

namespace Architecture

variable {arch : Architecture} {c : CodeLine}

/-- Take an accepted architecture and a source line that is an instruction with an opcode, whatever
problems it has. The opcode is that of an instruction with the mnemonic of the line. Whether a label
is encoded as a distance is as the first instruction with this mnemonic says, and so as the
instruction with the opcode says if all instructions of the mnemonic agree. -/
theorem relative_of_classify {d : Draft} (hbuild : d.build = .ok arch) {s : SourceLine}
    {opcode : Int} (hbody : (arch.classify s).body = .code c) (hopcode : c.opcode = some opcode) :
    ∃ i first, arch.instruction? opcode = some i ∧ i.mnemonic = c.mnemonic ∧
      arch.instructions.find? (·.mnemonic = c.mnemonic) = some first ∧
      c.relative = first.relative ∧ (arch.Uniform c.mnemonic → c.relative = i.relative) := by
  obtain ⟨i, hi⟩ := exists_selects_of_opcode hbody hopcode
  obtain ⟨-, hrelative, -⟩ := (classified_classify s).code c hbody
  have hfound : arch.instruction? opcode = some i := by
    have heq : opcode = i.opcode := Option.some.inj (hopcode.symm.trans hi.opcode)
    rw [heq]
    exact (checked_of_build hbuild).instruction?_opcode hi.mem
  obtain ⟨first, hfirst, hflag⟩ := hi.exists_first hrelative
  refine ⟨i, first, hfound, hi.mnemonic, hfirst, hflag, ?_⟩
  intro huniform
  rw [hflag]
  exact hi.relative_of_uniform hfirst huniform

theorem relative_of_classify_mos6502 :
    ∃ c i, (Mos6502.architecture.classify ⟨1, "BNE loop", ["BNE", "loop"]⟩).body = .code c ∧
      c.opcode = some 0xD0 ∧ Mos6502.architecture.instruction? 0xD0 = some i ∧
      c.relative = i.relative := by
  have hbody : (Mos6502.architecture.classify ⟨1, "BNE loop", ["BNE", "loop"]⟩).body =
      .code
        { mnemonic := "BNE", size := 1, relative := true, opcode := some 0xD0
          operand := some { text := "loop", mode := 2, label := some "loop", size := 1 } } := by
    decide
  obtain ⟨i, -, hfound, -, -, -, hagrees⟩ := relative_of_classify Mos6502.build_draft hbody rfl
  exact ⟨_, i, hbody, rfl, hfound, hagrees (Mos6502.uniform "BNE")⟩

/-- Tables with two jumps of one name: to an address, and by a distance, whose operand begins with
an at sign. -/
def twoJumps : Draft where
  name := "two jumps"
  registers :=
    [{ name := "PC", kind := .programCounter, format := .unsigned, size := 1, rank := 0 }]
  modes :=
    [{ name := "relative", size := 1, decode := Numeral.decimal
       pattern := [[.literal "@", .label], [.literal "@", .number .decimal]] },
     { name := "absolute", size := 1, decode := Numeral.decimal
       pattern := [[.label], [.number .decimal]] }]
  instructions :=
    [{ opcode := 1, mnemonic := "JMP", mode := some 1
       behaviour := MicroStep.behaviour 0 1 "JMP" [.jump] },
     { opcode := 2, mnemonic := "JMP", mode := some 0, relative := true
       behaviour := MicroStep.behaviour 0 1 "JMP" [.branch .zero false] }]
  offsetMode := some 0

/-- The second jump is selected for its operand, but the label is encoded as the first jump has
it. -/
theorem relative_of_two_jumps :
    ∃ arch c i, twoJumps.build = .ok arch ∧
      (arch.classify ⟨1, "JMP @HERE", ["JMP", "@HERE"]⟩).body = .code c ∧
      (arch.classify ⟨1, "JMP @HERE", ["JMP", "@HERE"]⟩).errors = [] ∧ c.opcode = some 2 ∧
      arch.instruction? 2 = some i ∧ i.relative = true ∧ c.relative = false :=
  ⟨_, _, _, rfl, rfl, rfl, rfl, rfl, rfl, rfl⟩

end Architecture

end Breadboard
