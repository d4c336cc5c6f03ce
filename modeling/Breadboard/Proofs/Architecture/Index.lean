import Breadboard.Proofs.Architecture.Checks
import Breadboard.Proofs.Word

/-!
# Which tables are accepted, and how they are indexed

Tables are accepted exactly if they are valid: there is a program counter, every width lies within
its bounds, and the opcodes fit their field and differ (`Draft.Valid`, `Draft.build_eq_ok_iff_valid`).
The instructions can be entered into an index in the same pass that checks them, one instruction
after another (`Index.check`). This pass accepts and refuses what the checks do, with the same error
(`Index.check_eq`), and what it enters at every moment is where a search through the instructions so
far would find them (`Index.Lists`, `Index.lists_of_check`). So looking an opcode or a mnemonic up in
the index is the same as searching all instructions, and both give what was declared
(`Draft.build_indexes`).
-/

namespace Breadboard

/-- The instruction with its mnemonic in upper case. -/
def Instruction.upper {modes : Nat} (i : Instruction modes) : Instruction modes :=
  { i with mnemonic := Text.upper i.mnemonic }

/-! ## The index -/

/-- Where the instructions stand: one position for an opcode, any number for a mnemonic. -/
structure Index where
  byOpcode : Std.HashMap Int Nat := {}
  byMnemonic : Std.HashMap String (List Nat) := {}

namespace Index

variable {modes : Nat}

/-- The positions that are filed under a mnemonic. -/
def positions (t : Index) (mnemonic : String) : List Nat := t.byMnemonic[mnemonic]?.getD []

/-- Enters the instruction at position `k`. -/
def enter (t : Index) (k : Nat) (i : Instruction modes) : Index where
  byOpcode := t.byOpcode.insert i.opcode k
  byMnemonic := t.byMnemonic.insert i.mnemonic (t.positions i.mnemonic ++ [k])

/-- Checks instructions in order and enters each that passes, the first one at position `k`. -/
def check (width : Nat) (hasOffsetMode : Bool) (t : Index) (k : Nat) :
    List (Instruction modes) → Except TableError Index
  | [] => .ok t
  | i :: rest =>
    if ! Word.fitsUnsigned i.opcode width then .error (.opcodeTooWide i.opcode width)
    else if t.byOpcode.contains i.opcode then .error (.duplicateOpcode i.opcode)
    else if i.relative && ! hasOffsetMode then .error (.missingOffsetMode i.mnemonic)
    else check width hasOffsetMode (t.enter k i) (k + 1) rest

/-- The instruction of `is` that the index gives for an opcode. -/
def instruction? (t : Index) (is : List (Instruction modes)) (opcode : Int) :
    Option (Instruction modes) :=
  t.byOpcode[opcode]?.bind fun k => is[k]?

/-- The instructions of `is` that the index gives for a mnemonic in any case. -/
def named (t : Index) (is : List (Instruction modes)) (mnemonic : String) :
    List (Instruction modes) :=
  (t.positions (Text.upper mnemonic)).filterMap fun k => is[k]?

/-! ## The pass that fills it -/

/-- Checking with an index refuses what checking with a list of opcodes refuses. -/
theorem check_eq (width : Nat) (hasOffsetMode : Bool) {t : Index} {seen : List Int}
    (h : ∀ opcode, t.byOpcode.contains opcode = seen.contains opcode) (k : Nat)
    (is : List (Instruction modes)) :
    (check width hasOffsetMode t k is).map (fun _ => ()) =
      Draft.checkInstructions width hasOffsetMode seen is := by
  induction is generalizing t seen k with
  | nil => rfl
  | cons i rest ih =>
    rw [check, Draft.checkInstructions, h i.opcode]
    split
    · rfl
    · split
      · rfl
      · split
        · rfl
        · apply ih
          intro opcode
          rw [enter, Std.HashMap.contains_insert, h opcode, List.contains_cons]
          simp [Bool.beq_comm]

/-- The index holds what a search through `is` would find: for every opcode the first position, and
for every mnemonic all positions in order. -/
structure Lists (t : Index) (is : List (Instruction modes)) : Prop where
  byOpcode : ∀ opcode, t.byOpcode[opcode]? = is.findIdx? (·.opcode = opcode)
  byMnemonic : ∀ mnemonic, t.positions mnemonic =
    is.zipIdx.filterMap fun (i, k) => if i.mnemonic = mnemonic then some k else none

theorem lists_nil : Lists {} ([] : List (Instruction modes)) where
  byOpcode opcode := by simp
  byMnemonic mnemonic := by simp [positions]

theorem positions_enter (t : Index) (k : Nat) (i : Instruction modes) (mnemonic : String) :
    (t.enter k i).positions mnemonic =
      t.positions mnemonic ++ if i.mnemonic = mnemonic then [k] else [] := by
  rw [positions, enter, Std.HashMap.getElem?_insert]
  by_cases h : i.mnemonic = mnemonic
  · simp [h]
  · simp [h, positions]

/-- An instruction whose opcode is new is entered behind the others. -/
theorem Lists.enter {t : Index} {is : List (Instruction modes)} (h : t.Lists is)
    {i : Instruction modes} (hnew : t.byOpcode.contains i.opcode = false) :
    (t.enter is.length i).Lists (is ++ [i]) where
  byOpcode opcode := by
    rw [Index.enter, Std.HashMap.getElem?_insert, List.findIdx?_append, ← h.byOpcode]
    by_cases hop : i.opcode = opcode
    · -- the search does not find it any earlier
      have hnone : t.byOpcode[opcode]? = none := by
        rw [← hop]
        exact Std.HashMap.getElem?_eq_none_of_contains_eq_false hnew
      rw [hnone]
      simp [hop]
    · simp [hop]
  byMnemonic mnemonic := by
    rw [positions_enter, h.byMnemonic, List.zipIdx_append, List.filterMap_append]
    by_cases hname : i.mnemonic = mnemonic
    · simp [hname]
    · simp [hname]

/-- A pass that accepts all instructions has entered all of them. -/
theorem lists_of_check {width : Nat} {hasOffsetMode : Bool} {t t' : Index}
    {front is : List (Instruction modes)} (h : t.Lists front)
    (hcheck : check width hasOffsetMode t front.length is = .ok t') : t'.Lists (front ++ is) := by
  induction is generalizing t front with
  | nil =>
    obtain rfl := Except.ok.inj hcheck
    rwa [List.append_nil]
  | cons i rest ih =>
    rw [check] at hcheck
    split at hcheck
    · simp at hcheck
    · split at hcheck
      · simp at hcheck
      next hnew =>
        split at hcheck
        · simp at hcheck
        · have hentered := h.enter (by simpa using hnew)
          have hrest := ih hentered (by rwa [List.length_append, List.length_singleton])
          rwa [List.append_assoc, List.singleton_append] at hrest

variable {t : Index} {is : List (Instruction modes)}

/-- Looking an opcode up is searching for it. -/
theorem Lists.instruction?_eq (h : t.Lists is) (opcode : Int) :
    t.instruction? is opcode = is.find? (·.opcode = opcode) := by
  rw [Index.instruction?, h.byOpcode, List.find?_eq_bind_findIdx?_getElem?]

/-- Looking a mnemonic up is searching for all instructions of that name. -/
theorem Lists.named_eq (h : t.Lists is) (mnemonic : String) :
    t.named is mnemonic = is.filter (·.mnemonic = Text.upper mnemonic) := by
  let matches? (i : Instruction modes) : Option (Instruction modes) :=
    if i.mnemonic = Text.upper mnemonic then some i else none
  calc t.named is mnemonic
      = is.zipIdx.filterMap (matches? ∘ Prod.fst) := by
        rw [Index.named, h.byMnemonic, List.filterMap_filterMap]
        apply List.filterMap_congr
        rintro ⟨i, k⟩ hik
        -- the instruction at a position is the one that was entered there
        have hget := List.mem_zipIdx_iff_getElem?.1 hik
        by_cases hname : i.mnemonic = Text.upper mnemonic
        · simpa [matches?, hname] using hget
        · simp [matches?, hname]
    _ = is.filterMap matches? := by
        rw [← List.filterMap_map, List.zipIdx_map_fst]
    _ = is.filter (·.mnemonic = Text.upper mnemonic) := by
        rw [← List.filterMap_eq_filter]
        apply List.filterMap_congr
        intro i _
        simp [matches?, Option.guard]

end Index

namespace Draft

/-! ## Valid tables -/

/-- There is a program counter, every width lies within its bounds, and the opcodes fit their field
and differ. If an instruction is relative, there is a mode for its labels. -/
structure Valid (d : Draft) : Prop where
  counter : ∃ r ∈ d.registers, r.kind = .programCounter
  word : 1 ≤ d.sizes.word ∧ d.sizes.word ≤ 4
  address : 1 ≤ d.sizes.address ∧ d.sizes.address ≤ 4
  opcode : 1 ≤ d.sizes.opcode ∧ d.sizes.opcode ≤ 4
  registers : ∀ r ∈ d.registers, 1 ≤ r.size ∧ r.size ≤ 4
  operands : ∀ m ∈ d.modes, m.size ≤ 4
  data : ∀ x ∈ d.data, 1 ≤ x.size ∧ x.size ≤ 4
  opcodes : ∀ i ∈ d.instructions, 0 ≤ i.opcode ∧ i.opcode < 256 ^ d.sizes.opcode
  distinct : d.instructions.Pairwise fun i j => i.opcode ≠ j.opcode
  offset : (∃ i ∈ d.instructions, i.relative = true) → d.offsetMode.isSome = true

/-- The first register that is a program counter stands at position `pc`. -/
def FirstCounter (d : Draft) (pc : Nat) : Prop :=
  (∃ r, d.registers[pc]? = some r ∧ r.kind = .programCounter) ∧
    ∀ j, j < pc → ∀ r, d.registers[j]? = some r → r.kind ≠ .programCounter

/-- The architecture that the tables become, with the program counter at position `pc`. -/
def accepted (d : Draft) (pc : Nat) : Architecture := { d.normalized with pc }

/-- The index of the instructions, if they pass their checks. -/
def index (d : Draft) : Except TableError Index :=
  Index.check d.sizes.opcode d.offsetMode.isSome {} 0 d.normalized.instructions

variable {d : Draft} {pc : Nat} {arch : Architecture}

theorem findIdx?_eq_some_iff_firstCounter :
    (d.registers.findIdx? fun r => r.kind = .programCounter) = some pc ↔ d.FirstCounter pc := by
  rw [List.findIdx?_eq_some_iff_getElem]
  constructor
  · rintro ⟨hlt, hkind, hbefore⟩
    refine ⟨⟨d.registers[pc], List.getElem?_eq_getElem hlt, by simpa using hkind⟩, ?_⟩
    intro j hj r hr
    obtain ⟨hjlt, rfl⟩ := List.getElem?_eq_some_iff.1 hr
    simpa using hbefore j hj
  · rintro ⟨⟨r, hr, hkind⟩, hbefore⟩
    obtain ⟨hlt, rfl⟩ := List.getElem?_eq_some_iff.1 hr
    refine ⟨hlt, by simpa using hkind, ?_⟩
    intro j hj
    simpa using hbefore j hj _ (List.getElem?_eq_getElem (by omega))

/-- If there is a program counter, there is a first one. -/
theorem exists_firstCounter (h : ∃ r ∈ d.registers, r.kind = .programCounter) :
    ∃ pc, d.FirstCounter pc := by
  have hsome : (d.registers.findIdx? fun r => r.kind = .programCounter).isSome = true := by
    rw [List.findIdx?_isSome, List.any_eq_true]
    obtain ⟨r, hr, hkind⟩ := h
    exact ⟨r, hr, by simpa using hkind⟩
  obtain ⟨pc, hpc⟩ := Option.isSome_iff_exists.1 hsome
  exact ⟨pc, findIdx?_eq_some_iff_firstCounter.1 hpc⟩

theorem FirstCounter.exists (h : d.FirstCounter pc) :
    ∃ r ∈ d.registers, r.kind = .programCounter := by
  obtain ⟨⟨r, hr, hkind⟩, -⟩ := h
  exact ⟨r, List.mem_of_getElem? hr, hkind⟩

/-- Instructions pass their checks exactly if they are as valid tables have them. The case of their
mnemonics does not matter. -/
theorem checkInstructions_upper_eq_ok_iff {modes width : Nat} (hwidth : width ≤ 4)
    {hasOffsetMode : Bool} {is : List (Instruction modes)} :
    checkInstructions width hasOffsetMode [] (is.map Instruction.upper) = .ok () ↔
      (∀ i ∈ is, 0 ≤ i.opcode ∧ i.opcode < 256 ^ width) ∧
        (is.Pairwise fun i j => i.opcode ≠ j.opcode) ∧
        ((∃ i ∈ is, i.relative = true) → hasOffsetMode = true) := by
  have hfits (i : Instruction modes) :
      Word.fitsUnsigned i.opcode width = true ↔ 0 ≤ i.opcode ∧ i.opcode < 256 ^ width := by
    have hmodulus : ((Word.modulus width : Nat) : Int) = 256 ^ width := Nat.cast_pow 256 width
    rw [Word.fitsUnsigned_eq_true_iff (by omega), hmodulus]
  have hopcodes : (is.map Instruction.upper).map (·.opcode) = is.map (·.opcode) := List.map_map
  rw [checkInstructions_eq_ok_iff, hopcodes, List.forall_mem_map, List.forall_mem_map, List.Nodup,
    List.pairwise_map]
  constructor
  · rintro ⟨hopcode, ⟨hdistinct, -⟩, hoffset⟩
    refine ⟨fun i hi => (hfits i).1 (hopcode i hi), hdistinct, ?_⟩
    rintro ⟨i, hi, hrelative⟩
    exact hoffset i.upper (List.mem_map_of_mem hi) hrelative
  · rintro ⟨hopcode, hdistinct, hoffset⟩
    refine ⟨fun i hi => (hfits i).2 (hopcode i hi), ⟨hdistinct, by simp⟩, ?_⟩
    intro i hi hrelative
    obtain ⟨j, hj, rfl⟩ := List.mem_map.1 hi
    exact hoffset ⟨j, hj, hrelative⟩

/-- Valid tables become an architecture, with the first program counter as its own, and no other
tables do. -/
theorem build_eq_ok_iff_valid :
    d.build = .ok arch ↔ d.Valid ∧ ∃ pc, d.FirstCounter pc ∧ arch = d.accepted pc := by
  rw [build_eq_ok_iff]
  simp only [checkSizes_eq_ok_iff, List.forall_mem_map, List.mem_singleton, forall_eq,
    findIdx?_eq_some_iff_firstCounter, widest, Nat.zero_le, true_and]
  constructor
  · rintro ⟨pc, rfl, hpc, hword, haddress, hopcode, hregisters, hoperands, hdata, hinstr⟩
    obtain ⟨hfits, hdistinct, hoffset⟩ := (checkInstructions_upper_eq_ok_iff hopcode.2).1 hinstr
    exact ⟨⟨hpc.exists, hword, haddress, hopcode, hregisters, hoperands, hdata, hfits, hdistinct,
      hoffset⟩, pc, hpc, rfl⟩
  · rintro ⟨hd, pc, hpc, rfl⟩
    exact ⟨pc, rfl, hpc, hd.word, hd.address, hd.opcode, hd.registers, hd.operands, hd.data,
      (checkInstructions_upper_eq_ok_iff hd.opcode.2).2 ⟨hd.opcodes, hd.distinct, hd.offset⟩⟩

theorem exists_build_iff_valid : (∃ arch, d.build = .ok arch) ↔ d.Valid := by
  constructor
  · rintro ⟨arch, harch⟩
    exact (build_eq_ok_iff_valid.1 harch).1
  · intro hd
    obtain ⟨pc, hpc⟩ := exists_firstCounter hd.counter
    exact ⟨_, build_eq_ok_iff_valid.2 ⟨hd, pc, hpc, rfl⟩⟩

/-! ## Looking instructions up -/

/-- The instructions of valid tables can be indexed. -/
theorem Valid.exists_index (hd : d.Valid) :
    ∃ t, d.index = .ok t ∧ t.Lists d.normalized.instructions := by
  have hpass : checkInstructions d.sizes.opcode d.offsetMode.isSome [] d.normalized.instructions =
      .ok () :=
    (checkInstructions_upper_eq_ok_iff hd.opcode.2).2 ⟨hd.opcodes, hd.distinct, hd.offset⟩
  -- nothing was entered before the first instruction, and no opcode was seen
  have hempty : ∀ opcode,
      ({} : Index).byOpcode.contains opcode = ([] : List Int).contains opcode := by simp
  have hsame : d.index.map (fun _ => ()) = _ :=
    Index.check_eq d.sizes.opcode d.offsetMode.isSome hempty 0 d.normalized.instructions
  rw [hpass] at hsame
  cases hindex : d.index with
  | error e => simp [hindex, Except.map] at hsame
  | ok t => exact ⟨t, rfl, Index.lists_of_check Index.lists_nil hindex⟩

/-- An opcode belongs to the one instruction that was declared with it, if there is one. -/
theorem Valid.instruction?_eq_some_iff (hd : d.Valid) {opcode : Int}
    {i : Instruction d.modes.length} :
    (d.accepted pc).instruction? opcode = some i ↔
      ∃ j ∈ d.instructions, j.opcode = opcode ∧ i = j.upper := by
  have hsearch : (d.instructions.map Instruction.upper).find? (·.opcode = opcode) =
      (d.instructions.find? (·.opcode = opcode)).map Instruction.upper := List.find?_map
  show (d.instructions.map Instruction.upper).find? (·.opcode = opcode) = some i ↔ _
  rw [hsearch, Option.map_eq_some_iff]
  constructor
  · rintro ⟨j, hj, rfl⟩
    exact ⟨j, List.mem_of_find?_eq_some hj, by simpa using List.find?_some hj, rfl⟩
  · rintro ⟨j, hj, rfl, rfl⟩
    -- the search finds some instruction with this opcode, and there is only one
    obtain ⟨k, hk⟩ : ∃ k, d.instructions.find? (·.opcode = j.opcode) = some k := by
      apply Option.isSome_iff_exists.1
      rw [List.find?_isSome]
      exact ⟨j, hj, by simp⟩
    have hnodup : (d.instructions.map (·.opcode)).Nodup := List.pairwise_map.2 hd.distinct
    have hopcode : k.opcode = j.opcode := by simpa using List.find?_some hk
    rw [List.inj_on_of_nodup_map hnodup (List.mem_of_find?_eq_some hk) hj hopcode] at hk
    exact ⟨j, hk, rfl⟩

/-- A mnemonic in any case belongs to the instructions that were declared with it. -/
theorem named_accepted (d : Draft) (pc : Nat) (mnemonic : String) :
    (d.accepted pc).named mnemonic =
      (d.instructions.filter fun i => Text.sameName i.mnemonic mnemonic).map Instruction.upper := by
  have hnamed : (d.accepted pc).named mnemonic =
      (d.instructions.map Instruction.upper).filter (·.mnemonic = Text.upper mnemonic) := rfl
  rw [hnamed, List.filter_map]
  rfl

/-- Tables are accepted exactly if they are valid. The program counter of an architecture is the
first one that was declared. Looking up an opcode gives the instruction that was declared with it,
or none, and looking up a mnemonic gives all instructions that were declared with it in any case, in
order. The index that is filled while the instructions are checked gives the same. -/
theorem build_indexes (d : Draft) :
    ((∃ arch, d.build = .ok arch) ↔ d.Valid) ∧
      ∀ arch, d.build = .ok arch →
        ∃ pc, d.FirstCounter pc ∧ arch = d.accepted pc ∧
          (∀ opcode i, (d.accepted pc).instruction? opcode = some i ↔
            ∃ j ∈ d.instructions, j.opcode = opcode ∧ i = j.upper) ∧
          (∀ mnemonic, (d.accepted pc).named mnemonic =
            (d.instructions.filter fun i => Text.sameName i.mnemonic mnemonic).map
              Instruction.upper) ∧
          ∃ t, d.index = .ok t ∧
            (∀ opcode, t.instruction? d.normalized.instructions opcode =
              (d.accepted pc).instruction? opcode) ∧
            ∀ mnemonic, t.named d.normalized.instructions mnemonic =
              (d.accepted pc).named mnemonic := by
  refine ⟨exists_build_iff_valid, ?_⟩
  intro arch harch
  obtain ⟨hd, pc, hpc, rfl⟩ := build_eq_ok_iff_valid.1 harch
  obtain ⟨t, ht, hlists⟩ := hd.exists_index
  exact ⟨pc, hpc, rfl, fun _ _ => hd.instruction?_eq_some_iff, named_accepted d pc, t, ht,
    hlists.instruction?_eq, hlists.named_eq⟩

/-- Tables in which one mnemonic is declared twice, in different case. -/
def mixedCase : Draft where
  name := "mixed case"
  registers :=
    [{ name := "A", kind := .accumulator, format := .signed, size := 4, rank := 0 },
     { name := "PC", kind := .programCounter, format := .unsigned, size := 1, rank := 1 }]
  modes := [{ name := "near", pattern := [[.label]], size := 0, decode := Numeral.decimal }]
  instructions :=
    [{ opcode := 255, mnemonic := "Inc", mode := some 0, relative := true,
       behaviour := fun _ => .done () },
     { opcode := 0, mnemonic := "nop", behaviour := fun _ => .done () },
     { opcode := 7, mnemonic := "iNC", behaviour := fun _ => .done () }]
  offsetMode := some 0

/-- The mnemonic is found in a third spelling, at both of its opcodes. -/
theorem build_indexes_mixedCase :
    mixedCase.build = .ok (mixedCase.accepted 1) ∧ mixedCase.Valid ∧ mixedCase.FirstCounter 1 ∧
      ((mixedCase.accepted 1).named "inc").map (·.opcode) = [255, 7] ∧
      (∃ i, (mixedCase.accepted 1).instruction? 0 = some i ∧ i.mnemonic = "NOP") ∧
      ∃ t, mixedCase.index = .ok t ∧
        t.named mixedCase.normalized.instructions "inc" = (mixedCase.accepted 1).named "inc" := by
  have hbuild : mixedCase.build = .ok (mixedCase.accepted 1) := rfl
  obtain ⟨hvalid, haccepted⟩ := build_indexes mixedCase
  obtain ⟨pc, hpc, harch, hopcode, hmnemonic, t, ht, -, hnamed⟩ := haccepted _ hbuild
  obtain rfl : pc = 1 := (congrArg Architecture.pc harch).symm
  refine ⟨hbuild, hvalid.1 ⟨_, hbuild⟩, hpc, ?_, ?_, t, ht, hnamed "inc"⟩
  · rw [hmnemonic "inc"]
    decide
  · exact ⟨_, (hopcode 0 _).2 ⟨_, List.mem_cons_of_mem _ List.mem_cons_self, rfl, rfl⟩,
      by decide⟩

end Draft

end Breadboard
