import Breadboard.Edu1
import Breadboard.Proofs.Assembler.Selection
import Breadboard.Proofs.Memory

/-!
# Loading is all or nothing

A program is stored field by field, and the listing shows the bytes line by line. Both agree: the
fields of a line that lies inside memory put down exactly its bytes (`Line.stores_writes`). In an
assembled program without problems every instruction and data line lies inside the memory that it
was assembled for (`loadable_of_mem_lines`), so no write is refused half-way. Loading therefore
stores everything that the listing shows, or nothing (`load_assemble`). A line that no later line
stores a byte over is then found in memory at its address (`Line.slice_foldl_imprint`).
-/

namespace Breadboard

/-! ## What a program leaves in memory -/

/-- The memory after the bytes of the line were put down at its address. -/
def Line.imprint (m : Memory) (l : Line) : Memory :=
  match l.address with
  | some address => m.overlay address.toNat l.bytes
  | none => m

/-- The memory after the bytes of every instruction and data line were put down, in the order of the
source. -/
def Program.imprint (m : Memory) (p : Program) : Memory :=
  (p.lines.filter Line.isStored).foldl Line.imprint m

/-- The line lies inside a memory of `size` bytes, and its opcode is known if it is an
instruction. -/
structure Line.Loadable (size : Nat) (l : Line) : Prop where
  opcode : ∀ c, l.body = .code c → c.opcode.isSome
  inside : l.isStored = true →
    ∃ start : Nat, l.address = some (start : Int) ∧ start + l.footprint ≤ size

theorem Line.imprint_of_address {l : Line} {start : Nat} (h : l.address = some (start : Int))
    (m : Memory) : l.imprint m = m.overlay start l.bytes := by
  rw [imprint, h]
  rfl

@[simp] theorem Line.size_imprint (m : Memory) (l : Line) :
    (l.imprint m).size = m.size := by
  rw [imprint]
  split
  · exact Memory.size_overlay _ _ _
  · rfl

/-- The line stores a byte in cell `i`. -/
def Line.Covers (l : Line) (i : Nat) : Prop :=
  l.isStored = true ∧ ∃ start : Nat, l.address = some (start : Int) ∧ start ≤ i ∧
    i < start + l.footprint

/-! ## Cells that later lines leave alone -/

/-- A line leaves the cells alone in which it stores no byte. -/
theorem Line.cell_imprint_of_not_covers {l : Line} {size i : Nat} (h : l.Loadable size)
    (hstored : l.isStored = true) (m : Memory) (hi : ¬ l.Covers i) :
    (l.imprint m).cell i = m.cell i := by
  obtain ⟨start, haddress, -⟩ := h.inside hstored
  rw [imprint_of_address haddress]
  apply Memory.cell_overlay_of_outside
  rw [length_bytes h.opcode]
  by_contra hinside
  exact hi ⟨hstored, start, haddress, by omega, by omega⟩

theorem Line.cell_foldl_imprint_of_not_covers {size i : Nat} {lines : List Line}
    (h : ∀ l ∈ lines, l.Loadable size) (m : Memory) (hi : ∀ l ∈ lines, ¬ l.Covers i) :
    ((lines.filter isStored).foldl imprint m).cell i = m.cell i := by
  induction lines generalizing m with
  | nil => rfl
  | cons l rest ih =>
    have hrest := ih (fun k hk => h k (List.mem_cons_of_mem _ hk))
    have hirest : ∀ k ∈ rest, ¬ k.Covers i := fun k hk => hi k (List.mem_cons_of_mem _ hk)
    -- a line that is not stored is not put down at all
    cases hstored : l.isStored with
    | false =>
      rw [List.filter_cons_of_neg (by simp [hstored])]
      exact hrest m hirest
    | true =>
      rw [List.filter_cons_of_pos hstored, List.foldl_cons, hrest _ hirest]
      exact cell_imprint_of_not_covers (h l List.mem_cons_self) hstored m
        (hi l List.mem_cons_self)

theorem Line.size_foldl_imprint (lines : List Line) (m : Memory) :
    (lines.foldl imprint m).size = m.size := by
  induction lines generalizing m with
  | nil => rfl
  | cons l rest ih => rw [List.foldl_cons, ih, size_imprint]

/-- Where no later line stores a byte over it, a line is found in memory. -/
theorem Line.slice_foldl_imprint {size start : Nat} {front back : List Line} {l : Line}
    (h : ∀ k ∈ front ++ l :: back, k.Loadable size) (hstored : l.isStored = true)
    (haddress : l.address = some (start : Int)) {m : Memory} (hm : size ≤ m.size)
    (hkept : ∀ k ∈ back, ∀ i, l.Covers i → ¬ k.Covers i) :
    (((front ++ l :: back).filter isStored).foldl imprint m).slice start l.footprint = l.bytes := by
  have hl : l.Loadable size := h l (by simp)
  have hback : ∀ k ∈ back, k.Loadable size := fun k hk => h k (by simp [hk])
  obtain ⟨start', haddress', hfit⟩ := hl.inside hstored
  obtain rfl : start = start' := by
    rw [haddress] at haddress'
    exact Int.ofNat.inj (Option.some.inj haddress')
  rw [List.filter_append, List.filter_cons_of_pos hstored, List.foldl_append, List.foldl_cons]
  have hsize := size_foldl_imprint (front.filter isStored) m
  generalize (front.filter isStored).foldl imprint m = before at hsize
  have hlength := length_bytes hl.opcode
  -- the later lines keep the cells of the line, and the line was put down before them
  calc ((back.filter isStored).foldl imprint (l.imprint before)).slice start l.footprint
      = (l.imprint before).slice start l.footprint := by
        apply Memory.slice_congr
        intro k hk
        apply cell_foldl_imprint_of_not_covers hback
        intro b hb
        exact hkept b hb _ ⟨hstored, start, haddress, by omega, by omega⟩
    _ = l.bytes := by
        rw [imprint_of_address haddress, ← hlength]
        apply Memory.slice_overlay_self
        omega

/-! ## Writing fields -/

namespace Machine

/-- Fields are written one after another, up to the first that is refused. -/
theorem writeAll_append (m : Machine) (xs ys : List MemoryWrite) :
    m.writeAll (xs ++ ys) =
      match m.writeAll xs with
      | (.error e, m) => (.error e, m)
      | (.ok (), m) => m.writeAll ys := by
  induction xs generalizing m with
  | nil => rfl
  | cons x xs ih =>
    simp only [List.cons_append, writeAll]
    split
    · rfl
    · exact ih _

/-- Fields that were all written lay inside memory. -/
theorem contains_of_writeAll {m m' : Machine} {ws : List MemoryWrite}
    (h : m.writeAll ws = (.ok (), m')) : ∀ w ∈ ws, m.memory.Contains w.address w.length := by
  induction ws generalizing m with
  | nil => simp
  | cons w rest ih =>
    rw [writeAll] at h
    by_cases hin : m.memory.Contains w.address w.length
    · rw [write_of_contains hin] at h
      refine List.forall_mem_cons.2 ⟨hin, fun k hk => ?_⟩
      -- the write did not change how large memory is
      have hsize : (m.store w.address.toNat (Word.toBytes w.value w.length)).memory.size =
          m.memory.size := Memory.size_overlay _ _ _
      obtain ⟨hpos, hend⟩ := ih h k hk
      rw [hsize] at hend
      exact ⟨hpos, hend⟩
    · rw [write_of_not_contains hin] at h
      simp at h

end Machine

/-- The writes `ws` are all carried out on `m`, and leave the memory `mem`. -/
def Machine.Stores (m : Machine) (ws : List MemoryWrite) (mem : Memory) : Prop :=
  ∃ m', m.writeAll ws = (.ok (), m') ∧ m'.memory = mem ∧ m'.cpu = m.cpu

theorem Machine.Stores.nil (m : Machine) : m.Stores [] m.memory := ⟨m, rfl, rfl, rfl⟩

/-- A field inside memory is stored as its bytes. -/
theorem Machine.Stores.field {m : Machine} {start length : Nat}
    (h : start + length ≤ m.memory.size) (v : Int) :
    m.Stores [⟨start, length, v⟩] (m.memory.overlay start (Word.toBytes v length)) := by
  have hin : m.memory.Contains start length := ⟨by omega, by omega⟩
  refine ⟨m.store start (Word.toBytes v length), ?_, rfl, rfl⟩
  simp only [writeAll, write_of_contains hin, Int.toNat_natCast]

/-- Writes that are carried out in two parts are carried out in sequence. -/
theorem Machine.Stores.append {m : Machine} {xs ys : List MemoryWrite} {mem mem' : Memory}
    (hxs : m.Stores xs mem) (hys : ∀ m' : Machine, m'.memory = mem → m'.Stores ys mem') :
    m.Stores (xs ++ ys) mem' := by
  -- the second part starts in whatever machine the first one leaves
  obtain ⟨m₁, hrun, hmem, hcpu⟩ := hxs
  obtain ⟨m₂, hrun', hmem', hcpu'⟩ := hys m₁ hmem
  refine ⟨m₂, ?_, hmem', hcpu'.trans hcpu⟩
  rw [writeAll_append, hrun]
  exact hrun'

/-! ## Lines and programs -/

/-- The fields of an instruction put down its bytes: the opcode first and the operand after it. -/
theorem Line.stores_code {l : Line} {c : CodeLine} {opcode : Int} {start : Nat} {m : Machine}
    (hbody : l.body = .code c) (hopcode : c.opcode = some opcode)
    (haddress : l.address = some (start : Int)) (hfit : start + c.footprint ≤ m.memory.size) :
    m.Stores l.writes (m.memory.overlay start l.bytes) := by
  obtain ⟨mnemonic, size, relative, operand, opcode'⟩ := c
  subst hopcode
  cases operand with
  | none =>
    have hwrites : l.writes = [⟨start, size, opcode⟩] := by
      simp [writes, hbody, haddress]
    have hbytes : l.bytes = Word.toBytes opcode size := by
      simp [bytes, hbody]
    rw [hwrites, hbytes]
    exact Machine.Stores.field (by simpa [CodeLine.footprint] using hfit) opcode
  | some o =>
    have hwrites : l.writes =
        [⟨start, size, opcode⟩] ++ [⟨(start + size : Nat), o.size, o.value⟩] := by
      simp [writes, hbody, haddress]
    have hbytes : l.bytes = Word.toBytes opcode size ++ Word.toBytes o.value o.size := by
      simp [bytes, hbody]
    have hroom : start + (size + o.size) ≤ m.memory.size := by
      simpa [CodeLine.footprint] using hfit
    -- the operand is written into the memory that already has the opcode
    rw [hwrites, hbytes, Memory.overlay_append, Word.length_toBytes]
    refine (Machine.Stores.field (by omega) opcode).append fun m' hm' => ?_
    rw [← hm']
    apply Machine.Stores.field
    rw [hm', Memory.size_overlay]
    omega

/-- The fields of a line put down its bytes. -/
theorem Line.stores_writes {l : Line} {size : Nat} (h : l.Loadable size) {m : Machine}
    (hm : size ≤ m.memory.size) (hstored : l.isStored = true) :
    m.Stores l.writes (l.imprint m.memory) := by
  obtain ⟨start, haddress, hfit⟩ := h.inside hstored
  rw [imprint_of_address haddress]
  cases hbody : l.body with
  | code c =>
    obtain ⟨opcode, hopcode⟩ := Option.isSome_iff_exists.1 (h.opcode c hbody)
    have hroom : start + c.footprint ≤ m.memory.size := by
      simp only [footprint, hbody] at hfit
      omega
    exact stores_code hbody hopcode haddress hroom
  | data keyword width value =>
    have hwrites : l.writes = [⟨start, width, value⟩] := by
      simp [writes, hbody, haddress]
    have hbytes : l.bytes = Word.toBytes value width := by
      simp [bytes, hbody]
    rw [hwrites, hbytes]
    apply Machine.Stores.field
    simp only [footprint, hbody] at hfit
    omega
  | directive name => simp [isStored, hbody] at hstored
  | label => simp [isStored, hbody] at hstored
  | unknown => simp [isStored, hbody] at hstored

/-- A line that is neither an instruction nor data writes nothing. -/
theorem Line.writes_of_not_isStored {l : Line} (h : l.isStored = false) : l.writes = [] := by
  cases hbody : l.body with
  | code c => simp [isStored, hbody] at h
  | data keyword width value => simp [isStored, hbody] at h
  | directive name => simp [writes, hbody]
  | label => simp [writes, hbody]
  | unknown => simp [writes, hbody]

/-- The fields of lines inside memory put down the bytes of the lines, in order. -/
theorem Line.stores_flatMap_writes {size : Nat} {lines : List Line}
    (h : ∀ l ∈ lines, l.Loadable size) {m : Machine} (hm : size ≤ m.memory.size) :
    m.Stores (lines.flatMap writes) ((lines.filter isStored).foldl imprint m.memory) := by
  -- each line is put down over what the lines before it left, and no line changes the size
  induction lines generalizing m with
  | nil => exact Machine.Stores.nil m
  | cons l rest ih =>
    have hrest : ∀ l ∈ rest, l.Loadable size := fun l hl => h l (List.mem_cons_of_mem _ hl)
    rw [List.flatMap_cons]
    cases hstored : l.isStored with
    | false =>
      rw [writes_of_not_isStored hstored, List.nil_append,
        List.filter_cons_of_neg (by simp [hstored])]
      exact ih hrest hm
    | true =>
      rw [List.filter_cons_of_pos hstored, List.foldl_cons]
      refine (stores_writes (h l List.mem_cons_self) hm hstored).append fun m' hm' => ?_
      rw [← hm']
      apply ih hrest
      rw [hm', size_imprint]
      exact hm

/-- A line all of whose fields lie inside a memory lies inside it. -/
theorem Line.Loadable.of_writes {l : Line} {size : Nat} (h : l.Loadable size) {m : Memory}
    (hin : ∀ w ∈ l.writes, m.Contains w.address w.length) : l.Loadable m.size := by
  refine ⟨h.opcode, fun hstored => ?_⟩
  obtain ⟨start, haddress, -⟩ := h.inside hstored
  refine ⟨start, haddress, ?_⟩
  cases hbody : l.body with
  | code c =>
    obtain ⟨opcode, hopcode⟩ := Option.isSome_iff_exists.1 (h.opcode c hbody)
    obtain ⟨mnemonic, width, relative, operand, opcode'⟩ := c
    subst hopcode
    rw [footprint, hbody]
    cases operand with
    | none =>
      obtain ⟨-, hend⟩ := hin ⟨start, width, opcode⟩ (by simp [writes, hbody, haddress])
      dsimp only [CodeLine.footprint, Option.elim_none] at hend ⊢
      omega
    | some o =>
      -- the operand is the last field of the line
      obtain ⟨-, hend⟩ := hin ⟨start + width, o.size, o.value⟩
        (by simp [writes, hbody, haddress])
      dsimp only [CodeLine.footprint, Option.elim_some] at hend ⊢
      omega
  | data keyword width value =>
    obtain ⟨-, hend⟩ := hin ⟨start, width, value⟩ (by simp [writes, hbody, haddress])
    rw [footprint, hbody]
    dsimp only at hend ⊢
    omega
  | directive name => simp [isStored, hbody] at hstored
  | label => simp [isStored, hbody] at hstored
  | unknown => simp [isStored, hbody] at hstored

namespace Program

variable {arch : Architecture} {source : String} {memorySize : Nat}

/-- A line without a problem lies inside the memory that the program was assembled for. -/
theorem loadable_of_mem_lines {l : Line} (h : l ∈ (assemble arch source memorySize).lines)
    (herrors : l.errors = []) : l.Loadable memorySize := by
  -- the opcode is known since the line selects an instruction, and placing checked the bounds
  refine ⟨fun c hbody => ?_, fun hstored => ?_⟩
  · obtain ⟨i, hi⟩ := Architecture.exists_selects_of_mem_lines h hbody herrors
    simp [hi.opcode]
  · obtain ⟨s, state, rfl⟩ := mem_lines_assemble h
    have hplace := Resolution.errors_of_resolve herrors
    obtain ⟨address, errors, hplaced⟩ := Layout.place_eq memorySize state (arch.classify s)
    rw [Resolution.isStored_resolve, hplaced] at hstored
    have hclassified : (arch.classify s).isStored = true := hstored
    obtain ⟨start, haddress, hfit⟩ := Layout.place_inside hclassified hplace
    refine ⟨start, by rw [Resolution.address_resolve, haddress], ?_⟩
    rw [Resolution.footprint_resolve, hplaced]
    exact hfit

/-- A program without problems is stored as the bytes of its lines. -/
theorem writeAll_writes (h : ∀ l ∈ (assemble arch source memorySize).lines, l.errors = [])
    {m : Machine} (hm : memorySize ≤ m.memory.size) :
    m.Stores (assemble arch source memorySize).writes
      ((assemble arch source memorySize).imprint m.memory) :=
  Line.stores_flatMap_writes (fun l hl => loadable_of_mem_lines hl (h l hl)) hm

/-- A program without problems that has an instruction has an entry point. -/
theorem exists_entryPoint? (h : ∀ l ∈ (assemble arch source memorySize).lines, l.errors = [])
    (hcode : ∃ l ∈ (assemble arch source memorySize).lines, l.isCode = true) :
    ∃ entry, (assemble arch source memorySize).entryPoint? = some entry := by
  -- the entry point is the address of the first instruction, which was placed
  obtain ⟨l, hl⟩ := Option.isSome_iff_exists.1 (List.find?_isSome.2 hcode)
  have hmem := List.mem_of_find?_eq_some hl
  have hstored := Line.isStored_of_isCode (List.find?_some hl)
  obtain ⟨start, haddress, -⟩ := (loadable_of_mem_lines hmem (h l hmem)).inside hstored
  exact ⟨start, by rw [entryPoint?, hl, Option.bind_some, haddress]⟩

theorem isOk_eq_true_iff {p : Program} : p.isOk = true ↔ ∀ l ∈ p.lines, l.errors = [] := by
  simp [isOk]

/-- A program that was loaded has no problem, and its fields were written. -/
theorem writeAll_of_load {p : Program} {m m' : Machine} {entry : Int}
    (h : p.load m = (.ok entry, m')) :
    (∀ l ∈ p.lines, l.errors = []) ∧ m.writeAll p.writes = (.ok (), m') := by
  -- a problem refuses the program before anything is written
  cases hisOk : p.isOk with
  | false => simp [load_of_not_isOk hisOk] at h
  | true =>
    refine ⟨isOk_eq_true_iff.1 hisOk, ?_⟩
    rw [load, hisOk] at h
    cases hentry : p.entryPoint? with
    | none => simp [hentry] at h
    | some address =>
      simp only [Bool.not_true, Bool.false_eq_true, if_false, hentry] at h
      split at h
      · simp at h
      next m'' hrun =>
        rw [hrun, (Prod.mk.inj h).2]

/-- A program that was loaded lies inside the memory that it was loaded into. -/
theorem loadable_of_load {m m' : Machine} {entry : Int}
    (h : (assemble arch source memorySize).load m = (.ok entry, m')) :
    ∀ l ∈ (assemble arch source memorySize).lines, l.Loadable m.memory.size := by
  obtain ⟨hok, hrun⟩ := writeAll_of_load h
  intro l hl
  apply (loadable_of_mem_lines hl (hok l hl)).of_writes
  intro w hw
  exact Machine.contains_of_writeAll hrun w (List.mem_flatMap.2 ⟨l, hl, hw⟩)

/-- Memory holds the bytes of a program that was loaded. -/
theorem memory_of_load {m m' : Machine} {entry : Int}
    (h : (assemble arch source memorySize).load m = (.ok entry, m')) :
    (∀ l ∈ (assemble arch source memorySize).lines, l.errors = []) ∧
      m'.memory = (assemble arch source memorySize).imprint m.memory := by
  obtain ⟨hok, hrun⟩ := writeAll_of_load h
  obtain ⟨m'', hrun', hmemory, -⟩ := Line.stores_flatMap_writes (loadable_of_load h) le_rfl
  refine ⟨hok, ?_⟩
  have hsame : m' = m'' := (Prod.mk.inj (hrun.symm.trans hrun')).2
  rw [hsame, hmemory]
  rfl

/-- After a program was loaded, a line that no later line stores a byte over is in memory at its
address. -/
theorem slice_of_load {m m' : Machine} {entry : Int} {front back : List Line} {l : Line}
    (hload : (assemble arch source memorySize).load m = (.ok entry, m'))
    (hlines : (assemble arch source memorySize).lines = front ++ l :: back)
    (hstored : l.isStored = true) (hkept : ∀ k ∈ back, ∀ i, l.Covers i → ¬ k.Covers i) :
    m'.memory.size = m.memory.size ∧ ∃ start : Nat, l.address = some (start : Int) ∧
      start + l.footprint ≤ m.memory.size ∧
        m'.memory.slice start l.footprint = l.bytes := by
  obtain ⟨-, hmemory⟩ := memory_of_load hload
  have hloadable : ∀ k ∈ front ++ l :: back, k.Loadable m.memory.size := by
    rw [← hlines]
    exact loadable_of_load hload
  obtain ⟨start, haddress, hfit⟩ := (hloadable l (by simp)).inside hstored
  have hslice := Line.slice_foldl_imprint hloadable hstored haddress le_rfl hkept
  rw [← hlines, ← imprint, ← hmemory] at hslice
  refine ⟨?_, start, haddress, hfit, hslice⟩
  rw [hmemory, imprint, Line.size_foldl_imprint]

/-- A program without problems that has an entry point is loaded. -/
theorem load_of_forall_errors (h : ∀ l ∈ (assemble arch source memorySize).lines, l.errors = [])
    {entry : Int} (hentry : (assemble arch source memorySize).entryPoint? = some entry)
    {m : Machine} (hm : memorySize ≤ m.memory.size) :
    ∃ m', (assemble arch source memorySize).load m = (.ok entry, m') ∧
      m'.memory = (assemble arch source memorySize).imprint m.memory ∧ m'.cpu = m.cpu := by
  obtain ⟨m', hrun, hmemory, hcpu⟩ := writeAll_writes h hm
  refine ⟨m', ?_, hmemory, hcpu⟩
  rw [load, isOk_eq_true_iff.2 h, hentry, hrun]
  rfl

/-- Loading an assembled program into a memory that is at least as large as the one it was assembled
for is all or nothing. With a problem on some line, or without an instruction, the machine stays as
it is; otherwise the entry point is returned, and memory holds the bytes of every instruction and
data line at the address of the line, put down in the order of the source over what was there. -/
theorem load_assemble (arch : Architecture) (source : String) {memorySize : Nat} {m : Machine}
    (hm : memorySize ≤ m.memory.size) :
    let p := assemble arch source memorySize
    ((∃ l ∈ p.lines, l.errors ≠ []) → p.load m = (.error (.assembly p.errors), m)) ∧
      ((∀ l ∈ p.lines, l.errors = []) → (∀ l ∈ p.lines, l.isCode = false) →
        p.load m = (.error .noInstruction, m)) ∧
      ((∀ l ∈ p.lines, l.errors = []) → (∃ l ∈ p.lines, l.isCode = true) →
        ∃ entry m', p.entryPoint? = some entry ∧ p.load m = (.ok entry, m') ∧
          m'.memory = p.imprint m.memory ∧ m'.cpu = m.cpu ∧
          ∀ l ∈ p.lines, l.isStored = true →
            ∃ start : Nat, l.address = some (start : Int) ∧
              start + l.bytes.length ≤ memorySize) := by
  intro p
  refine ⟨?_, ?_, ?_⟩
  -- a problem on some line
  · rintro ⟨l, hl, hbad⟩
    apply load_of_not_isOk
    rw [← Bool.not_eq_true, isOk_eq_true_iff]
    intro hall
    exact hbad (hall l hl)
  -- no instruction to begin with
  · intro hok hnone
    have hentry : p.entryPoint? = none := by
      have hfind : p.lines.find? (·.isCode) = none := by
        rw [List.find?_eq_none]
        intro l hl
        simp [hnone l hl]
      rw [entryPoint?, hfind]
      rfl
    simp [load, isOk_eq_true_iff.2 hok, hentry]
  -- no problem: no write is refused
  · intro hok hcode
    obtain ⟨entry, hentry⟩ := exists_entryPoint? hok hcode
    obtain ⟨m', hload, hmemory, hcpu⟩ := load_of_forall_errors hok hentry hm
    refine ⟨entry, m', hentry, hload, hmemory, hcpu, ?_⟩
    intro l hl hstored
    have hloadable := loadable_of_mem_lines hl (hok l hl)
    rw [Line.length_bytes hloadable.opcode]
    exact hloadable.inside hstored

theorem load_assemble_edu1 :
    ∃ (entry : Int) (m' : Machine),
      (assemble Edu1.architecture "LDA 10\n.END\n10 7\n" 16).load { memory := .zeroed 16 } =
          (.ok entry, m') ∧
        m'.memory.slice 0 3 = [1, 10, 255] ∧ m'.memory.cell 10 = 7 := by
  have hsize : 16 ≤ ({ memory := .zeroed 16 } : Machine).memory.size := by decide
  obtain ⟨-, -, h⟩ := load_assemble Edu1.architecture "LDA 10\n.END\n10 7\n" hsize
  obtain ⟨entry, m', -, hload, hmem, -⟩ := h (by decide) (by decide)
  refine ⟨entry, m', hload, ?_, ?_⟩
  · rw [hmem]
    decide
  · rw [hmem]
    decide

end Program

end Breadboard
