import Breadboard.Proofs.Mos6502.Carry

/-!
# Numbers of many bytes through carry

A program adds or subtracts numbers of many bytes by going through them from the least significant
byte on: it loads a byte of the first number and combines it with the byte of the second one
(`Runs`). Each stage passes what does not fit a byte on through carry, so by induction the bytes and
the last carry write the sum of the numbers (`Runs.sum`). Only the last byte has a sign, and so the
last overflow tells whether the signed sum fits (`Runs.overflow`). Subtraction is addition of the
complement, after which carry compares the numbers (`Runs.carry_iff`). `carry_chain` says all of it,
and every two numbers have a chain (`exists_runs`).
-/

namespace Breadboard.Mos6502

variable {m m' n : Machine} {op : Operation} {ops : List Operation} {x y : List UInt8}
  {ns : List Machine} {f : UInt8 → UInt8}

/-! ## Numbers of many bytes -/

/-- The unsigned number that bytes write, least significant first. -/
def value (bytes : List UInt8) : Nat := Nat.ofDigits 256 (bytes.map (·.toNat))

/-- The signed number that bytes write in two's complement, least significant first. -/
def signedValue (bytes : List UInt8) : Int :=
  (value bytes : Int).bmod (Word.modulus bytes.length)

theorem value_cons (b : UInt8) (bytes : List UInt8) :
    value (b :: bytes) = b.toNat + 256 * value bytes := Nat.ofDigits_cons

theorem value_lt (bytes : List UInt8) : value bytes < Word.modulus bytes.length := by
  induction bytes with
  | nil => exact Nat.zero_lt_one
  | cons b bytes ih =>
    have hb := b.toNat_lt
    rw [value_cons, List.length_cons, Word.modulus_succ]
    omega

/-- A number and its complement make up all ones. -/
theorem value_complement (bytes : List UInt8) :
    value (bytes.map (~~~ ·)) + value bytes + 1 = Word.modulus bytes.length := by
  induction bytes with
  | nil => rfl
  | cons b bytes ih =>
    have hb := b.toNat_lt
    rw [List.map_cons, value_cons, value_cons, List.length_cons, Word.modulus_succ,
      UInt8.toNat_not, UInt8.size]
    omega

/-- Half of the numbers of at least one byte are negative. -/
theorem exists_half {k : Nat} (hk : 1 ≤ k) : ∃ half, Word.modulus k = 2 * half := by
  obtain ⟨k, rfl⟩ := Nat.exists_eq_add_of_le' hk
  refine ⟨Word.modulus k * 128, ?_⟩
  rw [Word.modulus_succ]
  omega

/-- The only number of a field that differs from `v` by a multiple of its size. -/
theorem bmod_eq_of_eq_add_mul {k : Nat} (hk : 1 ≤ k) {v w q : Int}
    (heq : v = w + Word.modulus k * q) (hlow : -(Word.modulus k : Int) ≤ 2 * w)
    (hhigh : 2 * w < Word.modulus k) : v.bmod (Word.modulus k) = w := by
  obtain ⟨half, hhalf⟩ := exists_half hk
  rw [heq, Int.add_mul_bmod_self_left]
  apply Int.bmod_eq_of_le
  · omega
  · omega

theorem signedValue_bounds {bytes : List UInt8} (h : bytes ≠ []) :
    -(Word.modulus bytes.length : Int) ≤ 2 * signedValue bytes ∧
      2 * signedValue bytes < Word.modulus bytes.length ∧
      ∃ q, (value bytes : Int) = signedValue bytes + Word.modulus bytes.length * q := by
  obtain ⟨half, hhalf⟩ := exists_half (List.length_pos_iff.2 h)
  have hpos := Word.modulus_pos bytes.length
  have hle := Int.le_bmod (x := value bytes) hpos
  have hlt := Int.bmod_lt (x := value bytes) hpos
  have hsplit := Int.bmod_eq_self_sub_bdiv_mul (value bytes) (Word.modulus bytes.length)
  rw [signedValue]
  refine ⟨by omega, by omega, Int.bdiv (value bytes) (Word.modulus bytes.length), ?_⟩
  rw [hsplit]
  ring

theorem signedValue_singleton (b : UInt8) : signedValue [b] = Word.signed b.toNat 1 := by
  have hempty : value [] = 0 := rfl
  rw [signedValue, value_cons, hempty, List.length_singleton, Word.signed, if_pos (by decide)]
  rfl

/-- A byte in front of others has no sign of its own. -/
theorem signedValue_cons (b : UInt8) {bytes : List UInt8} (h : bytes ≠ []) :
    signedValue (b :: bytes) = b.toNat + 256 * signedValue bytes := by
  have hb := b.toNat_lt
  obtain ⟨hlow, hhigh, q, hq⟩ := signedValue_bounds h
  obtain ⟨half, hhalf⟩ := exists_half (List.length_pos_iff.2 h)
  apply bmod_eq_of_eq_add_mul (k := bytes.length + 1) (q := q) (by omega)
  · rw [value_cons, Nat.cast_add, Nat.cast_mul, hq, Word.modulus_succ]
    push_cast
    ring
  · rw [Word.modulus_succ]
    omega
  · rw [Word.modulus_succ]
    omega

/-- The complement of a number is its negation less one. -/
theorem signedValue_complement {bytes : List UInt8} (h : bytes ≠ []) :
    signedValue (bytes.map (~~~ ·)) = -signedValue bytes - 1 := by
  obtain ⟨hlow, hhigh, q, hq⟩ := signedValue_bounds h
  obtain ⟨half, hhalf⟩ := exists_half (List.length_pos_iff.2 h)
  have hall := value_complement bytes
  rw [signedValue, List.length_map]
  apply bmod_eq_of_eq_add_mul (q := 1 - q) (List.length_pos_iff.2 h)
  · have hdistrib : (Word.modulus bytes.length : Int) * (1 - q) =
        Word.modulus bytes.length - Word.modulus bytes.length * q := by ring
    rw [hdistrib]
    omega
  · omega
  · omega

/-- Whether a number fits is told by what remains without its lowest byte. -/
theorem overflows_succ {k : Nat} (hk : 1 ≤ k) (b : UInt8) (v : Int) :
    Overflows (k + 1) (b.toNat + 256 * v) ↔ Overflows k v := by
  have hb := b.toNat_lt
  obtain ⟨half, hhalf⟩ := exists_half hk
  rw [Overflows, Overflows, Word.modulus_succ]
  omega

/-! ## Chains -/

/-- The machine after a step. -/
def next (m : Machine) : Machine := (architecture.step m).2

/-- From `m` on, each machine of `ns` takes two steps: it loads a byte of the first number and then
carries out an operation with the byte of the second number. Before these two steps anything may
happen that leaves carry as it was and leads to a register file that edits lead to. The last step
leads to `m'`. -/
inductive Runs : List Operation → Machine → List UInt8 → List UInt8 → List Machine → Machine → Prop
  | done (m : Machine) : Runs [] m [] [] [] m
  | stage {m m' n : Machine} {op : Operation} {ops : List Operation} {b c : UInt8}
    {x y : List UInt8} {ns : List Machine} (hcpu : Cpu.Mirrored registers indicators n.cpu)
    (hcarry : n.cpu.flag .carry = m.cpu.flag .carry) (hload : Offers (.load .a) b n)
    (hop : Offers op c (next n)) (hrest : Runs ops (next (next n)) x y ns m') :
    Runs (op :: ops) m (b :: x) (c :: y) (n :: ns) m'

/-- The bytes in the accumulator after the two steps of each machine. -/
def results (ns : List Machine) : List UInt8 := ns.map fun n => accumulator (next (next n))

/-- Both steps succeed, and after each of them the status register shows the indicators. -/
structure Proceeds (n : Machine) : Prop where
  load : Succeeds n
  operation : Succeeds (next n)
  loaded : Cpu.Mirrored registers indicators (next n).cpu
  done : Cpu.Mirrored registers indicators (next (next n)).cpu

theorem Runs.length_eq (h : Runs ops m x y ns m') :
    x.length = ops.length ∧ y.length = ops.length ∧ ns.length = ops.length := by
  induction h with
  | done m => exact ⟨rfl, rfl, rfl⟩
  | stage _ _ _ _ _ ih =>
    obtain ⟨hx, hy, hns⟩ := ih
    exact ⟨congrArg Nat.succ hx, congrArg Nat.succ hy, congrArg Nat.succ hns⟩

/-- The operation finds the byte that was loaded in the accumulator, and carry as it was. -/
theorem proceeds_of_offers {P : UInt8 → Bool → Machine → Prop} {b c : UInt8}
    (hcpu : Cpu.Mirrored registers indicators n.cpu) (hload : Offers (.load .a) b n)
    (hoffers : Offers op c (next n))
    (hop : ∀ {m : Machine}, m.cpu.tables = (registers, indicators) → Offers op c m →
      ∃ m', architecture.step m = (.ok m'.cpu.ended, m') ∧
        P (accumulator m) (m.cpu.flag .carry) m') :
    Proceeds n ∧ P b (n.cpu.flag .carry) (next (next n)) := by
  obtain ⟨m₁, hstep, hbyte, hcarry⟩ := hload.after_load hcpu.tables_eq
  obtain rfl : next n = m₁ := congrArg Prod.snd hstep
  have hloaded : Cpu.Mirrored registers indicators (next n).cpu :=
    kept_mirrored.step architecture hcpu
  obtain ⟨m₂, hstep', hP⟩ := hop hloaded.tables_eq hoffers
  obtain rfl : next (next n) = m₂ := congrArg Prod.snd hstep'
  rw [hbyte, hcarry] at hP
  exact ⟨⟨⟨_, by rw [hstep]⟩, ⟨_, by rw [hstep']⟩, hloaded,
    kept_mirrored.step architecture hloaded⟩, hP⟩

theorem Adds.proceeds {b c : UInt8} (hop : Adds op f)
    (hcpu : Cpu.Mirrored registers indicators n.cpu) (hload : Offers (.load .a) b n)
    (hoffers : Offers op c (next n)) :
    Proceeds n ∧ Added b (f c) (n.cpu.flag .carry) (next (next n)) :=
  proceeds_of_offers (P := fun b on m => Added b (f c) on m) hcpu hload hoffers hop

theorem proceeds_of_compare {b c : UInt8} (hcpu : Cpu.Mirrored registers indicators n.cpu)
    (hload : Offers (.load .a) b n) (hoffers : Offers (.compare .a) c (next n)) :
    Proceeds n ∧ (next (next n)).cpu.flag .carry = decide (c.toNat ≤ b.toNat) :=
  proceeds_of_offers (P := fun b _ m => m.cpu.flag .carry = decide (c.toNat ≤ b.toNat)) hcpu hload
    hoffers fun htables h => h.after_compare htables

section Adding

variable (hops : ∀ o ∈ ops, Adds o f)
include hops

theorem Runs.proceeds (h : Runs ops m x y ns m') :
    ∀ n ∈ ns, Proceeds n ∧ TellsAccumulator (next (next n)) := by
  induction h with
  | done m => simp
  | stage hcpu _ hload hop _ ih =>
    obtain ⟨hop', hrest⟩ := List.forall_mem_cons.1 hops
    obtain ⟨hproceeds, hadded⟩ := hop'.proceeds hcpu hload hop
    exact List.forall_mem_cons.2 ⟨⟨hproceeds, hadded.told⟩, ih hrest⟩

/-- The accumulators and the last carry write the sum of both numbers and the first carry. -/
theorem Runs.sum (h : Runs ops m x y ns m') :
    value (results ns) + (m'.cpu.flag .carry).toNat * Word.modulus ops.length =
      value x + value (y.map f) + (m.cpu.flag .carry).toNat := by
  induction h with
  | done m =>
    have hempty : value [] = 0 := rfl
    have hone : Word.modulus 0 = 1 := rfl
    show value [] + _ * Word.modulus 0 = value [] + value [] + _
    rw [hempty, hone]
    omega
  | @stage m m' n op ops b c x y ns hcpu hcarry hload hop _ ih =>
    obtain ⟨hop', hrest⟩ := List.forall_mem_cons.1 hops
    obtain ⟨-, hadded⟩ := hop'.proceeds hcpu hload hop
    have hlow := hadded.sum
    have hhigh := ih hrest
    rw [hcarry] at hlow
    have hscale : (m'.cpu.flag .carry).toNat * (Word.modulus ops.length * 256) =
        256 * ((m'.cpu.flag .carry).toNat * Word.modulus ops.length) := by ring
    show value (accumulator (next (next n)) :: results ns) + _ * Word.modulus (ops.length + 1) =
      value (b :: x) + value (f c :: y.map f) + _
    rw [value_cons, value_cons, value_cons, Word.modulus_succ, hscale]
    omega

/-- The last overflow tells whether the signed sum fits. -/
theorem Runs.overflow (h : Runs ops m x y ns m') (hne : ops ≠ []) :
    m'.cpu.flag .overflow = true ↔ Overflows ops.length
      (signedValue x + signedValue (y.map f) + (m.cpu.flag .carry).toNat) := by
  induction h with
  | done m => contradiction
  | @stage m m' n op ops b c x y ns hcpu hcarry hload hop hruns ih =>
    obtain ⟨hop', hrest⟩ := List.forall_mem_cons.1 hops
    obtain ⟨-, hadded⟩ := hop'.proceeds hcpu hload hop
    have hsum := hadded.sum
    have hoverflow := hadded.overflow
    rw [hcarry] at hsum hoverflow
    by_cases htail : ops = []
    · -- the only byte has the sign
      subst htail
      cases hruns with
      | done =>
        rw [List.map_singleton, signedValue_singleton, signedValue_singleton]
        exact hoverflow
    · -- the lowest byte has no sign, and its carry goes into the rest
      obtain ⟨hx, hy, -⟩ := hruns.length_eq
      have hpos := List.length_pos_iff.2 htail
      have hx' : x ≠ [] := List.length_pos_iff.1 (by omega)
      have hy' : y.map f ≠ [] := List.length_pos_iff.1 (by rw [List.length_map]; omega)
      have hsplit : signedValue (b :: x) + signedValue ((c :: y).map f) +
          (m.cpu.flag .carry).toNat =
            (accumulator (next (next n))).toNat + 256 * (signedValue x + signedValue (y.map f) +
              ((next (next n)).cpu.flag .carry).toNat) := by
        rw [List.map_cons, signedValue_cons b hx', signedValue_cons (f c) hy']
        omega
      rw [ih hrest htail, hsplit, List.length_cons, overflows_succ hpos]

end Adding

theorem adds_of_mem_replicate {k : Nat} (hop : Adds op f) :
    ∀ o ∈ List.replicate k op, Adds o f := by
  intro o ho
  rwa [List.eq_of_mem_replicate ho]

section Subtracting

variable {k : Nat} (h : Runs (List.replicate k .subtract) m x y ns m')
include h

/-- After a subtraction carry tells that nothing was borrowed. -/
theorem Runs.carry_iff :
    m'.cpu.flag .carry = true ↔ value y < value x + (m.cpu.flag .carry).toNat := by
  obtain ⟨-, hy, hns⟩ := h.length_eq
  have hsum := h.sum (adds_of_mem_replicate adds_subtract)
  have hlt := value_lt (results ns)
  have hcomplement := value_complement y
  rw [results, List.length_map, hns, ← results] at hlt
  rw [hy] at hcomplement
  cases hcarry : m'.cpu.flag .carry with
  | false =>
    rw [hcarry, Bool.toNat_false, Nat.zero_mul] at hsum
    simp only [Bool.false_eq_true, false_iff]
    omega
  | true =>
    rw [hcarry, Bool.toNat_true, Nat.one_mul] at hsum
    simp only [true_iff]
    omega

/-- The accumulators write the difference, and what was borrowed beyond them. -/
theorem Runs.difference :
    (value (results ns) : Int) = value x - value y - (1 - (m.cpu.flag .carry).toNat) +
      (1 - (m'.cpu.flag .carry).toNat) * Word.modulus k := by
  obtain ⟨-, hy, -⟩ := h.length_eq
  have hsum := h.sum (adds_of_mem_replicate adds_subtract)
  have hcomplement := value_complement y
  rw [List.length_replicate] at hsum hy
  rw [hy] at hcomplement
  have hscale : (1 - ((m'.cpu.flag .carry).toNat : Int)) * Word.modulus k =
      Word.modulus k - ((m'.cpu.flag .carry).toNat * Word.modulus k : Nat) := by
    push_cast
    ring
  rw [hscale]
  omega

theorem Runs.difference_overflow (hk : 1 ≤ k) :
    m'.cpu.flag .overflow = true ↔
      Overflows k (signedValue x - signedValue y - (1 - (m.cpu.flag .carry).toNat)) := by
  obtain ⟨-, hy, -⟩ := h.length_eq
  have hne : List.replicate k Operation.subtract ≠ [] :=
    List.length_pos_iff.1 (by rwa [List.length_replicate])
  have hy' : y ≠ [] := List.length_pos_iff.1 (by rwa [hy, List.length_replicate])
  have hoverflow := h.overflow (adds_of_mem_replicate adds_subtract) hne
  have hdifference : signedValue x - signedValue y - (1 - ((m.cpu.flag .carry).toNat : Int)) =
      signedValue x + (-signedValue y - 1) + (m.cpu.flag .carry).toNat := by ring
  rwa [List.length_replicate, signedValue_complement hy', ← hdifference] at hoverflow

end Subtracting

/-- Comparing the lowest bytes and subtracting the others compares the numbers. -/
theorem Runs.compare {k : Nat}
    (h : Runs (.compare .a :: List.replicate k .subtract) m x y ns m') :
    (∀ n ∈ ns, Proceeds n) ∧ (m'.cpu.flag .carry = true ↔ value y ≤ value x) := by
  cases h with
  | @stage _ _ n _ _ b d x y ns hcpu _ hload hop hruns =>
    obtain ⟨hproceeds, hfirst⟩ := proceeds_of_compare hcpu hload hop
    have hrest := hruns.proceeds (adds_of_mem_replicate adds_subtract)
    refine ⟨List.forall_mem_cons.2 ⟨hproceeds, fun n hn => (hrest n hn).1⟩, ?_⟩
    have hb := b.toNat_lt
    have hd := d.toNat_lt
    rw [hruns.carry_iff, hfirst, value_cons, value_cons]
    by_cases hle : d.toNat ≤ b.toNat
    · simp only [hle, decide_true, Bool.toNat_true]
      omega
    · simp only [hle, decide_false, Bool.toNat_false]
      omega

/-- Take two numbers of `k` bytes, the least significant byte first, and a chain of stages that load
the bytes of the first number one after another and combine each with the byte of the second one,
where the first stage finds the carry `c`.

If the stages add, then both steps of each succeed, the indicators tell of the byte in the
accumulator and the status register shows them; these bytes and the last carry write the sum of both
numbers and `c`, and the last overflow tells whether the sum of the signed numbers does not fit.

If they subtract, then it is the same with the difference of both numbers, less one unless `c` is
set, and the last carry tells that nothing was borrowed.

If the first stage compares, the others subtract and `c` is set, then the last carry tells that the
second number is not greater, as it does after subtracting in all stages. -/
theorem carry_chain {k : Nat} (hk : 1 ≤ k) {m : Machine} {x y : List UInt8} :
    let c := (m.cpu.flag .carry).toNat
    (∀ {ns : List Machine} {m' : Machine}, Runs (List.replicate k .add) m x y ns m' →
      (∀ n ∈ ns, Proceeds n ∧ TellsAccumulator (next (next n))) ∧
      value (results ns) + (m'.cpu.flag .carry).toNat * Word.modulus k = value x + value y + c ∧
      (m'.cpu.flag .overflow = true ↔ Overflows k (signedValue x + signedValue y + c))) ∧
    (∀ {ns : List Machine} {m' : Machine}, Runs (List.replicate k .subtract) m x y ns m' →
      (∀ n ∈ ns, Proceeds n ∧ TellsAccumulator (next (next n))) ∧
      (value (results ns) : Int) = value x - value y - (1 - c) +
        (1 - (m'.cpu.flag .carry).toNat) * Word.modulus k ∧
      (m'.cpu.flag .overflow = true ↔
        Overflows k (signedValue x - signedValue y - (1 - c)))) ∧
    (m.cpu.flag .carry = true → ∀ {ns : List Machine} {m' : Machine},
      Runs (.compare .a :: List.replicate (k - 1) .subtract) m x y ns m' →
        (∀ n ∈ ns, Proceeds n) ∧
        (m'.cpu.flag .carry = true ↔ value y ≤ value x) ∧
        ∀ {ns₁ : List Machine} {m₁ : Machine},
          Runs (List.replicate k .subtract) m x y ns₁ m₁ →
            m₁.cpu.flag .carry = m'.cpu.flag .carry) := by
  intro c
  refine ⟨?_, ?_, ?_⟩
  · intro ns m' h
    have hops := adds_of_mem_replicate (k := k) adds_add
    have hne : List.replicate k Operation.add ≠ [] :=
      List.length_pos_iff.1 (by rwa [List.length_replicate])
    have hsum := h.sum hops
    have hoverflow := h.overflow hops hne
    rw [List.map_id, List.length_replicate] at hsum hoverflow
    exact ⟨h.proceeds hops, hsum, hoverflow⟩
  · intro ns m' h
    exact ⟨h.proceeds (adds_of_mem_replicate adds_subtract), h.difference,
      h.difference_overflow hk⟩
  · intro hcarry ns m' h
    obtain ⟨hproceeds, hcompare⟩ := h.compare
    refine ⟨hproceeds, hcompare, ?_⟩
    intro ns₁ m₁ h₁
    rw [Bool.eq_iff_iff, hcompare, h₁.carry_iff, hcarry, Bool.toNat_true, Nat.lt_succ_iff]

/-! ## Chains of immediate operands -/

/-- Every opcode is a byte. -/
theorem opcode_eq_toNat : ∀ e ∈ opcodes, e.opcode = (UInt8.ofNat e.opcode.toNat).toNat := by
  decide +kernel

/-- An instruction at an address offers the byte behind its opcode. -/
theorem offers_of_cells {e : Entry} (he : e ∈ opcodes) (ha : e.addressing = .immediate)
    {address : Nat} (hpc : architecture.pcOf m = address) (hsize : m.memory.size = 65536)
    (hroom : address + 1 < 65536) {code b : UInt8} (hopcode : e.opcode = code.toNat)
    (hcode : m.memory.cell address = code) (hb : m.memory.cell (address + 1) = b) :
    e.At m ∧ behindOpcode m = (address + 1 : Nat) ∧ m.memory.Contains (behindOpcode m) 1 ∧
      Offers e.operation b m := by
  have hat : e.At m := at_of_cell hpc he (by omega) (by rw [hcode, hopcode])
  have hbehind : behindOpcode m = (address + 1 : Nat) := by
    rw [behindOpcode_of_pcOf hpc]
    omega
  have hin : m.memory.Contains (behindOpcode m) 1 := by
    rw [hbehind]
    exact ⟨by omega, by omega⟩
  have hoffers := offers_immediate hat ha hin
  rw [hbehind, Int.toNat_natCast, hb] at hoffers
  exact ⟨hat, hbehind, hin, hoffers⟩

/-- A load of the byte behind the opcode leaves memory alone and goes past both. -/
theorem next_load {e : Entry} (htables : m.cpu.tables = (registers, indicators)) (hat : e.At m)
    (hop : e.operation = .load .a) (ha : e.addressing = .immediate)
    (hin : m.memory.Contains (behindOpcode m) 1) :
    (next m).memory = m.memory ∧
      architecture.pcOf (next m) = Word.unsigned (behindOpcode m + 1) 2 := by
  obtain ⟨opcode, mnemonic, addressing, op⟩ := e
  obtain rfl : op = .load .a := hop
  obtain rfl : addressing = .immediate := ha
  obtain ⟨opened, hmoved, hpc, hstep⟩ := step_eq_ok_of_run htables hat hin
  obtain ⟨v, hrun⟩ : ∃ v, (Entry.behaviour ⟨opcode, mnemonic, .immediate, .load .a⟩
      (Entry.operandAt ⟨opcode, mnemonic, .immediate, .load .a⟩ m)).run opened =
        (.ok (), opened.edit (.register Reg.a.position v)) := ⟨_, rfl⟩
  have hloaded : next m = opened.edit (.register Reg.a.position v) :=
    congrArg Prod.snd (hstep _ hrun)
  have hkept : architecture.pcOf (opened.edit (.register Reg.a.position v)) =
      architecture.pcOf opened :=
    register_edit (hmoved.tables.trans htables) rfl (by decide) (show Reg.a.position ≠ pc by decide)
  rw [hloaded]
  exact ⟨hmoved.memory, hkept.trans hpc⟩

/-- Every two numbers have a chain of operations on the byte behind the opcode. -/
theorem exists_runs (hops : ∀ op ∈ ops, ∃ e ∈ opcodes, e.operation = op ∧ e.addressing = .immediate)
    (hcpu : Cpu.Mirrored registers indicators m.cpu) (hsize : m.memory.size = 65536)
    (hx : x.length = ops.length) (hy : y.length = ops.length) :
    ∃ ns m', Runs ops m x y ns m' := by
  induction ops generalizing m x y with
  | nil =>
    obtain rfl := List.length_eq_zero_iff.1 hx
    obtain rfl := List.length_eq_zero_iff.1 hy
    exact ⟨[], m, .done m⟩
  | cons op ops ih =>
    obtain ⟨⟨e, he, hop, himmediate⟩, hrest⟩ := List.forall_mem_cons.1 hops
    obtain ⟨b, x, rfl⟩ := List.exists_cons_of_length_eq_add_one hx
    obtain ⟨c, y, rfl⟩ := List.exists_cons_of_length_eq_add_one hy
    -- the stage stands at the beginning of memory
    let n := placed m 0 [0xA9, b, UInt8.ofNat e.opcode.toNat, c]
    have hn : Cpu.Mirrored registers indicators n.cpu :=
      hcpu.edit Cpu.statusLayout_mos6502 (.register pc 0)
    have hcarry : n.cpu.flag .carry = m.cpu.flag .carry :=
      (counterMoved_setPc hcpu.tables_eq 0).flag_eq .carry
    have hsize' : n.memory.size = 65536 := (Memory.size_overlay _ _ _).trans hsize
    have hcell {k : Nat} (hk : k < 4) :
        n.memory.cell (0 + k) = [0xA9, b, UInt8.ofNat e.opcode.toNat, c][k] :=
      cell_placed hsize (by simp) hk
    have hpc : architecture.pcOf n = (0 : Nat) := pcOf_placed hcpu.tables_eq (by decide) _
    obtain ⟨hat, hbehind, hin, hload⟩ := offers_of_cells (e := ⟨0xA9, "LDA", .immediate, .load .a⟩)
      (by decide) rfl hpc hsize' (by decide) rfl (hcell (k := 0) (by decide))
      (hcell (k := 1) (by decide))
    obtain ⟨hmemory, hpc'⟩ := next_load hn.tables_eq hat rfl rfl hin
    rw [hbehind] at hpc'
    rw [← hmemory] at hsize' hcell
    obtain ⟨-, -, -, hoffers⟩ := offers_of_cells he himmediate hpc' hsize' (by decide)
      (opcode_eq_toNat e he) (hcell (k := 2) (by decide)) (hcell (k := 3) (by decide))
    have hnext : Cpu.Mirrored registers indicators (next n).cpu :=
      kept_mirrored.step architecture hn
    obtain ⟨ns, m', hruns⟩ := ih hrest (m := next (next n))
      (kept_mirrored.step architecture hnext)
      (((Machine.kept_tables_size _ _).step architecture ⟨rfl, hsize'⟩).2)
      (Nat.succ.inj hx) (Nat.succ.inj hy)
    subst hop
    exact ⟨_, m', .stage hn hcarry hload hoffers hruns⟩

/-- Adding 1 to the greatest signed number of two bytes gives the least one, and comparing finds
that 0x0301 is less than 0x0302. -/
theorem carry_chain_two_bytes :
    let adding : Machine := { cpu := architecture.freshCpu, memory := .zeroed 65536 }
    let comparing := adding.edit (.flag .carry true)
    (∃ ns m', Runs [.add, .add] adding [0xFF, 0x7F] [0x01, 0x00] ns m' ∧
      value (results ns) + (m'.cpu.flag .carry).toNat * 65536 = 0x8000 ∧
      m'.cpu.flag .overflow = true) ∧
    ∃ ns m', Runs [.compare .a, .subtract] comparing [0x01, 0x03] [0x02, 0x03] ns m' ∧
      m'.cpu.flag .carry = false := by
  intro adding comparing
  have hfresh : Cpu.Mirrored registers indicators adding.cpu := Cpu.Mirrored.fresh
  have hset : Cpu.Mirrored registers indicators comparing.cpu :=
    hfresh.edit Cpu.statusLayout_mos6502 (.flag .carry true)
  have hsize : adding.memory.size = 65536 := Memory.size_zeroed 65536
  constructor
  · obtain ⟨ns, m', hruns⟩ : ∃ ns m', Runs [.add, .add] adding [0xFF, 0x7F] [0x01, 0x00] ns m' :=
      exists_runs (by decide) hfresh hsize rfl rfl
    obtain ⟨-, hsum, hoverflow⟩ := (carry_chain (k := 2) (by decide)).1 hruns
    exact ⟨ns, m', hruns, hsum, hoverflow.2 (by decide)⟩
  · obtain ⟨ns, m', hruns⟩ : ∃ ns m',
        Runs [.compare .a, .subtract] comparing [0x01, 0x03] [0x02, 0x03] ns m' :=
      exists_runs (by decide +kernel) hset hsize rfl rfl
    obtain ⟨-, hcarry, -⟩ := (carry_chain (k := 2) (by decide)).2.2 (by decide) hruns
    have hless : ¬ value [0x02, 0x03] ≤ value [0x01, 0x03] := by decide
    exact ⟨ns, m', hruns, Bool.eq_false_iff.2 (mt hcarry.1 hless)⟩

end Breadboard.Mos6502
