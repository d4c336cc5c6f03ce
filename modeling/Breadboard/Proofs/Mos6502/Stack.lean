import Breadboard.Mos6502
import Breadboard.Processor
import Breadboard.Proofs.Cpu
import Breadboard.Proofs.Memory

/-!
# The stack of the 6502

The stack pointer is a register of two bytes. A push writes where the pointer points and counts
down; a pull counts up and reads. As long as the pointer does not pass zero, values come back in
reverse order and the pointer returns to where it was (`HasStack.after_pushAll_pullMany`). A push at
zero makes the pointer wrap around to the last cell. The pull that would undo it does not wrap
around: it reads one past the last cell, where there is none (`HasStack.after_pull_of_last`). So
more pushes than the pointer has room for are not undone by as many pulls
(`run_pullMany_of_pushAll`).
-/

namespace Breadboard.Mos6502

/-! ## Sequences of pushes and pulls -/

/-- Pushes values in order. -/
def pushAll : List Int → Action Unit
  | [] => pure ()
  | v :: vs => do
    push v
    pushAll vs

/-- Pulls `n` values; the first one pulled comes first. -/
def pullMany : Nat → Action (List Int)
  | 0 => pure []
  | n + 1 => do
    let v ← pull
    let vs ← pullMany n
    return v :: vs

/-- A machine with the registers of the 6502 and all the memory that it can address, whose stack
pointer is `t` up to multiples of the size of memory. -/
structure HasStack (t : Int) (m : Machine) : Prop where
  tables_eq : m.cpu.tables = (registers, indicators)
  size_eq : m.memory.size = 65536
  pointer : m.cpu.register sp = Word.unsigned t 2

variable {m : Machine} {t : Int}

theorem unsigned_natCast {s : Nat} (hs : s < 65536) : Word.unsigned (s : Int) 2 = s := by
  have hmodulus : Word.modulus 2 = 65536 := rfl
  exact Word.unsigned_of_lt (by omega) (by omega)

theorem HasStack.register_sp {s : Nat} (h : HasStack s m) (hs : s < 65536) :
    m.cpu.register sp = s := by
  rw [h.pointer, unsigned_natCast hs]

/-! ## Single pushes and pulls -/

/-- The stack pointer holds the low two bytes of what was written to it. -/
theorem register_sp_setRegister {cpu : Cpu} (h : cpu.tables = (registers, indicators)) (v : Int) :
    (cpu.setRegister sp v).cpu.register sp = Word.unsigned v 2 := by
  have hregs : cpu.registers.map (·.toRegister) = registers := congrArg Prod.fst h
  have hdesc := congrArg (·[sp]?) hregs
  rw [List.getElem?_map] at hdesc
  obtain ⟨⟨_, value⟩, hr, rfl⟩ := Option.map_eq_some_iff.1 hdesc
  have hstatus : RegisterKind.stackPointer ≠ .status := by decide
  have hwritten := Cpu.getElem?_registers_setRegister hr hstatus v
  rw [Cpu.register, hwritten]
  rfl

/-- Writing the stack pointer moves it and leaves memory alone. -/
theorem HasStack.move (h : HasStack t m) (t' : Int) : HasStack t' (m.edit (.register sp t')) := by
  refine ⟨?_, h.size_eq, register_sp_setRegister h.tables_eq t'⟩
  rw [← h.tables_eq]
  exact Cpu.tables_setRegister m.cpu sp t'

theorem HasStack.congr {t' : Int} (h : HasStack t m) (ht : Word.unsigned t 2 = Word.unsigned t' 2) :
    HasStack t' m := ⟨h.tables_eq, h.size_eq, by rw [h.pointer, ht]⟩

theorem push_eq (v : Int) :
    push v = .register sp fun top =>
      .store top 1 v (.edit (.register sp (top - 1)) (.done ())) := rfl

theorem run_push (m : Machine) (v : Int) :
    (push v).run m =
      match m.write (m.cpu.register sp) 1 v with
      | (.error e, m') => (.error (.memory e), m')
      | (.ok (), m') => (.ok (), m'.edit (.register sp (m.cpu.register sp - 1))) := by
  rw [push_eq, Action.run, Action.run]
  rcases m.write (m.cpu.register sp) 1 v with ⟨e | u, m'⟩
  · rfl
  · rfl

theorem pull_eq :
    pull = .register sp fun top => .edit (.register sp (top + 1)) (.load (top + 1) 1 .done) := rfl

theorem run_pull (m : Machine) :
    pull.run m =
      match m.memory.readUnsigned (m.cpu.register sp + 1) 1 with
      | .error e => (.error (.memory e), m.edit (.register sp (m.cpu.register sp + 1)))
      | .ok v => (.ok v, m.edit (.register sp (m.cpu.register sp + 1))) := by
  have hmemory : (m.edit (.register sp (m.cpu.register sp + 1))).memory = m.memory := rfl
  rw [pull_eq, Action.run, Action.run, Action.run, hmemory]
  cases m.memory.readUnsigned (m.cpu.register sp + 1) 1 with
  | error e => rfl
  | ok v => rfl

/-- A push always succeeds: the pointer is the address of a cell. -/
theorem HasStack.after_push (h : HasStack t m) (v : Int) :
    ∃ m', (push v).run m = (.ok (), m') ∧ HasStack (t - 1) m' ∧
      m'.memory = m.memory.overlay (Word.unsigned t 2).toNat (Word.toBytes v 1) := by
  have hlow : 0 ≤ Word.unsigned t 2 := Int.emod_nonneg t (by decide)
  have hhigh : Word.unsigned t 2 < 65536 := Int.emod_lt_of_pos t (by decide)
  have hloc : m.memory.locate (Word.unsigned t 2) 1 = .ok (Word.unsigned t 2).toNat := by
    rw [Memory.locate_eq_ok_iff, h.size_eq]
    omega
  have hstored : HasStack t (m.store (Word.unsigned t 2).toNat (Word.toBytes v 1)) := by
    refine ⟨h.tables_eq, ?_, h.pointer⟩
    rw [Machine.memory_store, Memory.size_overlay, h.size_eq]
  refine ⟨_, ?_, (hstored.move (Word.unsigned t 2 - 1)).congr ?_, rfl⟩
  · rw [run_push, Machine.write, h.pointer, hloc]
  · rw [Int.sub_eq_add_neg, Word.unsigned_unsigned_add, Int.sub_eq_add_neg]

/-- Above the first cell, a push puts the value into the cell at the pointer and nowhere else. -/
theorem HasStack.after_push_succ {s : Nat} (h : HasStack (s + 1 : Nat) m) (hs : s < 65535)
    (v : Int) : ∃ m', (push v).run m = (.ok (), m') ∧ HasStack s m' ∧
      m'.memory.slice (s + 1) 1 = Word.toBytes v 1 ∧
      ∀ i, i ≠ s + 1 → m'.memory.cell i = m.memory.cell i := by
  obtain ⟨m', hrun, hpushed, hmem⟩ := h.after_push v
  rw [unsigned_natCast (by omega), Int.toNat_natCast] at hmem
  refine ⟨m', hrun, by simpa using hpushed, ?_, ?_⟩
  · have hroom : s + 1 + (Word.toBytes v 1).length ≤ m.memory.size := by
      rw [Word.length_toBytes, h.size_eq]
      omega
    have hself := Memory.slice_overlay_self m.memory hroom
    rwa [Word.length_toBytes, ← hmem] at hself
  · intro i hi
    rw [hmem]
    apply Memory.cell_overlay_of_outside
    rw [Word.length_toBytes]
    omega

/-- A pull reads the cell above the pointer, if there is one. -/
theorem HasStack.after_pull {s : Nat} (h : HasStack s m) (hs : s < 65535) :
    ∃ m', pull.run m = (.ok (Word.ofBytes (m.memory.slice (s + 1) 1)), m') ∧
      HasStack (s + 1 : Nat) m' ∧ m'.memory = m.memory := by
  have hloc : m.memory.locate ((s + 1 : Nat) : Int) 1 = .ok (s + 1) := by
    rw [Memory.locate_eq_ok_iff, h.size_eq]
    omega
  refine ⟨_, ?_, h.move (s + 1 : Nat), rfl⟩
  rw [run_pull, h.register_sp (by omega), ← Int.natCast_succ, Memory.readUnsigned, Memory.dump,
    hloc]
  rfl

/-- Above the last cell there is none, and a pull fails there. -/
theorem HasStack.after_pull_of_last (h : HasStack (65535 : Nat) m) :
    ∃ m', pull.run m = (.error (.memory ⟨65536, 1, .pastEnd⟩), m') ∧ HasStack (0 : Nat) m' := by
  have hloc : m.memory.locate 65536 1 = .error ⟨65536, 1, .pastEnd⟩ := by
    simp [Memory.locate, h.size_eq]
  refine ⟨_, ?_, (h.move 65536).congr (by decide)⟩
  rw [run_pull, h.register_sp (by omega)]
  show (match m.memory.readUnsigned 65536 1 with | .error e => _ | .ok v => _) = _
  rw [Memory.readUnsigned, Memory.dump, hloc]
  rfl

/-! ## Many pushes and pulls -/

theorem run_pushAll_cons {m' : Machine} {v : Int} (vs : List Int)
    (h : (push v).run m = (.ok (), m')) : (pushAll (v :: vs)).run m = (pushAll vs).run m' := by
  rw [pushAll]
  show ((push v).bind fun _ => pushAll vs).run m = _
  rw [Action.run_bind, h]

/-- Values can always be pushed, and the pointer counts them down. -/
theorem HasStack.after_pushAll (h : HasStack t m) (vs : List Int) :
    ∃ m', (pushAll vs).run m = (.ok (), m') ∧ HasStack (t - vs.length) m' := by
  induction vs generalizing t m with
  | nil => exact ⟨m, rfl, by simpa using h⟩
  | cons v vs ih =>
    obtain ⟨m₁, hrun, hpushed, -⟩ := h.after_push v
    obtain ⟨m', hrest, hall⟩ := ih hpushed
    refine ⟨m', by rw [run_pushAll_cons vs hrun, hrest], hall.congr ?_⟩
    rw [List.length_cons, Nat.cast_succ, Int.sub_sub, Int.add_comm 1]

theorem run_pullMany_succ (n : Nat) (m : Machine) :
    (pullMany (n + 1)).run m =
      match pull.run m with
      | (.ok v, m₁) =>
        match (pullMany n).run m₁ with
        | (.ok vs, m₂) => (.ok (v :: vs), m₂)
        | (.error e, m₂) => (.error e, m₂)
      | (.error e, m₁) => (.error e, m₁) := by
  rw [pullMany]
  show (pull.bind fun v => (pullMany n).bind fun vs => .done (v :: vs)).run m = _
  rw [Action.run_bind]
  rcases pull.run m with ⟨e | v, m₁⟩
  · rfl
  · dsimp only
    rw [Action.run_bind]
    rcases (pullMany n).run m₁ with ⟨e | vs, m₂⟩
    · rfl
    · rfl

/-- One more value can be pulled after all others. -/
theorem run_pullMany_concat {n : Nat} {m₁ m₂ : Machine} {vs : List Int} {v : Int}
    (hmany : (pullMany n).run m = (.ok vs, m₁)) (hone : pull.run m₁ = (.ok v, m₂)) :
    (pullMany (n + 1)).run m = (.ok (vs ++ [v]), m₂) := by
  induction n generalizing m vs with
  | zero =>
    obtain ⟨hvs, rfl⟩ : Except.ok [] = Except.ok vs ∧ m = m₁ := Prod.mk.inj hmany
    obtain rfl := Except.ok.inj hvs
    rw [run_pullMany_succ, hone]
    rfl
  | succ n ih =>
    rw [run_pullMany_succ] at hmany ⊢
    cases hfirst : pull.run m with
    | mk result m' =>
      rw [hfirst] at hmany
      cases result with
      | error e => simp at hmany
      | ok x =>
        cases hrest : (pullMany n).run m' with
        | mk result m'' =>
          simp only [hrest] at hmany
          cases result with
          | error e => simp at hmany
          | ok xs =>
            obtain ⟨hvs, rfl⟩ := Prod.mk.inj hmany
            obtain rfl := Except.ok.inj hvs
            simp only [ih hrest, List.cons_append]

/-- As many pulls as there were pushes give the values back in reverse order, unless the pointer
passed zero. Cells above the first one that was written are left alone. -/
theorem HasStack.after_pushAll_pullMany {s : Nat} (h : HasStack s m) (hs : s < 65536)
    {vs : List Int} (hroom : vs.length ≤ s) :
    ∃ m₁ m₂, (pushAll vs).run m = (.ok (), m₁) ∧
      (pullMany vs.length).run m₁ = (.ok (vs.reverse.map (Word.unsigned · 1)), m₂) ∧
      HasStack s m₂ ∧ ∀ i, s < i → m₂.memory.cell i = m.memory.cell i := by
  induction vs generalizing s m with
  | nil => exact ⟨m, m, rfl, rfl, h, fun _ _ => rfl⟩
  | cons v vs ih =>
    obtain ⟨below, rfl⟩ : ∃ below, s = below + 1 :=
      Nat.exists_eq_succ_of_ne_zero (by rw [List.length_cons] at hroom; omega)
    -- the first value is written on top, the others below it, and it is pulled last
    obtain ⟨m₀, hpush, hbelow, hwritten, hothers⟩ := h.after_push_succ (by omega) v
    obtain ⟨m₁, m₂, hall, hback, hstack, hkept⟩ :=
      ih hbelow (by omega) (by rw [List.length_cons] at hroom; omega)
    obtain ⟨m₃, hpull, hpulled, hmem'⟩ := hstack.after_pull (by omega)
    have hvalue : Word.ofBytes (m₂.memory.slice (below + 1) 1) = Word.unsigned v 1 := by
      have hslice : m₂.memory.slice (below + 1) 1 = m₀.memory.slice (below + 1) 1 :=
        Memory.slice_congr fun k _ => hkept _ (by omega)
      rw [hslice, hwritten, Word.ofBytes_toBytes v (by decide)]
    refine ⟨m₁, m₃, ?_, ?_, hpulled, ?_⟩
    · rw [run_pushAll_cons vs hpush, hall]
    · rw [List.length_cons, List.reverse_cons, List.map_append, run_pullMany_concat hback hpull,
        hvalue]
      rfl
    · intro i hi
      rw [hmem', hkept i (by omega), hothers i (by omega)]

/-- Pulls fail when they come to the last cell. -/
theorem HasStack.after_pullMany_of_last {s n : Nat} (h : HasStack s m) (hs : s < 65536)
    (hn : 65536 ≤ s + n) :
    ∃ m', (pullMany n).run m = (.error (.memory ⟨65536, 1, .pastEnd⟩), m') ∧
      HasStack (0 : Nat) m' := by
  induction n generalizing s m with
  | zero => omega
  | succ n ih =>
    rw [run_pullMany_succ]
    rcases Nat.lt_or_ge s 65535 with hbelow | hlast
    · obtain ⟨m₁, hrun, hpulled, -⟩ := h.after_pull hbelow
      obtain ⟨m', hrest, hzero⟩ := ih hpulled (by omega) (by omega)
      exact ⟨m', by simp only [hrun, hrest], hzero⟩
    · obtain rfl : s = 65535 := by omega
      obtain ⟨m', hrun, hzero⟩ := h.after_pull_of_last
      exact ⟨m', by rw [hrun], hzero⟩

/-- On a machine with the registers of the 6502 and 64 KiB of memory, up to 65536 values can always
be pushed. If there are not more of them than the stack pointer says, as many pulls give back their
low bytes in reverse order, and the pointer is where it was. If there are more, the pointer wraps
around to the last cell while they are pushed, and the pulls fail when they come to that cell. -/
theorem run_pullMany_of_pushAll {m : Machine} (htables : m.cpu.tables = (registers, indicators))
    (hsize : m.memory.size = 65536) {s : Nat} (hpointer : m.cpu.register sp = s) (hs : s < 65536)
    {vs : List Int} (hvs : vs.length ≤ 65536) :
    ∃ m₁, (pushAll vs).run m = (.ok (), m₁) ∧
      (vs.length ≤ s →
        ∃ m₂, (pullMany vs.length).run m₁ = (.ok (vs.reverse.map (Word.unsigned · 1)), m₂) ∧
          m₂.cpu.register sp = s) ∧
      (s < vs.length →
        ∃ m₂, (pullMany vs.length).run m₁ = (.error (.memory ⟨65536, 1, .pastEnd⟩), m₂) ∧
          m₂.cpu.register sp = 0) := by
  have h : HasStack s m := ⟨htables, hsize, by rw [hpointer, unsigned_natCast hs]⟩
  obtain ⟨m₁, hrun, hpushed⟩ := h.after_pushAll vs
  refine ⟨m₁, hrun, ?_, ?_⟩
  · intro hroom
    obtain ⟨m₁', m₂, hrun', hback, hstack, -⟩ := h.after_pushAll_pullMany hs hroom
    obtain rfl : m₁ = m₁' := by simpa [hrun] using hrun'
    exact ⟨m₂, hback, hstack.register_sp hs⟩
  · intro hmany
    -- the pointer wrapped around, so fewer cells are left above it than there are values
    have hwrapped : HasStack (65536 + s - vs.length : Nat) m₁ := by
      apply hpushed.congr
      have hsum : ((65536 + s - vs.length : Nat) : Int) = (s - vs.length) + 65536 := by omega
      rw [hsum]
      exact (Int.add_emod_right _ 65536).symm
    obtain ⟨m₂, hback, hzero⟩ :=
      hwrapped.after_pullMany_of_last (n := vs.length) (by omega) (by omega)
    exact ⟨m₂, hback, hzero.register_sp (by decide)⟩

/-- After a reset the pointer has room for two values. -/
theorem run_pullMany_of_pushAll_reset :
    let m := architecture.reset { cpu := architecture.freshCpu, memory := .zeroed 65536 }
    ∃ m₁ m₂, (pushAll [7, 300]).run m = (.ok (), m₁) ∧
      (pullMany 2).run m₁ = (.ok [44, 7], m₂) ∧ m₂.cpu.register sp = 511 := by
  intro m
  have hlength : ([7, 300] : List Int).length ≤ 65536 := by decide
  obtain ⟨m₁, hpush, hpull, -⟩ := run_pullMany_of_pushAll (m := m) (s := 511) (by decide)
    (Memory.size_zeroed 65536) (by decide) (by decide) hlength
  obtain ⟨m₂, hback, hpointer⟩ := hpull (by decide)
  exact ⟨m₁, m₂, hpush, hback, hpointer⟩

/-- With the pointer at zero a single value cannot be pulled back. -/
theorem run_pullMany_of_pushAll_zero :
    let m : Machine := { cpu := architecture.freshCpu, memory := .zeroed 65536 }
    m.cpu.register sp = 0 ∧ ∃ m₁ m₂, (pushAll [7]).run m = (.ok (), m₁) ∧
      (pullMany 1).run m₁ = (.error (.memory ⟨65536, 1, .pastEnd⟩), m₂) := by
  intro m
  have h : HasStack (0 : Nat) m := ⟨by decide, Memory.size_zeroed 65536, by decide⟩
  obtain ⟨m₁, hpush, hpushed⟩ := h.after_pushAll [7]
  have hlast : HasStack (65535 : Nat) m₁ := hpushed.congr (by decide)
  obtain ⟨m₂, hpull, -⟩ := hlast.after_pullMany_of_last (n := 1) (by decide) (by decide)
  exact ⟨h.register_sp (by decide), m₁, m₂, hpush, hpull⟩

end Breadboard.Mos6502
