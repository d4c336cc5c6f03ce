import Breadboard.Proofs.Cpu.Flags
import Breadboard.Proofs.Cpu.StatusMirror
import Breadboard.Proofs.Mos6502.Step

/-!
# One byte through carry

The instructions that compute with carry take a byte from their operand (`Offers`), whatever the way
of addressing. Adding gives the sum of the accumulator, the byte and carry as a byte and a new
carry, and overflow tells whether the signed sum fits a byte (`Added`). Subtracting is adding the
complement of the byte (`adds_subtract`), and comparing sets carry as subtracting with carry set
does (`after_compare`). A load leaves carry alone (`after_load`).
-/

namespace Breadboard.Mos6502

open Breadboard.Action

variable {m m' : Machine} {cpu : Cpu} {op : Operation} {x y : UInt8}

/-! ## Registers and indicators -/

section Edits

variable (h : m.cpu.tables = (registers, indicators))
include h

theorem tables_edit (change : Cpu.Edit) : (m.edit change).cpu.tables = (registers, indicators) :=
  (Cpu.tables_edit m.cpu change).trans h

/-- There is an indicator of every kind. -/
theorem hasKind (kind : IndicatorKind) : m.cpu.HasKind kind := by
  rw [Cpu.HasKind, h]
  cases kind <;> decide

theorem flag_edit_flag (kind kind' : IndicatorKind) (on : Bool) :
    (m.edit (.flag kind on)).cpu.flag kind' = if kind' = kind then on else m.cpu.flag kind' := by
  split
  next heq =>
    subst heq
    exact Cpu.flag_setFlag_self (hasKind h kind') on
  next hne => exact Cpu.flag_setFlag_of_ne hne on

/-- Writing the accumulator stores a signed byte and shows its sign. -/
theorem edit_accumulator (v : Int) :
    let written := (m.edit (.register Reg.a.position v)).cpu
    written.register Reg.a.position = Word.signed v 1 ∧
      written.flag .zero = (Word.signed v 1 == 0) ∧
      written.flag .negative = decide (Word.signed v 1 < 0) ∧
      ∀ kind, kind ≠ .zero → kind ≠ .negative → written.flag kind = m.cpu.flag kind := by
  have hdesc := Cpu.register_of_tables h Reg.a.position
  obtain ⟨⟨_, value⟩, hr, rfl⟩ := Option.map_eq_some_iff.1 hdesc.symm
  have hkind : RegisterKind.accumulator ≠ .status := by decide
  refine ⟨?_, Cpu.flag_setRegister_zero hr hkind rfl v (hasKind h _),
    Cpu.flag_setRegister_negative hr hkind rfl v (hasKind h _), fun kind hzero hnegative =>
      Cpu.flag_setRegister_of_ne hr hkind rfl v hzero hnegative⟩
  show (m.cpu.setRegister Reg.a.position v).cpu.register Reg.a.position = _
  rw [Cpu.register, Cpu.getElem?_registers_setRegister hr hkind v]
  rfl

end Edits

/-- Whatever a processor does, the status register shows the indicators. -/
theorem kept_mirrored : Machine.Kept fun m => Cpu.Mirrored registers indicators m.cpu where
  edit change h := h.edit Cpu.statusLayout_mos6502 change
  store _ h := h
  fetch _ h := h
  detach h := h

/-! ## Bytes -/

/-- The accumulator as an unsigned byte. -/
def accumulator (m : Machine) : UInt8 := UInt8.ofNat (lowByte (m.cpu.register Reg.a.position))

/-- Zero and negative tell of the byte in the accumulator. -/
structure TellsAccumulator (m : Machine) : Prop where
  zero : m.cpu.flag .zero = true ↔ accumulator m = 0
  negative : m.cpu.flag .negative = true ↔ 128 ≤ (accumulator m).toNat

/-- A signed byte is the byte itself below 128, and 256 less from there on. -/
theorem signed_byte (b : UInt8) :
    Word.signed b.toNat 1 = if b.toNat < 128 then (b.toNat : Int) else b.toNat - 256 := by
  have hlt := b.toNat_lt
  have hmodulus : Word.modulus 1 = 256 := rfl
  rw [Word.signed, if_pos (by decide), hmodulus, Int.bmod_def]
  split <;> split <;> omega

theorem lowByte_signed (v : Int) : lowByte (Word.signed v 1) = (v % 256).toNat := by
  rw [lowByte, Word.unsigned_signed]
  rfl

theorem lowByte_signed_byte (b : UInt8) : lowByte (Word.signed b.toNat 1) = b.toNat := by
  have hlt := b.toNat_lt
  rw [lowByte_signed]
  omega

theorem accumulator_eq (h : m.cpu.register Reg.a.position = Word.signed x.toNat 1) :
    accumulator m = x := by
  rw [accumulator, h, lowByte_signed_byte, UInt8.ofNat_toNat]

/-- The byte in the accumulator after a number was written there, with its sign. -/
theorem tellsAccumulator_edit (h : m.cpu.tables = (registers, indicators)) {r : Nat}
    (hm : m' = m.edit (.register Reg.a.position r)) :
    (accumulator m').toNat = r % 256 ∧ TellsAccumulator m' := by
  obtain ⟨hregister, hzero, hnegative, -⟩ := edit_accumulator h r
  rw [← hm] at hregister hzero hnegative
  have hbyte : (accumulator m').toNat = r % 256 := by
    rw [accumulator, hregister, lowByte_signed, UInt8.toNat_ofNat']
    omega
  have hsigned : Word.signed r 1 = Word.signed (accumulator m').toNat 1 := by
    rw [← Word.signed_unsigned, hbyte]
    rfl
  rw [hsigned, signed_byte] at hzero hnegative
  have hlt := (accumulator m').toNat_lt
  refine ⟨hbyte, ?_, ?_⟩
  · rw [hzero, beq_iff_eq, ← UInt8.toNat_inj]
    have hnone : (0 : UInt8).toNat = 0 := rfl
    split <;> omega
  · rw [hnegative, decide_eq_true_eq]
    split <;> omega

/-! ## Operands -/

/-- An operand that was read is read again where only the program counter has moved. -/
theorem CounterMoved.run_readOperand (h : CounterMoved m m') {a : Addressing} {o : Operand}
    {v : Int} (hrun : (readOperand a o).run m = (.ok v, m)) :
    (readOperand a o).run m' = (.ok v, m') := by
  cases a with
  | accumulator =>
    have hvalue : m.cpu.register Reg.a.position = v := Except.ok.inj (Prod.mk.inj hrun).1
    rw [← hvalue, ← h.register (i := Reg.a.position) (by decide)]
    rfl
  | immediate =>
    obtain ⟨hvalue, -⟩ := Prod.mk.inj hrun
    exact Prod.ext hvalue rfl
  | _ =>
    -- the address is found again, and memory is the same
    obtain ⟨address, m₁, haddress, hload⟩ := run_bind_eq_ok_iff.1 hrun
    obtain rfl := (reads_effectiveAddress _ o).eq_of_run haddress
    have hsame : ((loadSigned address 1).run m').1 = ((loadSigned address 1).run m₁).1 :=
      fst_run_load_congr h.memory fun _ => rfl
    have hreads : (loadSigned address 1).Reads := fun _ => trivial
    have hkept := hreads.run m'
    rw [hload] at hsame
    exact run_bind_eq_ok_iff.2
      ⟨address, m', run_effectiveAddress_congr h.sameOperands haddress, Prod.ext hsame hkept⟩

/-- An instruction of the operation is at the program counter, and its operand is the byte. -/
def Offers (op : Operation) (b : UInt8) (m : Machine) : Prop :=
  ∃ (e : Entry) (o : Operand), e.At m ∧ e.operation = op ∧
    m.memory.Contains (behindOpcode m) e.addressing.width ∧ e.operandAt m = some o ∧
    (readOperand e.addressing o).run m = (.ok (Word.signed b.toNat 1), m)

theorem run_readOperand_immediate (m : Machine) (o : Operand) :
    (readOperand .immediate o).run m = (.ok (Word.signed o.value o.size), m) := rfl

/-- The byte behind the opcode is the operand of an instruction that has it there. -/
theorem offers_immediate {e : Entry} (hat : e.At m) (ha : e.addressing = .immediate)
    (hin : m.memory.Contains (behindOpcode m) 1) :
    Offers e.operation (m.memory.cell (behindOpcode m).toNat) m := by
  have hwidth : e.addressing.width = 1 := by
    rw [ha]
    rfl
  have hoperand : e.operandAt m =
      some ⟨1, Word.signed (m.memory.cell (behindOpcode m).toNat).toNat 1, 1⟩ := by
    rw [← Memory.natOfBytes_slice_one, Entry.operandAt, ha]
    rfl
  have hread := run_readOperand_immediate m
    ⟨1, Word.signed (m.memory.cell (behindOpcode m).toNat).toNat 1, 1⟩
  have hfit (v : Int) : Word.signed (Word.signed v 1) 1 = Word.signed v 1 :=
    Word.fit_fit .signed v 1
  dsimp only at hread
  rw [hfit, ← ha] at hread
  exact ⟨e, _, hat, rfl, by rwa [hwidth], hoperand, hread⟩

/-- A step that takes a byte succeeds where the instruction does with the byte. -/
theorem Offers.exists_step {b : UInt8} (h : Offers op b m)
    (htables : m.cpu.tables = (registers, indicators)) : ∃ (e : Entry) (o : Operand)
      (opened : Machine), e.operation = op ∧ CounterMoved m opened ∧
        (readOperand e.addressing o).run opened = (.ok (Word.signed b.toNat 1), opened) ∧
        ∀ m', (e.behaviour (some o)).run opened = (.ok (), m') →
          architecture.step m = (.ok m'.cpu.ended, m') := by
  obtain ⟨e, o, hat, hop, hin, hoperand, hread⟩ := h
  obtain ⟨opened, hmoved, -, hstep⟩ := step_eq_ok_of_run htables hat hin
  rw [hoperand] at hstep
  exact ⟨e, o, opened, hop, hmoved, hmoved.run_readOperand hread, hstep⟩

/-! ## Loading, adding, subtracting and comparing -/

/-- A load puts the byte into the accumulator and leaves carry alone. -/
theorem Offers.after_load (h : Offers (.load .a) x m)
    (htables : m.cpu.tables = (registers, indicators)) :
    ∃ m', architecture.step m = (.ok m'.cpu.ended, m') ∧ accumulator m' = x ∧
      m'.cpu.flag .carry = m.cpu.flag .carry := by
  obtain ⟨⟨opcode, mnemonic, a, op⟩, o, opened, hop, hmoved, hread, hstep⟩ := h.exists_step htables
  obtain rfl : op = .load .a := hop
  have hopened := hmoved.tables.trans htables
  obtain ⟨hregister, -, -, hflags⟩ := edit_accumulator hopened (Word.signed x.toNat 1)
  have hfit : Word.signed (Word.signed x.toNat 1) 1 = Word.signed x.toNat 1 :=
    Word.fit_fit .signed _ 1
  have hrun : (readOperand a o >>= fun v => setReg .a v).run opened =
      (.ok (), opened.edit (.register Reg.a.position (Word.signed x.toNat 1))) :=
    run_bind_eq_ok_iff.2 ⟨_, opened, hread, rfl⟩
  refine ⟨_, hstep _ hrun, accumulator_eq (hregister.trans hfit), ?_⟩
  have hcarry : opened.cpu.flag .carry = m.cpu.flag .carry := by
    rw [Cpu.flag, Cpu.flag, hmoved.indicators]
  exact (hflags .carry (by decide) (by decide)).trans hcarry

/-- The number does not fit `n` bytes in two's complement. -/
def Overflows (n : Nat) (v : Int) : Prop :=
  ¬ (-(Word.modulus n : Int) ≤ 2 * v ∧ 2 * v < Word.modulus n)

instance (n : Nat) (v : Int) : Decidable (Overflows n v) := inferInstanceAs (Decidable (¬ _))

/-- The accumulator of `m` is the sum of two bytes and carry, as far as it fits a byte, and the
indicators tell what does not fit, without a sign and with one. -/
structure Added (x y : UInt8) (c : Bool) (m : Machine) : Prop where
  sum : (accumulator m).toNat + 256 * (m.cpu.flag .carry).toNat = x.toNat + y.toNat + c.toNat
  overflow : m.cpu.flag .overflow = true ↔
    Overflows 1 (Word.signed x.toNat 1 + Word.signed y.toNat 1 + c.toNat)
  told : TellsAccumulator m

/-- The sign of the sum differs from the signs of both summands exactly if the sum of the signed
bytes does not fit a byte. -/
theorem overflow_iff (x y : UInt8) {c : Nat} (hc : c ≤ 1) :
    (x.toNat.testBit 7 != (x.toNat + y.toNat + c).testBit 7 &&
      y.toNat.testBit 7 != (x.toNat + y.toNat + c).testBit 7) = true ↔
        Overflows 1 (Word.signed x.toNat 1 + Word.signed y.toNat 1 + c) := by
  have hx := x.toNat_lt
  have hy := y.toNat_lt
  have hmodulus : Word.modulus 1 = 256 := rfl
  rw [Overflows, signed_byte, signed_byte, hmodulus, Bool.and_eq_true, bne_iff_ne, bne_iff_ne]
  simp only [Nat.testBit_eq_decide_div_mod_eq, ne_eq, decide_eq_decide]
  split <;> split <;> omega

theorem toNat_accumulator (m : Machine) :
    (accumulator m).toNat = lowByte (m.cpu.register Reg.a.position) := by
  have hbyte : lowByte (m.cpu.register Reg.a.position) =
      (m.cpu.register Reg.a.position % 256).toNat := rfl
  rw [accumulator, UInt8.toNat_ofNat', hbyte]
  omega

theorem run_addWithCarry (htables : m.cpu.tables = (registers, indicators)) (y : UInt8) :
    ∃ m', (addWithCarry y.toNat).run m = (.ok (), m') ∧
      Added (accumulator m) y (m.cpu.flag .carry) m' := by
  let c := (m.cpu.flag .carry).toNat
  let r := (accumulator m).toNat + y.toNat + c
  let v := (accumulator m).toNat.testBit 7 != r.testBit 7 && y.toNat.testBit 7 != r.testBit 7
  let flagged := (m.edit (.flag .carry (255 < r))).edit (.flag .overflow v)
  have hrun : (addWithCarry y.toNat).run m =
      (.ok (), flagged.edit (.register Reg.a.position r)) := by
    simp only [flagged, v, r, toNat_accumulator]
    rfl
  have hfirst := tables_edit htables (.flag .carry (255 < r))
  have hflagged : flagged.cpu.tables = (registers, indicators) := tables_edit hfirst _
  obtain ⟨-, -, -, hflags⟩ := edit_accumulator hflagged r
  obtain ⟨hbyte, htold⟩ := tellsAccumulator_edit hflagged rfl
  -- carry is set before overflow, and both before the accumulator
  have hcarry : (flagged.edit (.register Reg.a.position r)).cpu.flag .carry = decide (255 < r) := by
    rw [hflags .carry (by decide) (by decide), flag_edit_flag hfirst, if_neg (by decide),
      flag_edit_flag htables, if_pos rfl]
  have hoverflow : (flagged.edit (.register Reg.a.position r)).cpu.flag .overflow = v := by
    rw [hflags .overflow (by decide) (by decide), flag_edit_flag hfirst, if_pos rfl]
  have hc : c ≤ 1 := Bool.toNat_le _
  refine ⟨_, hrun, ?_, ?_, htold⟩
  · have hx := (accumulator m).toNat_lt
    have hy := y.toNat_lt
    rw [hbyte, hcarry]
    show r % 256 + 256 * (decide (255 < r)).toNat = r
    by_cases hlarge : 255 < r
    · simp only [hlarge, decide_true, Bool.toNat_true]
      omega
    · simp only [hlarge, decide_false, Bool.toNat_false]
      omega
  · rw [hoverflow]
    exact overflow_iff _ _ hc

/-- The operation adds what `f` makes of its byte to the accumulator, through carry. -/
def Adds (op : Operation) (f : UInt8 → UInt8) : Prop :=
  ∀ {m : Machine} {y : UInt8}, m.cpu.tables = (registers, indicators) → Offers op y m →
    ∃ m', architecture.step m = (.ok m'.cpu.ended, m') ∧
      Added (accumulator m) (f y) (m.cpu.flag .carry) m'

theorem CounterMoved.accumulator_eq (h : CounterMoved m m') : accumulator m' = accumulator m := by
  rw [accumulator, accumulator, h.register (by decide)]

theorem CounterMoved.flag_eq (h : CounterMoved m m') (kind : IndicatorKind) :
    m'.cpu.flag kind = m.cpu.flag kind := by
  rw [Cpu.flag, Cpu.flag, h.indicators]

/-- An operation adds to the accumulator if its behaviour reads the operand and does. -/
theorem adds_of_behaviour {f : UInt8 → UInt8} {g : Int → Nat}
    (hbehaviour : ∀ (e : Entry) (o : Operand), e.operation = op →
      e.behaviour (some o) = (readOperand e.addressing o >>= fun v => addWithCarry (g v)))
    (hg : ∀ y : UInt8, g (Word.signed y.toNat 1) = (f y).toNat) : Adds op f := by
  intro m y htables h
  obtain ⟨e, o, opened, hop, hmoved, hread, hstep⟩ := h.exists_step htables
  obtain ⟨m', hrun, hadded⟩ := run_addWithCarry (hmoved.tables.trans htables) (f y)
  rw [hmoved.accumulator_eq, hmoved.flag_eq] at hadded
  rw [← hg] at hrun
  rw [hbehaviour e o hop] at hstep
  exact ⟨m', hstep m' (run_bind_eq_ok_iff.2 ⟨_, opened, hread, hrun⟩), hadded⟩

theorem adds_add : Adds .add id := by
  refine adds_of_behaviour (g := lowByte) ?_ lowByte_signed_byte
  rintro ⟨opcode, mnemonic, a, op⟩ o rfl
  rfl

/-- Subtracting adds the complement of the byte. -/
theorem adds_subtract : Adds .subtract (~~~ ·) := by
  refine adds_of_behaviour (g := fun v => (Word.onesComplement v 1).toNat) ?_ ?_
  · rintro ⟨opcode, mnemonic, a, op⟩ o rfl
    rfl
  · intro y
    have hlt := y.toNat_lt
    have hword : Word.onesComplement (Word.signed y.toNat 1) 1 =
        (-Word.signed y.toNat 1 - 1) % 256 := rfl
    rw [hword, signed_byte, UInt8.toNat_not, UInt8.size]
    split <;> omega

/-- Comparing with the accumulator sets carry unless the byte is greater. -/
theorem Offers.after_compare (h : Offers (.compare .a) y m)
    (htables : m.cpu.tables = (registers, indicators)) :
    ∃ m', architecture.step m = (.ok m'.cpu.ended, m') ∧
      m'.cpu.flag .carry = decide (y.toNat ≤ (accumulator m).toNat) := by
  obtain ⟨⟨opcode, mnemonic, a, op⟩, o, opened, hop, hmoved, hread, hstep⟩ := h.exists_step htables
  obtain rfl : op = .compare .a := hop
  have hopened := hmoved.tables.trans htables
  let zeroed := opened.edit (.flag .zero ((accumulator m).toNat == y.toNat))
  let carried := zeroed.edit (.flag .carry (y.toNat ≤ (accumulator m).toNat))
  let difference : Int := (accumulator m).toNat - y.toNat
  have hcompare : (getByte .a >>= fun left =>
      compareBytes left (lowByte (Word.signed y.toNat 1))).run opened =
        (.ok (), carried.edit (.flag .negative (Word.signed difference 1 < 0))) := by
    simp only [difference, carried, zeroed, lowByte_signed_byte, ← hmoved.accumulator_eq,
      toNat_accumulator]
    rfl
  have hall : (readOperand a o >>= fun v =>
      getByte .a >>= fun left => compareBytes left (lowByte v)).run opened =
        (.ok (), carried.edit (.flag .negative (Word.signed difference 1 < 0))) :=
    run_bind_eq_ok_iff.2 ⟨_, opened, hread, hcompare⟩
  refine ⟨_, hstep _ hall, ?_⟩
  -- carry is set before negative
  have hzeroed : zeroed.cpu.tables = (registers, indicators) := tables_edit hopened _
  rw [flag_edit_flag (tables_edit hzeroed _), if_neg (by decide), flag_edit_flag hzeroed,
    if_pos rfl]

end Breadboard.Mos6502
