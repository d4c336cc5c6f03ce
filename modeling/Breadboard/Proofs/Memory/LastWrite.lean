import Breadboard.Proofs.Machine
import Breadboard.Proofs.Memory

/-!
# Memory as a map of bytes

After any writes, some of which may have been refused, a cell holds the byte that the last accepted
write over it put there, and zero if there was none (`cell_attemptAll`). Which byte of a number goes
into which cell is said by a division (`MemoryWrite.byteAt`), and `Word.getElem_toBytes` shows that
the bytes of a field are the quotients by powers of 256. A range is read as the number in two's
complement that its bytes write (`Memory.read_of_contains`), so the range that was just written
gives back the number as its field holds it (`last_writer_wins`).
-/

namespace Breadboard

/-! ## Single writes -/

namespace MemoryWrite

/-- All bytes of the write have room in a memory of `size` bytes. -/
def Fits (w : MemoryWrite) (size : Nat) : Prop := 0 ≤ w.address ∧ w.address + w.length ≤ size

instance (w : MemoryWrite) (size : Nat) : Decidable (w.Fits size) :=
  inferInstanceAs (Decidable (_ ∧ _))

/-- Cell `i` is among those written. -/
def Covers (w : MemoryWrite) (i : Nat) : Prop := w.address ≤ i ∧ (i : Int) < w.address + w.length

instance (w : MemoryWrite) (i : Nat) : Decidable (w.Covers i) :=
  inferInstanceAs (Decidable (_ ∧ _))

/-- The byte for cell `i`: as many lower bytes of the number follow as there are cells behind it. -/
def byteAt (w : MemoryWrite) (i : Nat) : UInt8 :=
  UInt8.ofNat (w.value / Word.modulus (w.address + w.length - 1 - i).toNat % 256).toNat

end MemoryWrite

namespace Memory

variable {m : Memory}

/-- A range of at most eight bytes that exists is read as a number in two's complement. -/
theorem read_of_contains {address : Int} {length : Nat} (hl : length ≤ 8)
    (h : m.Contains address length) : m.read address length =
      .ok ((Word.natOfBytes (m.slice address.toNat length) : Int).bmod (Word.modulus length)) := by
  have hbytes : (m.slice address.toNat length).length ≤ 8 := by rwa [length_slice]
  have hsigned := Word.signed_ofBytes hbytes
  rw [length_slice] at hsigned
  rw [read, readUnsigned, dump_of_contains h]
  simp only [Except.map, hsigned]

/-- A write that has room puts its bytes into the cells that it covers and leaves the others. -/
theorem cell_overlay_write {w : MemoryWrite} (h : w.Fits m.size) (i : Nat) :
    (m.overlay w.address.toNat (Word.toBytes w.value w.length)).cell i =
      if w.Covers i then w.byteAt i else m.cell i := by
  obtain ⟨hlow, hhigh⟩ := h
  have hlength := Word.length_toBytes w.value w.length
  split
  next hcovers =>
    obtain ⟨hbegin, hend⟩ := hcovers
    obtain ⟨k, rfl⟩ : ∃ k, i = w.address.toNat + k := ⟨i - w.address.toNat, by omega⟩
    have hbehind : (w.address + w.length - 1 - (w.address.toNat + k : Nat)).toNat =
        w.length - 1 - k := by omega
    rw [cell_overlay_of_inside m (by omega) (by omega), Word.getElem_toBytes, MemoryWrite.byteAt,
      hbehind]
  next hcovers =>
    rw [MemoryWrite.Covers] at hcovers
    exact cell_overlay_of_outside m (by omega)

end Memory

namespace Machine

variable {m : Machine}

/-- A write is refused exactly if its field does not lie inside memory, and then nothing has
happened. -/
theorem write_refused (m : Machine) (w : MemoryWrite) :
    ((∃ e, (m.write w.address w.length w.value).1 = .error e) ↔
      w.address < 0 ∨ (m.memory.size : Int) < w.address + w.length) ∧
    ∀ e m', m.write w.address w.length w.value = (.error e, m') → m' = m := by
  by_cases hfits : w.Fits m.memory.size
  · have hwrite := write_of_contains hfits w.value
    obtain ⟨hlow, hhigh⟩ := hfits
    constructor
    · simp only [hwrite, reduceCtorEq, exists_false, false_iff]
      omega
    · simp [hwrite]
  · have hwrite := write_of_not_contains hfits w.value
    rw [MemoryWrite.Fits] at hfits
    constructor
    · simp only [hwrite, Except.error.injEq, exists_eq', true_iff]
      omega
    · intro e m' hfail
      rw [hwrite] at hfail
      exact (Prod.mk.inj hfail).2.symm

/-- The range of a number that was just written reads as what its field holds. -/
theorem read_write {w : MemoryWrite} (h : w.Fits m.memory.size) (hl : w.length ≤ 8)
    (hv : Word.inRange w.value = true) :
    ∃ m', m.write w.address w.length w.value = (.ok (), m') ∧
      m'.memory.read w.address w.length = .ok (Word.signed w.value w.length) := by
  refine ⟨_, write_of_contains h w.value, ?_⟩
  obtain ⟨hlow, hhigh⟩ := h
  have hroom : w.address.toNat + (Word.toBytes w.value w.length).length ≤ m.memory.size := by
    rw [Word.length_toBytes]
    omega
  have hself := Memory.slice_overlay_self m.memory hroom
  rw [Word.length_toBytes] at hself
  rw [Memory.read_of_contains hl ⟨hlow, by rwa [memory_store, Memory.size_overlay]⟩,
    memory_store, hself, Word.natOfBytes_toBytes, Int.emod_bmod, Word.signed_eq_bmod hl hv]

/-! ## Sequences of writes -/

/-- Carries out writes in order, also after some of them were refused. -/
def attemptAll (m : Machine) (ws : List MemoryWrite) : Machine :=
  ws.foldl (fun m w => (m.write w.address w.length w.value).2) m

/-- The last of the writes that have room in a memory of `size` bytes and cover cell `i`. -/
def lastWrite? (ws : List MemoryWrite) (size i : Nat) : Option MemoryWrite :=
  ws.reverse.find? fun w => w.Fits size ∧ w.Covers i

/-- The byte that the last write over cell `i` put there; zero if there was none. -/
def lastByte (ws : List MemoryWrite) (size i : Nat) : UInt8 :=
  ((lastWrite? ws size i).map (·.byteAt i)).getD 0

theorem attemptAll_concat (m : Machine) (ws : List MemoryWrite) (w : MemoryWrite) :
    m.attemptAll (ws ++ [w]) = ((m.attemptAll ws).write w.address w.length w.value).2 := by
  rw [attemptAll, List.foldl_concat]
  rfl

theorem lastWrite?_concat (ws : List MemoryWrite) (w : MemoryWrite) (size i : Nat) :
    lastWrite? (ws ++ [w]) size i =
      if w.Fits size ∧ w.Covers i then some w else lastWrite? ws size i := by
  rw [lastWrite?, List.reverse_concat, List.find?_cons]
  split
  next h => rw [if_pos (of_decide_eq_true h)]
  next h =>
    rw [if_neg (of_decide_eq_false h)]
    rfl

theorem size_attemptAll (m : Machine) (ws : List MemoryWrite) :
    (m.attemptAll ws).memory.size = m.memory.size := by
  induction ws using List.reverseRecOn with
  | nil => rfl
  | append_singleton ws w ih =>
    rw [attemptAll_concat, ← ih]
    by_cases hfits : w.Fits (m.attemptAll ws).memory.size
    · rw [write_of_contains hfits]
      exact Memory.size_overlay _ _ _
    · rw [write_of_not_contains hfits]

/-- Where memory was zero before the first write, every cell holds the byte of the last write over
it. -/
theorem cell_attemptAll {size : Nat} (hm : m.memory = .zeroed size) (ws : List MemoryWrite)
    (i : Nat) : (m.attemptAll ws).memory.cell i = lastByte ws size i := by
  induction ws using List.reverseRecOn with
  | nil =>
    have hcell : (m.attemptAll []).memory.cell i = (Memory.zeroed size).cell i := by
      rw [← hm]
      rfl
    rw [hcell, Memory.cell_zeroed]
    rfl
  | append_singleton ws w ih =>
    have hsize : (m.attemptAll ws).memory.size = size := by
      rw [size_attemptAll, hm, Memory.size_zeroed]
    rw [attemptAll_concat, lastByte, lastWrite?_concat]
    by_cases hfits : w.Fits size
    · have hin : w.Fits (m.attemptAll ws).memory.size := by rwa [hsize]
      rw [write_of_contains hin, memory_store, Memory.cell_overlay_write hin]
      by_cases hcovers : w.Covers i
      · rw [if_pos hcovers, if_pos ⟨hfits, hcovers⟩]
        rfl
      · rw [if_neg hcovers, if_neg fun h => hcovers h.2]
        exact ih
    · have hout : ¬ w.Fits (m.attemptAll ws).memory.size := by rwa [hsize]
      rw [write_of_not_contains hout, if_neg fun h => hfits h.1]
      exact ih

/-- A range that exists holds the bytes of the last writes over its cells. -/
theorem slice_attemptAll {size : Nat} (hm : m.memory = .zeroed size) (ws : List MemoryWrite)
    (start length : Nat) : (m.attemptAll ws).memory.slice start length =
      (List.range' start length).map (lastByte ws size) :=
  List.map_congr_left fun i _ => cell_attemptAll hm ws i

/-- Take a machine whose memory of `size` bytes is zero, and any writes to it, of any numbers in
fields of any length at any address. A further write is refused exactly if its field does not lie
inside memory, and then the machine stays as it is, with its memory, its controllers and its
journal. Every cell holds the byte that the last accepted write over it has for it, and zero if
there was none. A range that lies inside memory is dumped as these bytes; it is read, if it has at
most eight of them, as the number that they write in two's complement. In particular, the range of a
number that was just written reads as what the field holds of the number. -/
theorem last_writer_wins {size : Nat} (hm : m.memory = .zeroed size) (ws : List MemoryWrite) :
    let after := m.attemptAll ws
    (∀ w : MemoryWrite,
      ((∃ e, (after.write w.address w.length w.value).1 = .error e) ↔
        w.address < 0 ∨ (size : Int) < w.address + w.length) ∧
      ∀ e m', after.write w.address w.length w.value = (.error e, m') → m' = after) ∧
    (∀ i, after.memory.cell i = lastByte ws size i) ∧
    (∀ (address : Int) (length : Nat), 0 ≤ address → address + length ≤ size →
      let bytes := (List.range' address.toNat length).map (lastByte ws size)
      after.memory.dump address length = .ok bytes ∧
        (length ≤ 8 → after.memory.read address length =
          .ok ((Word.natOfBytes bytes : Int).bmod (Word.modulus length)))) ∧
    ∀ w : MemoryWrite, w.Fits size → w.length ≤ 8 → Word.inRange w.value = true →
      ∃ m', after.write w.address w.length w.value = (.ok (), m') ∧
        m'.memory.read w.address w.length = .ok (Word.signed w.value w.length) := by
  intro after
  have hsize : after.memory.size = size := by rw [size_attemptAll, hm, Memory.size_zeroed]
  refine ⟨fun w => ?_, cell_attemptAll hm ws, ?_, ?_⟩
  · have hrefused := write_refused after w
    rwa [hsize] at hrefused
  · intro address length hlow hhigh bytes
    have hin : after.memory.Contains address length := ⟨hlow, by rwa [hsize]⟩
    have hbytes := slice_attemptAll hm ws address.toNat length
    constructor
    · rw [Memory.dump_of_contains hin, hbytes]
    · intro hl
      rw [Memory.read_of_contains hl hin, hbytes]
  · intro w hfits hl hv
    rw [← hsize] at hfits
    exact read_write hfits hl hv

/-- Of three writes the second is refused, and the third covers a part of the first. -/
theorem last_writer_wins_overlap :
    let m : Machine := { memory := .zeroed 4 }
    let after := m.attemptAll [⟨0, 3, 0x010203⟩, ⟨3, 2, -1⟩, ⟨1, 2, -2⟩]
    m.memory = .zeroed 4 ∧ after.memory.dump 0 4 = .ok [0x01, 0xFF, 0xFE, 0x00] ∧
      after.memory.read 0 2 = .ok 0x01FF ∧
      ∃ m', after.write 2 2 0x18000 = (.ok (), m') ∧ m'.memory.read 2 2 = .ok (-0x8000) := by
  intro m after
  obtain ⟨-, -, hrange, hwritten⟩ :=
    last_writer_wins (m := m) rfl [⟨0, 3, 0x010203⟩, ⟨3, 2, -1⟩, ⟨1, 2, -2⟩]
  obtain ⟨hdump, -⟩ := hrange 0 4 (by decide) (by decide)
  obtain ⟨-, hread⟩ := hrange 0 2 (by decide) (by decide)
  obtain ⟨m', hwrite, hback⟩ := hwritten ⟨2, 2, 0x18000⟩ (by decide) (by decide) (by decide)
  have hbytes : (List.range' 0 4).map
      (lastByte [⟨0, 3, 0x010203⟩, ⟨3, 2, -1⟩, ⟨1, 2, -2⟩] 4) = [0x01, 0xFF, 0xFE, 0x00] := by
    decide
  have hvalue : (Word.natOfBytes ((List.range' 0 2).map
      (lastByte [⟨0, 3, 0x010203⟩, ⟨3, 2, -1⟩, ⟨1, 2, -2⟩] 4)) : Int).bmod (Word.modulus 2) =
        0x01FF := by
    decide
  exact ⟨rfl, hdump.trans (congrArg _ hbytes), (hread (by decide)).trans (congrArg _ hvalue), m',
    hwrite, hback⟩

end Machine

end Breadboard
