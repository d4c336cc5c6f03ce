import Breadboard.Proofs.Device.Hearing
import Breadboard.Proofs.Memory

/-!
# Whom a write calls

A write calls the listeners whose windows have a byte in common with the range that is written
(`Window.Touches`), one after another in the order of their positions: by controller, and for one
controller in the order of declaration (`Machine.touched`, `pairwise_touched`). Every call gives the
listener all bytes of its window (`Machine.call`). What a call changes does not depend on the calls
before it (`listenerAt?_foldl_call`, `journal_foldl_call`), so feeding all controllers at once comes
to the same (`feed_eq_foldl_call`). Writing is putting the bytes down, making these calls, and then
entering the write into the journal (`write_dispatch`).
-/

namespace Breadboard

/-! ## Windows and ranges -/

/-- The window and the range of `length` bytes at `address` have a byte in common. -/
def Window.Touches (w : Window) (address : Int) (length : Nat) : Prop :=
  ∃ i : Int, (w.base ≤ i ∧ i < w.base + w.size) ∧ address ≤ i ∧ i < address + length

namespace Window

variable {w : Window} {address : Int} {length : Nat}

/-- Two ranges have a byte in common if neither is empty and each begins before the other ends. -/
theorem touches_iff : w.Touches address length ↔
    0 < length ∧ 0 < w.size ∧ address < w.base + w.size ∧ w.base < address + length := by
  constructor
  · rintro ⟨i, ⟨hbase, hend⟩, haddress, hlast⟩
    omega
  · rintro ⟨hlength, hsize, hbefore, hbehind⟩
    -- the later of the two beginnings is in both
    exact ⟨max address w.base, by omega, by omega⟩

instance : Decidable (w.Touches address length) := decidable_of_iff _ touches_iff.symm

/-- Ranges of which numbers count the bytes overlap exactly if they have a byte in common. -/
theorem overlaps_iff_touches (hsize : (w.size : Int) ≤ Word.greatest)
    (hlength : (length : Int) ≤ Word.greatest) :
    w.overlaps address length = true ↔ w.Touches address length := by
  rw [overlaps, Word.inRange_natCast hsize, Word.inRange_natCast hlength, touches_iff]
  simp only [Bool.and_true, Bool.and_eq_true, decide_eq_true_eq]
  tauto

end Window

/-! ## Calls -/

/-- What is reported of `bytes` that were given to a listener of the controller at position `i`. -/
def Listener.report? (i : Nat) (bytes : List UInt8) : Listener → Option Event
  | .probe w => some (.delivery i w.name w.base w.size bytes)
  | .panel _ => none

/-- The listener after it was given the bytes of its window. -/
def Listener.called (m : Memory) (l : Listener) : Listener :=
  l.receive (m.slice l.window.base.toNat l.window.size)

namespace Machine

/-- The listener at position `p.2` of the controller at position `p.1`. -/
def listenerAt? (m : Machine) (p : Nat × Nat) : Option Listener :=
  m.controllers[p.1]?.bind fun c => c.listeners[p.2]?

/-- What is reported of a call of the listener at position `p`. -/
def reportAt? (m : Machine) (p : Nat × Nat) : Option Event :=
  (m.listenerAt? p).bind fun l => l.report? p.1 (m.memory.slice l.window.base.toNat l.window.size)

/-- Calls the listener at position `p` with all bytes of its window; a probe reports them. -/
def call (m : Machine) (p : Nat × Nat) : Machine :=
  let called : Machine :=
    { m with
      controllers := m.controllers.modify p.1 fun c =>
        { c with listeners := c.listeners.modify p.2 (·.called m.memory) } }
  called.recordAll (m.reportAt? p).toList

/-- The positions of the listeners whose windows have a byte in common with the range of `length`
bytes at `address`. -/
def touched (m : Machine) (address : Int) (length : Nat) : List (Nat × Nat) :=
  m.controllers.zipIdx.flatMap fun (c, i) =>
    c.listeners.zipIdx.filterMap fun (l, j) =>
      if l.window.Touches address length then some (i, j) else none

/-- One position comes before another: in an earlier controller, or declared earlier in the same. -/
def Before (p q : Nat × Nat) : Prop := p.1 < q.1 ∨ p.1 = q.1 ∧ p.2 < q.2

/-! ## Positions -/

variable {m : Machine} {address : Int} {length : Nat} {p q : Nat × Nat}

/-- The positions are those of the listeners whose windows are touched. -/
theorem mem_touched_iff :
    p ∈ m.touched address length ↔
      ∃ l, m.listenerAt? p = some l ∧ l.window.Touches address length := by
  obtain ⟨i, j⟩ := p
  simp only [touched, listenerAt?, List.mem_flatMap, List.mem_filterMap, Prod.exists,
    List.mem_zipIdx_iff_getElem?, Option.ite_none_right_eq_some, Option.bind_eq_some_iff]
  constructor
  · rintro ⟨c, i', hc, l, j', hl, htouches, ⟨⟩⟩
    exact ⟨l, ⟨c, hc, hl⟩, htouches⟩
  · rintro ⟨l, ⟨c, hc, hl⟩, htouches⟩
    exact ⟨c, i, hc, l, j, hl, htouches, rfl⟩

theorem pairwise_zipIdx {α : Type} (as : List α) (k : Nat) :
    (as.zipIdx k).Pairwise fun x y => x.2 < y.2 := by
  induction as generalizing k with
  | nil => exact .nil
  | cons a as ih =>
    rw [List.zipIdx_cons]
    refine List.pairwise_cons.2 ⟨?_, ih (k + 1)⟩
    intro y hy
    exact List.le_snd_of_mem_zipIdx hy

/-- They come in order, and no position comes twice. -/
theorem pairwise_touched (m : Machine) (address : Int) (length : Nat) :
    (m.touched address length).Pairwise Before := by
  apply List.pairwise_flatMap.2
  constructor
  · rintro ⟨c, i⟩ -
    apply (pairwise_zipIdx c.listeners 0).filterMap
    rintro ⟨l, j⟩ ⟨l', j'⟩ hlt p hp q hq
    obtain ⟨-, ⟨⟩⟩ := Option.ite_none_right_eq_some.1 hp
    obtain ⟨-, ⟨⟩⟩ := Option.ite_none_right_eq_some.1 hq
    exact Or.inr ⟨rfl, hlt⟩
  · apply (pairwise_zipIdx m.controllers 0).imp
    rintro ⟨c, i⟩ ⟨c', i'⟩ hlt p hp q hq
    obtain ⟨⟨l, j⟩, -, hpos⟩ := List.mem_filterMap.1 hp
    obtain ⟨⟨l', j'⟩, -, hpos'⟩ := List.mem_filterMap.1 hq
    obtain ⟨-, ⟨⟩⟩ := Option.ite_none_right_eq_some.1 hpos
    obtain ⟨-, ⟨⟩⟩ := Option.ite_none_right_eq_some.1 hpos'
    exact Or.inl hlt

theorem nodup_touched (m : Machine) (address : Int) (length : Nat) :
    (m.touched address length).Nodup := by
  apply (m.pairwise_touched address length).imp
  rintro p _ hbefore rfl
  rcases hbefore with hlt | ⟨-, hlt⟩
  · exact Nat.lt_irrefl _ hlt
  · exact Nat.lt_irrefl _ hlt

/-! ## Calls one after another -/

/-- A call changes the listener that is called and no other. -/
theorem listenerAt?_call (m : Machine) (p q : Nat × Nat) :
    (m.call p).listenerAt? q =
      if p = q then (m.listenerAt? q).map (·.called m.memory) else m.listenerAt? q := by
  obtain ⟨i, j⟩ := p
  obtain ⟨i', j'⟩ := q
  simp only [call, recordAll, listenerAt?, List.getElem?_modify, Prod.mk.injEq]
  cases m.controllers[i']? with
  | none => simp
  | some c =>
    by_cases hi : i = i'
    · simp only [hi, true_and, Option.map_eq_map, Option.map_some, if_true, Option.bind_some,
        List.getElem?_modify]
      split
      · rfl
      · simp
    · simp [hi]

theorem reportAt?_call (m : Machine) (p q : Nat × Nat) :
    (m.call p).reportAt? q = m.reportAt? q := by
  have hmemory : (m.call p).memory = m.memory := rfl
  rw [reportAt?, reportAt?, listenerAt?_call, hmemory]
  split
  · cases m.listenerAt? q with
    | none => rfl
    | some l =>
      -- what was given to a listener is no part of what is reported
      cases l with
      | probe w => rfl
      | panel panel => rfl
  · rfl

/-- After calls at different positions, each of those listeners was called once. -/
theorem listenerAt?_foldl_call {ps : List (Nat × Nat)} (hps : ps.Nodup) (m : Machine)
    (q : Nat × Nat) :
    (ps.foldl call m).listenerAt? q =
      if q ∈ ps then (m.listenerAt? q).map (·.called m.memory) else m.listenerAt? q := by
  induction ps generalizing m with
  | nil => simp
  | cons p ps ih =>
    obtain ⟨hp, hrest⟩ := List.nodup_cons.1 hps
    have hmemory : (m.call p).memory = m.memory := rfl
    rw [List.foldl_cons, ih hrest, listenerAt?_call, hmemory]
    by_cases hq : p = q
    · rw [← hq, if_neg hp, if_pos rfl, if_pos List.mem_cons_self]
    · rw [if_neg hq]
      simp [Ne.symm hq]

/-- The journal tells of the calls in the order in which they were made. -/
theorem journal_foldl_call (ps : List (Nat × Nat)) (m : Machine) :
    (ps.foldl call m).journal = (ps.filterMap m.reportAt?).reverse ++ m.journal := by
  induction ps generalizing m with
  | nil => rfl
  | cons p ps ih =>
    have hreports : (m.call p).reportAt? = m.reportAt? := funext (m.reportAt?_call p)
    have hjournal : (m.call p).journal = (m.reportAt? p).toList ++ m.journal := by
      show (m.reportAt? p).toList.reverseAux m.journal = _
      cases m.reportAt? p with
      | none => rfl
      | some e => rfl
    rw [List.foldl_cons, ih, hreports, hjournal, List.filterMap_cons]
    cases m.reportAt? p with
    | none => rfl
    | some e => simp

/-- Calls leave the register file and memory alone, and the number of controllers. -/
theorem frame_foldl_call (ps : List (Nat × Nat)) (m : Machine) :
    (ps.foldl call m).cpu = m.cpu ∧ (ps.foldl call m).memory = m.memory ∧
      (ps.foldl call m).controllers.length = m.controllers.length := by
  induction ps generalizing m with
  | nil => exact ⟨rfl, rfl, rfl⟩
  | cons p ps ih =>
    obtain ⟨hcpu, hmemory, hlength⟩ := ih (m.call p)
    exact ⟨hcpu, hmemory, hlength.trans (List.length_modify _ _ _)⟩

/-- Machines with as many controllers have the same controllers if they have the same listeners. -/
theorem controllers_ext {m m' : Machine} (hlength : m.controllers.length = m'.controllers.length)
    (h : ∀ p, m.listenerAt? p = m'.listenerAt? p) : m.controllers = m'.controllers := by
  apply List.ext_getElem hlength
  intro i hi hi'
  have hlisteners : m.controllers[i].listeners = m'.controllers[i].listeners := by
    apply List.ext_getElem?
    intro j
    simpa [listenerAt?, List.getElem?_eq_getElem, hi, hi'] using h (i, j)
  exact congrArg Controller.mk hlisteners

end Machine

/-! ## What is delivered -/

/-- A window inside memory is given its bytes if it is touched, and otherwise nothing. -/
theorem Window.given_eq {w : Window} {m : Memory} {length : Nat} (address : Int)
    (hmemory : (m.size : Int) ≤ Word.greatest) (hinside : w.inside m.size = true)
    (hlength : length ≤ m.size) :
    w.given m address length =
      if w.Touches address length then some (m.slice w.base.toNat w.size) else none := by
  have hsize : w.size ≤ m.size := by
    simp only [inside, Bool.and_eq_true, decide_eq_true_eq] at hinside
    omega
  have htouches : w.overlaps address length = true ↔ w.Touches address length :=
    overlaps_iff_touches (by omega) (by omega)
  simp only [given, hinside, Bool.and_true, htouches]

namespace Machine

variable {m : Machine} {address : Int} {length : Nat}

/-- Memory is no larger than numbers can count, and all windows lie inside it. -/
structure Windowed (m : Machine) : Prop where
  memory : (m.memory.size : Int) ≤ Word.greatest
  inside : ∀ c ∈ m.controllers, ∀ w ∈ c.windows, w.inside m.memory.size = true

theorem Windowed.given_eq (hm : m.Windowed) (address : Int) {c : Controller}
    (hc : c ∈ m.controllers) {l : Listener} (hl : l ∈ c.listeners)
    (hlength : length ≤ m.memory.size) :
    l.window.given m.memory address length =
      if l.window.Touches address length then
        some (m.memory.slice l.window.base.toNat l.window.size)
      else none :=
  Window.given_eq address hm.memory (hm.inside c hc _ (List.mem_map_of_mem hl)) hlength

/-- A controller delivers to the listeners whose windows are touched. -/
theorem deliveries_eq (hm : m.Windowed) (address : Int) {c : Controller}
    (hc : c ∈ m.controllers) (hlength : length ≤ m.memory.size) :
    c.deliveries m.memory address length =
      (c.listeners.filter fun l => l.window.Touches address length).map fun l =>
        ⟨l, m.memory.slice l.window.base.toNat l.window.size⟩ := by
  rw [Controller.deliveries, ← List.filterMap_eq_map, List.filterMap_filter]
  apply List.filterMap_congr
  intro l hl
  have hgiven : Controller.delivery? m.memory address length l = _ :=
    hm.given_eq address hc hl hlength
  rw [hgiven]
  by_cases htouches : l.window.Touches address length
  · simp [htouches]
  · simp [htouches]

/-- What probes report of deliveries to listeners. -/
theorem probeEvents_map (m : Memory) (i : Nat) (ls : List Listener) :
    probeEvents i (ls.map fun l => ⟨l, m.slice l.window.base.toNat l.window.size⟩) =
      ls.filterMap fun l => l.report? i (m.slice l.window.base.toNat l.window.size) := by
  rw [probeEvents, List.filterMap_map]
  rfl

/-- The events of what is delivered are the reports of the calls. -/
theorem events_deliveries (hm : m.Windowed) (hlength : length ≤ m.memory.size) :
    (m.controllers.zipIdx.map fun (c, i) =>
        probeEvents i (c.deliveries m.memory address length)).flatten =
      (m.touched address length).filterMap m.reportAt? := by
  rw [← List.flatMap_def, touched, List.filterMap_flatMap]
  apply List.flatMap_congr
  rintro ⟨c, i⟩ hci
  have hc := List.mem_zipIdx_iff_getElem?.1 hci
  dsimp only at hc ⊢
  let report (l : Listener) : Option Event :=
    if l.window.Touches address length then
      l.report? i (m.memory.slice l.window.base.toNat l.window.size)
    else none
  calc probeEvents i (c.deliveries m.memory address length)
      = c.listeners.filterMap report := by
        rw [deliveries_eq hm address (List.mem_of_getElem? hc) hlength, probeEvents_map,
          List.filterMap_filter]
        simp only [decide_eq_true_eq, report]
    _ = c.listeners.zipIdx.filterMap (report ∘ Prod.fst) := by
        rw [← List.filterMap_map, List.zipIdx_map_fst]
    _ = _ := by
        rw [List.filterMap_filterMap]
        apply List.filterMap_congr
        rintro ⟨l, j⟩ hlj
        have hl := List.mem_zipIdx_iff_getElem?.1 hlj
        dsimp only [Function.comp_apply, report] at hl ⊢
        split
        · simp [reportAt?, listenerAt?, hc, hl]
        · rfl

theorem listenerAt?_feed (m : Machine) (address : Int) (length : Nat) (p : Nat × Nat) :
    (m.feed address length).listenerAt? p =
      (m.listenerAt? p).map (·.hear (Window.given m.memory address length)) := by
  have hcontrollers : (m.feed address length).controllers =
      m.controllers.map (·.hear (Window.given m.memory address length)) := rfl
  rw [listenerAt?, listenerAt?, hcontrollers, List.getElem?_map]
  cases m.controllers[p.1]? with
  | none => rfl
  | some c => exact List.getElem?_map

/-- Feeding the controllers is calling the listeners whose windows are touched, one after
another. -/
theorem feed_eq_foldl_call (hm : m.Windowed) (hlength : length ≤ m.memory.size) :
    m.feed address length = (m.touched address length).foldl call m := by
  obtain ⟨hcpu, hmemory, hcount⟩ := frame_foldl_call (m.touched address length) m
  have hcontrollers : (m.feed address length).controllers =
      ((m.touched address length).foldl call m).controllers := by
    apply controllers_ext
    · rw [hcount]
      exact List.length_map _
    · intro p
      rw [listenerAt?_feed, listenerAt?_foldl_call (m.nodup_touched address length)]
      cases hl : m.listenerAt? p with
      | none => simp
      | some l =>
        obtain ⟨c, hc, hlistener⟩ := Option.bind_eq_some_iff.1 hl
        have hgiven := hm.given_eq address (List.mem_of_getElem? hc)
          (List.mem_of_getElem? hlistener) hlength
        have hmem : p ∈ m.touched address length ↔ l.window.Touches address length := by
          simp [mem_touched_iff, hl]
        rw [Option.map_some, Option.map_some, Listener.hear, hgiven]
        by_cases htouches : l.window.Touches address length
        · rw [if_pos htouches, if_pos (hmem.2 htouches)]
          rfl
        · rw [if_neg htouches, if_neg (mt hmem.1 htouches)]
  have hjournal : (m.feed address length).journal =
      ((m.touched address length).foldl call m).journal := by
    rw [journal_foldl_call, ← events_deliveries hm hlength]
    exact List.reverseAux_eq
  show Machine.mk m.cpu m.memory (m.feed address length).controllers
    (m.feed address length).journal = _
  rw [hcontrollers, hjournal, ← hcpu, ← hmemory]

/-- An empty range touches nothing. -/
theorem touched_zero (m : Machine) (address : Int) : m.touched address 0 = [] := by
  apply List.eq_nil_iff_forall_not_mem.2
  intro p hp
  obtain ⟨l, -, htouches⟩ := mem_touched_iff.1 hp
  exact absurd (Window.touches_iff.1 htouches).1 (Nat.lt_irrefl 0)

/-- Where all windows lie inside memory, a write to a range that exists puts the bytes down, then
calls the listeners whose windows have a byte in common with the range, and enters the write into
the journal last. These are called once each, by controller and then in the order of declaration,
and every call gives the bytes that the window has after the write. A controller delivers as many
times as it has such listeners. An empty range touches no window, and a write that is refused
changes nothing and enters nothing. -/
theorem write_dispatch {m : Machine} (hm : m.Windowed) (address : Int) (length : Nat) (v : Int) :
    (m.memory.Contains address length →
      let written : Machine :=
        { m with memory := m.memory.overlay address.toNat (Word.toBytes v length) }
      m.write address length v =
          (.ok (), ((m.touched address length).foldl call written).record
            (.memory address length)) ∧
        ∀ c ∈ m.controllers,
          c.deliveries written.memory address length =
              ((c.listeners.filter fun l => l.window.Touches address length).map fun l =>
                ⟨l, written.memory.slice l.window.base.toNat l.window.size⟩) ∧
            (c.deliveries written.memory address length).length =
              c.listeners.countP fun l => l.window.Touches address length) ∧
    (∀ p, p ∈ m.touched address length ↔
      ∃ l, m.listenerAt? p = some l ∧ l.window.Touches address length) ∧
    (m.touched address length).Pairwise Before ∧
    (length = 0 → m.touched address length = []) ∧
    (¬ m.memory.Contains address length →
      m.write address length v = (.error (Memory.outside address length), m)) := by
  refine ⟨?_, fun _ => mem_touched_iff, m.pairwise_touched address length, ?_, ?_⟩
  · intro hcontains written
    have hsize : written.memory.size = m.memory.size := Memory.size_overlay _ _ _
    -- the windows of the machine are inside its memory after the write as well
    have hwritten : written.Windowed := by
      refine ⟨?_, ?_⟩
      · rw [hsize]
        exact hm.memory
      · rw [hsize]
        exact hm.inside
    obtain ⟨hpos, hend⟩ := hcontains
    have hlength : length ≤ written.memory.size := by omega
    constructor
    · rw [write_of_contains ⟨hpos, hend⟩, store, Word.length_toBytes, Int.toNat_of_nonneg hpos,
        feed_eq_foldl_call hwritten hlength]
      rfl
    · intro c hc
      have hdeliveries := deliveries_eq hwritten address hc hlength
      refine ⟨hdeliveries, ?_⟩
      rw [hdeliveries, List.length_map, List.countP_eq_length_filter]
  · rintro rfl
    exact m.touched_zero address
  · intro hcontains
    exact write_of_not_contains hcontains v

/-- Windows that end where the range begins or begin where it ends are not called, nor are empty
ones; a window that holds the range and one that shares a byte with it are. -/
theorem write_dispatch_two_controllers :
    let m : Machine :=
      { memory := .zeroed 8
        controllers :=
          [⟨[.probe ⟨"low", 0, 3⟩, .probe ⟨"empty", 3, 0⟩, .panel ⟨0, 8, 2, none⟩,
              .probe ⟨"next", 4, 2⟩]⟩,
            ⟨[.probe ⟨"first", 0, 2⟩, .probe ⟨"all", 0, 8⟩, .probe ⟨"all again", 0, 8⟩]⟩] }
    m.Windowed ∧ m.memory.Contains 2 2 ∧ m.touched 2 2 = [(0, 0), (0, 2), (1, 1), (1, 2)] ∧
      (m.write 2 2 0x0102).2.events =
        [.delivery 0 "low" 0 3 [0, 0, 1], .delivery 1 "all" 0 8 [0, 0, 1, 2, 0, 0, 0, 0],
          .delivery 1 "all again" 0 8 [0, 0, 1, 2, 0, 0, 0, 0], .memory 2 2] ∧
      m.write 7 2 0x0102 = (.error (Memory.outside 7 2), m) := by
  intro m
  have hm : m.Windowed := ⟨by decide, by decide⟩
  have hcontains : m.memory.Contains 2 2 := by decide
  obtain ⟨hwrite, -⟩ := write_dispatch hm 2 2 0x0102
  obtain ⟨-, -, -, -, hrefused⟩ := write_dispatch hm 7 2 0x0102
  have htouched : m.touched 2 2 = [(0, 0), (0, 2), (1, 1), (1, 2)] := by decide
  refine ⟨hm, hcontains, htouched, ?_, hrefused (by decide)⟩
  rw [(hwrite hcontains).1, htouched]
  decide

end Machine

end Breadboard
