import Breadboard.Proofs.Cpu.Events
import Breadboard.Proofs.Device.Hearing
import Breadboard.Proofs.Memory

/-!
# Panels and writes

A panel shows a window of memory if the bytes behind its lamps are those of the window (`Shows`). A
write that touches the window makes it so, and a write that does not touch it changes neither the
panel nor the window (`Told.store`). Whatever a processor does, therefore, a panel whose window was
touched shows it, and a panel whose window was not touched is as it was, and so is the window
(`kept_told`). The journal tells which windows were touched (`touchedSince`).
-/

namespace Breadboard

/-! ## What a panel shows -/

/-- The window that the panel listens to. -/
def Panel.window (p : Panel) : Window := (Listener.panel p).window

/-- The bytes behind the lamps are those of the window in `m`. -/
def Panel.Shows (p : Panel) (m : Memory) : Prop := p.bytes = m.slice p.address.toNat p.size

instance (p : Panel) (m : Memory) : Decidable (p.Shows m) :=
  inferInstanceAs (Decidable (p.bytes = m.slice p.address.toNat p.size))

/-- The panel after it was given the bytes for its window, if there are any. -/
def Panel.hear (heard : Window → Option (List UInt8)) (p : Panel) : Panel :=
  match heard p.window with
  | some bytes => p.receive bytes
  | none => p

@[simp] theorem Panel.window_hear (heard : Window → Option (List UInt8)) (p : Panel) :
    (p.hear heard).window = p.window := by
  rw [hear]
  split
  · rfl
  · rfl

theorem Listener.panel?_hear (heard : Window → Option (List UInt8)) (l : Listener) :
    (l.hear heard).panel? = l.panel?.map (·.hear heard) := by
  cases l with
  | probe window =>
    rw [Listener.hear]
    split
    · rfl
    · rfl
  | panel p =>
    rw [Listener.hear, panel?, Option.map_some, Panel.hear, Panel.window]
    cases heard (panel p).window with
    | none => rfl
    | some bytes => rfl

theorem Controller.devices_hear (heard : Window → Option (List UInt8)) (c : Controller) :
    (c.hear heard).devices = c.devices.map (·.hear heard) := by
  rw [devices, devices, hear, List.filterMap_map, List.map_filterMap]
  congr 1
  funext l
  exact l.panel?_hear heard

/-- After a store every panel heard what was given to its window. -/
theorem Machine.devices_store (m : Machine) (start : Nat) (bytes : List UInt8) :
    (m.store start bytes).devices =
      m.devices.map (·.hear (Window.given (m.memory.overlay start bytes) start bytes.length)) := by
  rw [devices, devices, controllers_store, List.flatMap_map, List.map_flatMap]
  congr 1
  funext c
  exact c.devices_hear _

/-! ## Windows that are touched -/

/-- Bytes put down beside a window leave it alone. -/
theorem Window.slice_overlay_of_not_overlaps {w : Window} {m : Memory} {start : Nat}
    {bytes : List UInt8} (hbase : 0 ≤ w.base) (hsize : (w.size : Int) ≤ Word.greatest)
    (hlength : (bytes.length : Int) ≤ Word.greatest)
    (h : w.overlaps start bytes.length = false) :
    (m.overlay start bytes).slice w.base.toNat w.size = m.slice w.base.toNat w.size := by
  apply Memory.slice_congr
  intro k hk
  apply Memory.cell_overlay_of_outside
  by_contra hinside
  have hoverlaps : w.overlaps start bytes.length = true := by
    rw [overlaps, Word.inRange_natCast hlength, Word.inRange_natCast hsize]
    simp only [Bool.and_true, Bool.and_eq_true, decide_eq_true_eq]
    omega
  simp [hoverlaps] at h

/-- The event tells of a write that touches the window. -/
def Window.touchedBy (w : Window) : Event → Bool
  | .memory address length => w.overlaps address length
  | _ => false

theorem Event.isWrite_of_isDelivery {e : Event} (h : e.isDelivery = true) : e.isWrite = false := by
  cases e with
  | delivery i window base size bytes => rfl
  | _ => simp [isDelivery] at h

theorem Window.any_touchedBy_of_quiet (w : Window) {es : List Event}
    (h : ∀ e ∈ es, e.isWrite = false) : es.any w.touchedBy = false := by
  rw [List.any_eq_false]
  intro e he
  have hquiet := h e he
  cases e with
  | memory address length => simp [Event.isWrite] at hquiet
  | _ => simp [touchedBy]

namespace Machine

/-- The events entered into the journal of `m` since it was that of `m₀`, newest first. -/
def eventsSince (m m₀ : Machine) : List Event :=
  m.journal.take (m.journal.length - m₀.journal.length)

/-- The window was touched by a write since the journal was that of `m₀`. -/
def touchedSince (m m₀ : Machine) (w : Window) : Bool := (m.eventsSince m₀).any w.touchedBy

theorem touchedSince_of_journal {m m₀ : Machine} {recent : List Event}
    (h : m.journal = recent ++ m₀.journal) (w : Window) :
    m.touchedSince m₀ w = recent.any w.touchedBy := by
  rw [touchedSince, eventsSince, h, List.length_append, Nat.add_sub_cancel, List.take_left]

theorem devices_detachAll (m : Machine) : m.detachAll.devices = [] := by
  rw [devices, detachAll, List.flatMap_map, List.flatMap_eq_nil_iff]
  exact fun _ _ => rfl

/-! ## What a processor does to panels -/

/-- What happened to `m₀` up to `m`: a panel whose window was touched shows it, and a panel whose
window was not touched is as it was, and so is the window. -/
structure Told (m₀ m : Machine) : Prop where
  size_le : (m.memory.size : Int) ≤ Word.greatest
  inside : ∀ p ∈ m.devices, p.window.inside m.memory.size = true
  heard : ∃ recent, m.journal = recent ++ m₀.journal ∧
    ∀ p ∈ m.devices,
      (recent.any p.window.touchedBy = true → p.Shows m.memory) ∧
        (recent.any p.window.touchedBy = false →
          p ∈ m₀.devices ∧
            m.memory.slice p.address.toNat p.size = m₀.memory.slice p.address.toNat p.size)

variable {m₀ m : Machine}

theorem Told.refl (hsize : (m.memory.size : Int) ≤ Word.greatest)
    (hinside : ∀ p ∈ m.devices, p.window.inside m.memory.size = true) : Told m m :=
  ⟨hsize, hinside, [], rfl, fun _ hp => ⟨by simp, fun _ => ⟨hp, rfl⟩⟩⟩

/-- Events that tell of no write do not matter to panels. -/
theorem Told.quiet {m' : Machine} (h : Told m₀ m) (hmemory : m'.memory = m.memory)
    (hdevices : m'.devices = m.devices) {es : List Event} (hjournal : m'.journal = es ++ m.journal)
    (hquiet : ∀ e ∈ es, e.isWrite = false) : Told m₀ m' := by
  obtain ⟨recent, hrecent, hpanels⟩ := h.heard
  refine ⟨by rw [hmemory]; exact h.size_le, by rw [hmemory, hdevices]; exact h.inside,
    es ++ recent, by rw [hjournal, hrecent, List.append_assoc], ?_⟩
  intro p hp
  rw [hdevices] at hp
  rw [List.any_append, p.window.any_touchedBy_of_quiet hquiet, Bool.false_or, hmemory]
  exact hpanels p hp

/-- A write that touches the window of a panel makes the panel show it, and any other write leaves
both alone. -/
theorem Told.store (h : Told m₀ m) {start : Nat} {bytes : List UInt8}
    (hroom : start + bytes.length ≤ m.memory.size) : Told m₀ (m.store start bytes) := by
  obtain ⟨recent, hrecent, hpanels⟩ := h.heard
  obtain ⟨es, hjournal, hdelivered⟩ := journal_store m start bytes
  have hquiet : ∀ e ∈ es, e.isWrite = false :=
    fun e he => Event.isWrite_of_isDelivery (hdelivered e he)
  have hlength := h.size_le
  -- every panel comes from one that listened to the same window
  have hdevices : ∀ p ∈ (m.store start bytes).devices, ∃ q ∈ m.devices,
      q.hear (Window.given (m.memory.overlay start bytes) start bytes.length) = p := by
    intro p hp
    rw [devices_store] at hp
    exact List.mem_map.1 hp
  refine ⟨?_, ?_, .memory start bytes.length :: (es ++ recent), ?_, ?_⟩
  · rw [memory_store, Memory.size_overlay]
    exact hlength
  · intro p hp
    obtain ⟨q, hq, rfl⟩ := hdevices p hp
    rw [Panel.window_hear, memory_store, Memory.size_overlay]
    exact h.inside q hq
  · rw [hjournal, hrecent, List.cons_append, List.append_assoc]
  · intro p hp
    obtain ⟨q, hq, rfl⟩ := hdevices p hp
    have hinside := h.inside q hq
    rw [Panel.window_hear, List.any_cons, List.any_append, q.window.any_touchedBy_of_quiet hquiet,
      Bool.false_or, Window.touchedBy, memory_store]
    cases hoverlaps : q.window.overlaps start bytes.length with
    | true =>
      -- the panel was given the contents of its window
      have hgiven : q.window.given (m.memory.overlay start bytes) start bytes.length =
          some ((m.memory.overlay start bytes).slice q.address.toNat q.size) := by
        rw [Window.given, hoverlaps, Memory.size_overlay, hinside]
        rfl
      rw [Panel.hear, hgiven]
      exact ⟨fun _ => rfl, by simp⟩
    | false =>
      have hgiven : q.window.given (m.memory.overlay start bytes) start bytes.length = none := by
        rw [Window.given, hoverlaps]
        rfl
      have hslice : (m.memory.overlay start bytes).slice q.address.toNat q.size =
          m.memory.slice q.address.toNat q.size := by
        simp only [Window.inside, Bool.and_eq_true, decide_eq_true_eq] at hinside
        exact q.window.slice_overlay_of_not_overlaps hinside.1 (by omega) (by omega) hoverlaps
      rw [Panel.hear, hgiven, Bool.false_or, Panel.Shows, hslice]
      exact hpanels q hq

/-- Whatever a processor does is told to the panels. -/
theorem kept_told (m₀ : Machine) : Kept (Told m₀) where
  fetch := fun {m} address h => by
    have hquiet : ∀ e ∈ [Event.fetch address], e.isWrite = false := by simp [Event.isWrite]
    exact h.quiet rfl rfl rfl hquiet
  edit := fun change h =>
    h.quiet rfl rfl (journal_adopt _ _) fun e he =>
      Cpu.quiet_edit _ change e (List.mem_reverse.1 he)
  store := fun hroom h => h.store hroom
  detach := fun {m} h => by
    obtain ⟨recent, hrecent, -⟩ := h.heard
    have hnone : ∀ p, p ∉ m.detachAll.devices := by simp [devices_detachAll]
    exact ⟨h.size_le, fun p hp => absurd hp (hnone p), recent, hrecent,
      fun p hp => absurd hp (hnone p)⟩

end Machine

end Breadboard
