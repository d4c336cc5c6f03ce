import Breadboard.Proofs.Board.Session
import Breadboard.Proofs.Device.Panels

/-!
# What the panels of a board show

A write is told to the panels, but zeroing memory is not. The instructions of the architectures in
the catalog change memory by writes only, so throughout a session a panel shows its window of memory,
unless memory was zeroed by a load or a reset and no write touched the window since then: in this
case the window is zero, and the panel still shows what it showed before (`panels_session`).
-/

namespace Breadboard

/-! ## Panels as they are attached -/

/-- A panel is created dark. -/
theorem Panel.delivered_of_create {rank : Nat} {d : Descriptor} {p : Panel}
    (h : create rank d = .ok p) : p.delivered = none := by
  rw [create] at h
  split at h
  · simp at h
  · split at h
    · simp at h
    · split at h
      · simp at h
      · split at h
        · simp at h
        · rw [← Except.ok.inj h]

/-- The panels that are attached are dark. -/
theorem Controller.delivered_of_attachAll {c c' : Controller} {ds : List Descriptor}
    (h : c.attachAll ds = .ok c') (hdark : ∀ p ∈ c.devices, p.delivered = none) :
    ∀ p ∈ c'.devices, p.delivered = none := by
  induction ds generalizing c with
  | nil =>
    obtain rfl := Except.ok.inj h
    exact hdark
  | cons d ds ih =>
    rw [attachAll] at h
    split at h
    next => simp at h
    next next hattach =>
      obtain ⟨p, hcreate, hdevices⟩ := devices_attach hattach
      apply ih h
      intro q hq
      rw [hdevices, List.mem_append, List.mem_singleton] at hq
      rcases hq with hold | rfl
      · exact hdark q hold
      · exact Panel.delivered_of_create hcreate

/-- Where the windows were checked, the window of every panel lies inside memory. -/
theorem Controller.inside_of_checkWindows {c : Controller} {size : Nat}
    (h : c.checkWindows size = .ok ()) : ∀ p ∈ c.devices, p.window.inside size = true := by
  intro p hp
  rw [checkWindows] at h
  split at h
  next => simp at h
  next hnone =>
    rw [List.find?_eq_none] at hnone
    obtain ⟨l, hl, hpanel⟩ := List.mem_filterMap.1 hp
    cases l with
    | probe w => simp [Listener.panel?] at hpanel
    | panel q =>
      obtain rfl := Option.some.inj hpanel
      rw [Panel.window]
      simpa using hnone _ (List.mem_map_of_mem hl)

namespace Board

/-! ## Sessions -/

/-- The board just before memory was zeroed for the last time in a session, if it ever was. -/
def lastCleared? (b : Board) : List Command → Option Board
  | [] => none
  | c :: rest => ((b.execute c).lastCleared? rest).or (if c.clears then some b else none)

/-- What happened since memory was zeroed for the last time was told to the panels. -/
theorem told_session {b : Board} {m₀ : Machine} (h : m₀.Told b.machine) (commands : List Command) :
    Machine.Told
      (match b.lastCleared? commands with
      | some before => before.machine.clearMemory
      | none => m₀)
      (b.session commands).machine := by
  induction commands generalizing b m₀ with
  | nil => exact h
  | cons c rest ih =>
    rw [session_cons, lastCleared?]
    cases hclears : c.clears with
    | false =>
      have hground : m₀.Told (b.ground c) := by
        rwa [ground, hclears]
      have hrest := ih ((Machine.kept_told m₀).execute c hground)
      cases hlast : (b.execute c).lastCleared? rest with
      | none => simpa [hlast] using hrest
      | some before => simpa [hlast] using hrest
    | true =>
      -- from here on the panels are compared with the machine whose memory was just zeroed
      have hground : b.machine.clearMemory.Told (b.ground c) := by
        have hsize : b.machine.clearMemory.memory.size = b.machine.memory.size :=
          Memory.size_cleared _
        rw [ground, if_pos hclears]
        apply Machine.Told.refl
        · rw [hsize]
          exact h.size_le
        · rw [hsize]
          exact h.inside
      have hrest := ih ((Machine.kept_told _).execute c hground)
      cases hlast : (b.execute c).lastCleared? rest with
      | none => simpa [hlast] using hrest
      | some before => simpa [hlast] using hrest

/-- A board is built with dark panels over zeroed memory that holds all their windows. -/
theorem told_of_buildOn {arch : Architecture} {config : BoardConfig} {b : Board}
    (hb : buildOn arch config = .ok b) (hsize : (b.machine.memory.size : Int) ≤ Word.greatest) :
    b.machine.Told b.machine ∧ b.machine.memory = .zeroed b.machine.memory.size ∧
      ∀ p ∈ b.machine.devices, p.delivered = none := by
  obtain ⟨controller, hattach, hcheck, hboard⟩ := exists_of_buildOn hb
  have hmemory : b.machine.memory = .zeroed (config.memory.resolve arch.sizes.address) := by
    rw [hboard]
    rfl
  have hdevices : b.machine.devices = controller.devices := by
    rw [hboard]
    exact List.append_nil _
  refine ⟨Machine.Told.refl hsize ?_, ?_, ?_⟩
  · rw [hdevices, hmemory, Memory.size_zeroed]
    exact controller.inside_of_checkWindows hcheck
  · rw [hmemory, Memory.size_zeroed]
  · rw [hdevices]
    exact Controller.delivered_of_attachAll hattach (by simp [Controller.devices])

/-- A board is built on the architecture of the catalog that has the name. -/
theorem exists_of_build {config : BoardConfig} {b : Board} (hb : build config = .ok b) :
    ∃ arch ∈ Catalog.architectures, buildOn arch config = .ok b := by
  rw [build] at hb
  split at hb
  next => simp at hb
  next arch hfound => exact ⟨arch, List.mem_of_find?_eq_some hfound, hb⟩

/-- Take a board that is built from the catalog, with a memory that is not larger than the greatest
number, as no memory is, and any session with it. A panel that is still attached shows its window of
memory if memory was never zeroed, or if a write touched the window since memory was zeroed for the
last time. Otherwise the window is zero, and the panel is as it was before memory was zeroed. -/
theorem panels_session {config : BoardConfig} {b : Board} (hb : build config = .ok b)
    (hsize : (b.machine.memory.size : Int) ≤ Word.greatest) (commands : List Command) {p : Panel}
    (hp : p ∈ (b.session commands).machine.devices) :
    let now := (b.session commands).machine
    (b.lastCleared? commands = none → p.Shows now.memory) ∧
      ∀ before, b.lastCleared? commands = some before →
        (now.touchedSince before.machine p.window = true → p.Shows now.memory) ∧
          (now.touchedSince before.machine p.window = false →
            now.memory.slice p.address.toNat p.size = List.replicate p.size 0 ∧
              p ∈ before.machine.devices) := by
  intro now
  obtain ⟨arch, -, hbuild⟩ := exists_of_build hb
  obtain ⟨hbuilt, hzero, hdark⟩ := told_of_buildOn hbuild hsize
  have htold := told_session hbuilt commands
  constructor
  · intro hnone
    rw [hnone] at htold
    obtain ⟨recent, -, hpanels⟩ := htold.heard
    obtain ⟨htouched, huntouched⟩ := hpanels p hp
    cases hany : recent.any p.window.touchedBy with
    | true => exact htouched hany
    | false =>
      -- nothing happened to the panel or to its window since the board was built
      obtain ⟨hmem, hslice⟩ := huntouched hany
      rw [Panel.Shows, hslice, hzero, Memory.slice_zeroed, Panel.bytes, hdark p hmem]
      rfl
  · intro before hlast
    rw [hlast] at htold
    obtain ⟨recent, hjournal, hpanels⟩ := htold.heard
    obtain ⟨htouched, huntouched⟩ := hpanels p hp
    have hany : now.touchedSince before.machine p.window = recent.any p.window.touchedBy :=
      Machine.touchedSince_of_journal hjournal p.window
    rw [hany]
    refine ⟨htouched, fun hnot => ?_⟩
    obtain ⟨hmem, hslice⟩ := huntouched hnot
    exact ⟨hslice.trans (Memory.slice_zeroed _ _ _), hmem⟩

/-- A program lights two lamps. -/
theorem panels_session_edu1 :
    ∃ b p, build ⟨"edu1", .bytes 16, [⟨"Led display", ["8", "9"]⟩]⟩ = .ok b ∧
      let now := (b.session [.load "MOVA #5\nSTA 9\n.END\n", .run 3]).machine
      p ∈ now.devices ∧ p.bytes = [5] ∧ p.Shows now.memory := by
  obtain ⟨b, hb, hsize, hp, htouched⟩ :
      ∃ b, build ⟨"edu1", .bytes 16, [⟨"Led display", ["8", "9"]⟩]⟩ = .ok b ∧
        (b.machine.memory.size : Int) ≤ Word.greatest ∧
        let now := (b.session [.load "MOVA #5\nSTA 9\n.END\n", .run 3]).machine
        ⟨0, 8, 9, some [5]⟩ ∈ now.devices ∧
          now.touchedSince b.machine (Panel.window ⟨0, 8, 9, some [5]⟩) = true :=
    ⟨_, rfl, by decide, by decide, by decide⟩
  obtain ⟨-, hcleared⟩ :=
    panels_session hb hsize [.load "MOVA #5\nSTA 9\n.END\n", .run 3] hp
  have hlast : b.lastCleared? [.load "MOVA #5\nSTA 9\n.END\n", .run 3] = some b := rfl
  exact ⟨b, _, hb, hp, rfl, (hcleared b hlast).1 htouched⟩

/-- A panel that was lit stays lit when a reset zeroes memory. -/
theorem panels_session_reset :
    ∃ b, build ⟨"edu1", .bytes 16, [⟨"Led display", ["8", "9"]⟩]⟩ = .ok b ∧
      let now := (b.session [.write 9 1 5, .reset]).machine
      ∃ p ∈ now.devices, p.bytes = [5] ∧ now.memory.slice p.address.toNat p.size = [0] ∧
        ¬ p.Shows now.memory :=
  ⟨_, rfl, by decide⟩

end Board

end Breadboard
