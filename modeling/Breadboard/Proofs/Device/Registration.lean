import Breadboard.Device.Controller
import Mathlib.Algebra.Order.Floor.Div
import Mathlib.Data.List.DropRight
import Mathlib.Tactic

/-!
# Registering devices

A controller serves requests that create a device or delete all of them (`Controller.serve`).
Whether a device is created does not depend on the devices that are there (`attach_cases`). So after
any requests the controller holds the panels that were asked for since the last deletion, in order,
each with its position for its rank (`registered_after`).

Behind a controller are three collections: the windows, the devices and the rank that comes next. A
device is built by a factory that may change all of them before it is known whether the device can
be had (`Roster.create`). No factory leaves a trace of a device that it refuses, so the collections
are at any time those of the controller (`Roster.create_roster`, `Roster.after_eq`). The main
statement is `Roster.registration_consistent`.
-/

namespace Breadboard

/-! ## Requests -/

namespace Descriptor

/-- The decimal number that a parameter gives, if it gives one. -/
def number? (d : Descriptor) (index : Nat) : Option Int :=
  d.params[index]?.bind fun text => Numeral.int? 10 text.toList

/-- The number of lamps and the address of the panel that is asked for: the name is that of panels,
the first parameter is a positive number, and the second one is not negative. -/
def panel? (d : Descriptor) : Option (Nat × Int) :=
  match d.number? 0, d.number? 1 with
  | some count, some address =>
    if d.name = Panel.deviceName ∧ 0 < count ∧ 0 ≤ address then some (count.toNat, address)
    else none
  | _, _ => none

end Descriptor

/-- What a controller is asked to do. -/
inductive Request where
  | create (d : Descriptor)
  | deleteAll
  deriving DecidableEq, Repr

namespace Request

def isCreate : Request → Bool
  | .create _ => true
  | .deleteAll => false

/-- The panel that is created, if one is. -/
def panel? : Request → Option (Nat × Int)
  | .create d => d.panel?
  | .deleteAll => none

/-- The panels that are created after the last deletion, in order. -/
def made (requests : List Request) : List (Nat × Int) :=
  (requests.rtakeWhile isCreate).filterMap panel?

theorem made_append_create (requests : List Request) (d : Descriptor) :
    made (requests ++ [.create d]) = made requests ++ d.panel?.toList := by
  rw [made, List.rtakeWhile_concat_pos _ _ _ rfl, List.filterMap_append, ← made]
  cases hpanel : d.panel? with
  | none => simp [panel?, hpanel]
  | some p => simp [panel?, hpanel]

theorem made_append_deleteAll (requests : List Request) : made (requests ++ [.deleteAll]) = [] := by
  rw [made, List.rtakeWhile_concat_neg _ _ _ Bool.false_ne_true]
  rfl

end Request

/-! ## Controllers -/

namespace Panel

theorem parameter_of_number? {d : Descriptor} {index : Nat} {v : Int}
    (h : d.number? index = some v) (what : String) : parameter d index what = .ok v := by
  obtain ⟨text, htext, hv⟩ := Option.bind_eq_some_iff.1 h
  simp only [parameter, htext, hv]

theorem parameter_of_number?_eq_none {d : Descriptor} {index : Nat} (h : d.number? index = none)
    (what : String) : ∃ e, parameter d index what = .error e := by
  rw [parameter]
  split
  next => exact ⟨_, rfl⟩
  next text htext =>
    have hnone : Numeral.int? 10 text.toList = none := by simpa [Descriptor.number?, htext] using h
    rw [hnone]
    exact ⟨_, rfl⟩

/-- Two parameters that are numbers are refused only for what numbers they are. -/
theorem create_of_numbers {d : Descriptor} {count address : Int} (hcount : d.number? 0 = some count)
    (haddress : d.number? 1 = some address) (rank : Nat) :
    create rank d =
      if count ≤ 0 then .error (.invalidParameter d.name s!"lamp count {count} must be positive")
      else if address < 0 then .error (.invalidParameter d.name s!"address {address} is negative")
      else .ok { rank, count := count.toNat, address } := by
  rw [create, parameter_of_number? hcount, parameter_of_number? haddress]

/-- A panel is created as it is asked for, and a refusal does not depend on the rank. -/
theorem create_cases {d : Descriptor} (hname : d.name = deviceName) :
    (∃ count address, d.panel? = some (count, address) ∧
      ∀ rank, create rank d = .ok { rank, count, address }) ∨
    (d.panel? = none ∧ ∃ e, ∀ rank, create rank d = .error e) := by
  cases hcount : d.number? 0 with
  | none =>
    obtain ⟨e, he⟩ := parameter_of_number?_eq_none hcount "lamp count"
    refine Or.inr ⟨by simp [Descriptor.panel?, hcount], e, ?_⟩
    intro rank
    rw [create, he]
  | some count =>
    cases haddress : d.number? 1 with
    | none =>
      obtain ⟨e, he⟩ := parameter_of_number?_eq_none haddress "address"
      refine Or.inr ⟨by simp [Descriptor.panel?, haddress], e, ?_⟩
      intro rank
      rw [create, parameter_of_number? hcount]
      dsimp only
      rw [he]
    | some address =>
      simp only [create_of_numbers hcount haddress]
      by_cases hpositive : count ≤ 0
      · refine Or.inr ⟨?_, _, fun rank => if_pos hpositive⟩
        simp [Descriptor.panel?, hcount, haddress, hpositive]
      · simp only [if_neg hpositive]
        by_cases hnegative : address < 0
        · refine Or.inr ⟨?_, _, fun rank => if_pos hnegative⟩
          simp [Descriptor.panel?, hcount, haddress, hnegative]
        · refine Or.inl ⟨count.toNat, address, ?_, fun rank => if_neg hnegative⟩
          have hasked : d.name = deviceName ∧ 0 < count ∧ 0 ≤ address :=
            ⟨hname, not_le.1 hpositive, not_lt.1 hnegative⟩
          simp only [Descriptor.panel?, hcount, haddress, if_pos hasked]

end Panel

namespace Controller

variable {c : Controller}

/-- Serves a request. The controller stays as it is if a device is refused. -/
def serve (c : Controller) : Request → Except DeviceError Unit × Controller
  | .create d =>
    match c.attach d with
    | .error e => (.error e, c)
    | .ok next => (.ok (), next)
  | .deleteAll => (.ok (), c.detachAll)

/-- A new controller after it served `requests`. -/
def after (requests : List Request) : Controller :=
  requests.foldl (fun c request => (c.serve request).2) {}

theorem after_append (requests : List Request) (request : Request) :
    after (requests ++ [request]) = ((after requests).serve request).2 := by
  rw [after, List.foldl_concat]
  rfl

/-- Adds a panel behind the other listeners. -/
def addPanel (c : Controller) (count : Nat) (address : Int) : Controller :=
  { c with listeners := c.listeners ++ [.panel { rank := c.devices.length, count, address }] }

/-- Whether a device is attached, and why not, depends on its descriptor only. -/
theorem attach_cases (d : Descriptor) :
    (∃ count address, d.panel? = some (count, address) ∧
      ∀ c : Controller, c.attach d = .ok (c.addPanel count address)) ∨
    (d.panel? = none ∧ ∃ e, ∀ c : Controller, c.attach d = .error e) := by
  by_cases hname : d.name = Panel.deviceName
  · rcases Panel.create_cases hname with ⟨count, address, hpanel, hcreate⟩ | ⟨hpanel, e, hcreate⟩
    · refine Or.inl ⟨count, address, hpanel, ?_⟩
      intro c
      rw [attach, if_pos hname, hcreate]
      rfl
    · refine Or.inr ⟨hpanel, e, ?_⟩
      intro c
      rw [attach, if_pos hname, hcreate]
      rfl
  · refine Or.inr ⟨?_, .unknown d.name, fun c => by rw [attach, if_neg hname]⟩
    rw [Descriptor.panel?]
    split
    · rw [if_neg fun h => hname h.1]
    · rfl

/-- The panel with these lamps at this address and with the rank behind them, before any byte was
delivered to it. -/
def fresh (p : (Nat × Int) × Nat) : Panel := { rank := p.2, count := p.1.1, address := p.1.2 }

/-- The controller listens for these panels, ranked by their positions, and for nothing else. -/
def Registered (c : Controller) (panels : List (Nat × Int)) : Prop :=
  c.listeners = (panels.zipIdx.map fresh).map .panel

variable {panels : List (Nat × Int)}

theorem Registered.devices_eq (h : c.Registered panels) : c.devices = panels.zipIdx.map fresh := by
  have hpanel : Listener.panel? ∘ Listener.panel = some := rfl
  rw [devices, h, List.filterMap_map, hpanel, List.filterMap_some]

/-- There is one window for every panel, over as many bytes as its lamps need. -/
theorem Registered.windows_eq (h : c.Registered panels) :
    c.windows = panels.map fun p => ⟨"LED", p.2, p.1 ⌈/⌉ 8⟩ := by
  have hwindow : Listener.window ∘ Listener.panel ∘ fresh =
      (fun p : Nat × Int => ⟨"LED", p.2, p.1 ⌈/⌉ 8⟩) ∘ Prod.fst := by
    funext p
    rw [Function.comp_apply, Function.comp_apply, Function.comp_apply, Nat.ceilDiv_eq_add_pred_div]
    rfl
  rw [windows, h, List.map_map, List.map_map, Function.comp_assoc, hwindow, ← List.map_map,
    List.zipIdx_map_fst]

/-- What is delivered is delivered to a device. -/
theorem Registered.exists_device (h : c.Registered panels) {m : Memory} {address : Int}
    {length : Nat} {delivery : Delivery} (hmem : delivery ∈ c.deliveries m address length) :
    ∃ p ∈ c.devices, delivery.listener = .panel p := by
  obtain ⟨listener, hlistener, hdelivery⟩ := List.mem_filterMap.1 hmem
  obtain ⟨bytes, -, rfl⟩ := Option.map_eq_some_iff.1 hdelivery
  rw [h, ← h.devices_eq] at hlistener
  obtain ⟨p, hp, rfl⟩ := List.mem_map.1 hlistener
  exact ⟨p, hp, rfl⟩

theorem Registered.addPanel (h : c.Registered panels) (count : Nat) (address : Int) :
    (c.addPanel count address).Registered (panels ++ [(count, address)]) := by
  have hrank : c.devices.length = panels.length := by
    rw [h.devices_eq, List.length_map, List.length_zipIdx]
  rw [Registered, List.zipIdx_append, List.map_append, List.map_append, ← h, Nat.zero_add, ← hrank]
  rfl

/-- After any requests the controller holds what was created since the last deletion. -/
theorem registered_after (requests : List Request) :
    (after requests).Registered (Request.made requests) := by
  induction requests using List.reverseRecOn with
  | nil => rfl
  | append_singleton requests request ih =>
    rw [after_append]
    cases request with
    | deleteAll =>
      rw [Request.made_append_deleteAll]
      rfl
    | create d =>
      rw [Request.made_append_create, serve]
      rcases attach_cases d with ⟨count, address, hpanel, hattach⟩ | ⟨hpanel, e, hattach⟩
      · rw [hattach, hpanel]
        exact ih.addPanel count address
      · rw [hattach, hpanel, Option.toList_none, List.append_nil]
        exact ih

end Controller

/-! ## The collections behind a controller -/

/-- The windows, the devices and the rank of the next device, each for itself. -/
structure Roster where
  windows : List Window := []
  devices : List Panel := []
  nextRank : Nat := 0
  deriving DecidableEq, Repr

namespace Roster

/-- Builds the device of a given rank that a descriptor asks for. The roster may be changed even if
the device is refused. -/
abbrev Factory := Nat → Descriptor → Roster → Except DeviceError Panel × Roster

/-- Declares a window. -/
def declare (w : Window) (r : Roster) : Roster := { r with windows := r.windows ++ [w] }

/-- The factory of panels. -/
def panelFactory : Factory := fun rank d r =>
  match Panel.parameter d 0 "lamp count" with
  | .error e => (.error e, r)
  | .ok count =>
    match Panel.parameter d 1 "address" with
    | .error e => (.error e, r)
    | .ok address =>
      if count ≤ 0 then
        (.error (.invalidParameter d.name s!"lamp count {count} must be positive"), r)
      else if address < 0 then
        (.error (.invalidParameter d.name s!"address {address} is negative"), r)
      else
        let p : Panel := { rank, count := count.toNat, address }
        (.ok p, r.declare ⟨"LED", address, p.size⟩)

/-- The factories by the names of their devices. -/
def factories : List (String × Factory) := [(Panel.deviceName, panelFactory)]

/-- Creates the device that `d` asks for with the next rank. -/
def create (d : Descriptor) (r : Roster) : Except DeviceError Unit × Roster :=
  match factories.lookup d.name with
  | none => (.error (.unknown d.name), r)
  | some factory =>
    match factory r.nextRank d r with
    | (.error e, r) => (.error e, r)
    | (.ok p, r) => (.ok (), { r with nextRank := r.nextRank + 1, devices := r.devices ++ [p] })

/-- Serves a request. -/
def serve (r : Roster) : Request → Except DeviceError Unit × Roster
  | .create d => r.create d
  | .deleteAll => (.ok (), {})

/-- An empty roster after it served `requests`. -/
def after (requests : List Request) : Roster :=
  requests.foldl (fun r request => (r.serve request).2) {}

/-- The factory of panels declares the window of a panel that it creates, and nothing else. -/
theorem panelFactory_eq (rank : Nat) (d : Descriptor) (r : Roster) :
    panelFactory rank d r =
      match Panel.create rank d with
      | .error e => (.error e, r)
      | .ok p => (.ok p, r.declare (Listener.panel p).window) := by
  rw [panelFactory, Panel.create]
  cases Panel.parameter d 0 "lamp count" with
  | error e => rfl
  | ok count =>
    cases Panel.parameter d 1 "address" with
    | error e => rfl
    | ok address =>
      dsimp only
      by_cases hpositive : count ≤ 0
      · rw [if_pos hpositive, if_pos hpositive]
      · rw [if_neg hpositive, if_neg hpositive]
        by_cases hnegative : address < 0
        · rw [if_pos hnegative, if_pos hnegative]
        · rw [if_neg hnegative, if_neg hnegative]
          rfl

end Roster

/-- The collections of a controller. -/
def Controller.roster (c : Controller) : Roster := ⟨c.windows, c.devices, c.devices.length⟩

namespace Roster

/-- Creating a device changes the collections as it changes the controller. -/
theorem create_roster (c : Controller) (d : Descriptor) :
    c.roster.create d = ((c.serve (.create d)).1, (c.serve (.create d)).2.roster) := by
  rw [create, factories, List.lookup_cons, List.lookup_nil, Controller.serve, Controller.attach]
  by_cases hname : d.name = Panel.deviceName
  · rw [if_pos hname, hname, beq_self_eq_true]
    dsimp only
    rw [panelFactory_eq, Controller.roster]
    cases Panel.create c.devices.length d with
    | error e => rfl
    | ok p =>
      simp [Except.map, declare, Controller.roster, Controller.windows, Controller.devices,
        Listener.panel?]
  · rw [if_neg hname, beq_eq_false_iff_ne.2 hname]

theorem serve_roster (c : Controller) (request : Request) :
    c.roster.serve request = ((c.serve request).1, (c.serve request).2.roster) := by
  cases request with
  | create d => exact create_roster c d
  | deleteAll => rfl

/-- After any requests the collections are those of the controller. -/
theorem after_eq (requests : List Request) :
    after requests = (Controller.after requests).roster := by
  induction requests using List.reverseRecOn with
  | nil => rfl
  | append_singleton requests request ih =>
    have hstep : after (requests ++ [request]) = ((after requests).serve request).2 :=
      List.foldl_concat _ _ _ _
    rw [hstep, ih, serve_roster, Controller.after_append]

/-- A device that is refused leaves no trace. -/
theorem create_of_error {c : Controller} {d : Descriptor} {e : DeviceError}
    (h : (c.roster.create d).1 = .error e) : (c.roster.create d).2 = c.roster := by
  rw [create_roster, Controller.serve] at h ⊢
  cases hattach : c.attach d with
  | error e' => rfl
  | ok next =>
    rw [hattach] at h
    simp at h

/-- A device is created exactly if the descriptor asks for a panel. -/
theorem create_eq_ok_iff (c : Controller) (d : Descriptor) :
    (c.roster.create d).1 = .ok () ↔ d.panel?.isSome = true := by
  rw [create_roster, Controller.serve]
  rcases Controller.attach_cases d with ⟨count, address, hpanel, hattach⟩ | ⟨hpanel, e, hattach⟩
  · simp [hattach, hpanel]
  · simp [hattach, hpanel]

/-- After any requests to a new controller: its windows, its devices and the next rank are what the
requests made of the three collections, with the same answers. A device is created if its descriptor
asks for a panel, and otherwise nothing is changed. The devices are those that were created since
the last deletion, in order, with the ranks 0, 1, 2 and so on, and for each of them there is one
window over a byte for every eight lamps. A write calls nothing but devices, and nothing at all
right after a deletion. -/
theorem registration_consistent (requests : List Request) :
    let made := Request.made requests
    let c := Controller.after requests
    let r := after requests
    (r = c.roster ∧
      ∀ request, r.serve request = ((c.serve request).1, (c.serve request).2.roster)) ∧
    (∀ d, ((r.create d).1 = .ok () ↔ d.panel?.isSome = true) ∧
      ∀ e, (r.create d).1 = .error e → (r.create d).2 = r) ∧
    r.devices = made.zipIdx.map Controller.fresh ∧
    r.windows = made.map (fun p => ⟨"LED", p.2, p.1 ⌈/⌉ 8⟩) ∧
    r.nextRank = made.length ∧
    (∀ m address length, ∀ delivery ∈ c.deliveries m address length,
      ∃ p ∈ r.devices, delivery.listener = .panel p) ∧
    ∀ m address length,
      (Controller.after (requests ++ [.deleteAll])).deliveries m address length = [] := by
  intro made c r
  have hregistered : c.Registered made := Controller.registered_after requests
  have hr : r = c.roster := after_eq requests
  have hdevices : r.devices = c.devices := congrArg Roster.devices hr
  refine ⟨⟨hr, ?_⟩, ?_, ?_, ?_, ?_, ?_, ?_⟩
  · intro request
    rw [hr]
    exact serve_roster c request
  · intro d
    rw [hr]
    exact ⟨create_eq_ok_iff c d, fun e he => create_of_error he⟩
  · rw [hdevices, hregistered.devices_eq]
  · rw [hr]
    exact hregistered.windows_eq
  · have hrank : r.nextRank = c.devices.length := congrArg Roster.nextRank hr
    rw [hrank, hregistered.devices_eq, List.length_map, List.length_zipIdx]
  · intro m address length delivery hmem
    rw [hdevices]
    exact hregistered.exists_device hmem
  · intro m address length
    rw [Controller.after_append]
    rfl

/-- Two devices are created after a deletion, and others are refused for their name or for their
parameters. -/
theorem registration_consistent_panels :
    let refused : Descriptor := ⟨Panel.deviceName, ["8", "-1"]⟩
    let r := after [.create ⟨Panel.deviceName, ["8", "16"]⟩, .deleteAll,
      .create ⟨Panel.deviceName, ["12", "3"]⟩, .create ⟨"Printer", ["1"]⟩, .create refused,
      .create ⟨Panel.deviceName, ["8", "0"]⟩]
    r.devices = [⟨0, 12, 3, none⟩, ⟨1, 8, 0, none⟩] ∧
      r.windows = [⟨"LED", 3, 2⟩, ⟨"LED", 0, 1⟩] ∧ r.nextRank = 2 ∧
      (r.create refused).1 =
        .error (.invalidParameter Panel.deviceName "address -1 is negative") ∧
      (r.create refused).2 = r := by
  intro refused r
  obtain ⟨-, hcreate, hdevices, hwindows, hrank, -, -⟩ := registration_consistent
    [.create ⟨Panel.deviceName, ["8", "16"]⟩, .deleteAll, .create ⟨Panel.deviceName, ["12", "3"]⟩,
      .create ⟨"Printer", ["1"]⟩, .create refused, .create ⟨Panel.deviceName, ["8", "0"]⟩]
  obtain ⟨-, hunchanged⟩ := hcreate refused
  have hanswer : (r.create refused).1 =
      .error (.invalidParameter Panel.deviceName "address -1 is negative") := by decide
  exact ⟨hdevices.trans (by decide), hwindows.trans (by decide),
    hrank.trans (by decide), hanswer, hunchanged _ hanswer⟩

end Roster

end Breadboard
