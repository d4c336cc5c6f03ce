import Breadboard.Action
import Breadboard.Proofs.Memory

/-!
# What an action can do

The effects of an action stand in its tree, so what it can do is read off the tree before it runs.
An action stays within a set of effects if every edit and every store in the tree belongs to it
(`Action.Within`), and a property that these effects keep is kept by the run (`Within.run`). An
action that only reads leaves the machine alone (`Reads.run`). Without a failure in the tree, only
an access to memory can fail (`Unfailing.exists_memory`); without an access either, the action
succeeds (`Sure.exists_run`). An action is atomic if a failure leaves the machine as it was: so is a
sure action, and an action that reads first and is atomic from there on (`Reads.atomic`).
-/

namespace Breadboard.Action

variable {α β : Type}

/-! ## Two actions in sequence -/

/-- In sequence, actions succeed when the first one does and the second one does from there on. -/
theorem run_bind_eq_ok_iff {x : Action α} {f : α → Action β} {m m' : Machine} {b : β} :
    (x >>= f).run m = (.ok b, m') ↔
      ∃ a m₁, x.run m = (.ok a, m₁) ∧ (f a).run m₁ = (.ok b, m') := by
  show (x.bind f).run m = _ ↔ _
  rw [run_bind]
  cases hx : x.run m with
  | mk r m₁ =>
    cases r with
    | error e => simp
    | ok a =>
      constructor
      · exact fun hf => ⟨a, m₁, rfl, hf⟩
      · rintro ⟨a', m₂, heq, hf⟩
        obtain ⟨hr, rfl⟩ := Prod.mk.inj heq
        obtain rfl := Except.ok.inj hr
        exact hf

/-- They fail when the first one does, or the second one from where the first one ended. -/
theorem run_bind_eq_error_iff {x : Action α} {f : α → Action β} {m m' : Machine} {e : ExecError} :
    (x >>= f).run m = (.error e, m') ↔
      x.run m = (.error e, m') ∨ ∃ a m₁, x.run m = (.ok a, m₁) ∧ (f a).run m₁ = (.error e, m') := by
  show (x.bind f).run m = _ ↔ _
  rw [run_bind]
  cases hx : x.run m with
  | mk r m₁ =>
    cases r with
    | error e' => simp
    | ok a =>
      constructor
      · exact fun hf => Or.inr ⟨a, m₁, rfl, hf⟩
      · rintro (heq | ⟨a', m₂, heq, hf⟩)
        · simp at heq
        · obtain ⟨hr, rfl⟩ := Prod.mk.inj heq
          obtain rfl := Except.ok.inj hr
          exact hf

/-! ## Access to memory -/

section Access

variable {m : Machine} {address : Int} {length : Nat}

/-- A load from a range that exists gives the number that its bytes write. -/
theorem run_load_of_contains (hlength : length < 8) (h : m.memory.Contains address length)
    (k : Int → Action α) : (Action.load address length k).run m =
      (k (Word.natOfBytes (m.memory.slice address.toNat length))).run m := by
  rw [run, Memory.readUnsigned_of_contains hlength h]

theorem run_load_of_not_contains (h : ¬ m.memory.Contains address length) (k : Int → Action α) :
    (Action.load address length k).run m =
      (.error (.memory (Memory.outside address length)), m) := by
  rw [run, Memory.readUnsigned_of_not_contains h]

/-- A store to a range that exists puts the bytes there. -/
theorem run_store_of_contains (h : m.memory.Contains address length) (v : Int) (k : Action α) :
    (Action.store address length v k).run m =
      k.run (m.store address.toNat (Word.toBytes v length)) := by
  rw [run, Machine.write_of_contains h]

theorem run_store_of_not_contains (h : ¬ m.memory.Contains address length) (v : Int)
    (k : Action α) : (Action.store address length v k).run m =
      (.error (.memory (Memory.outside address length)), m) := by
  rw [run, Machine.write_of_not_contains h]

end Access

/-! ## Effects in the tree -/

/-- Every edit in the tree belongs to `edits`, and there is a store only if `stores` holds. -/
def Within (edits : Cpu.Edit → Prop) (stores : Prop) : Action α → Prop
  | .done _ => True
  | .fail _ => True
  | .register _ k => ∀ v, (k v).Within edits stores
  | .flag _ k => ∀ on, (k on).Within edits stores
  | .edit change k => edits change ∧ k.Within edits stores
  | .load _ _ k => ∀ v, (k v).Within edits stores
  | .store _ _ _ k => stores ∧ k.Within edits stores

/-- The tree has neither edits nor stores. -/
def Reads (x : Action α) : Prop := x.Within (fun _ => False) False

/-- The tree has no failure. -/
def Unfailing : Action α → Prop
  | .done _ => True
  | .fail _ => False
  | .register _ k => ∀ v, (k v).Unfailing
  | .flag _ k => ∀ on, (k on).Unfailing
  | .edit _ k => k.Unfailing
  | .load _ _ k => ∀ v, (k v).Unfailing
  | .store _ _ _ k => k.Unfailing

/-- The tree has neither loads nor stores, and no failure. -/
def Sure : Action α → Prop
  | .done _ => True
  | .fail _ => False
  | .register _ k => ∀ v, (k v).Sure
  | .flag _ k => ∀ on, (k on).Sure
  | .edit _ k => k.Sure
  | .load _ _ _ => False
  | .store _ _ _ _ => False

/-- A failure leaves the machine as it was. -/
def Atomic (x : Action α) : Prop :=
  ∀ (m m' : Machine) (e : ExecError), x.run m = (.error e, m') → m' = m

section Within

variable {edits edits' : Cpu.Edit → Prop} {stores stores' : Prop}

theorem Within.mono {x : Action α} (h : x.Within edits stores)
    (hedits : ∀ change, edits change → edits' change) (hstores : stores → stores') :
    x.Within edits' stores' := by
  induction x with
  | done a => trivial
  | fail e => trivial
  | register i k ih => exact fun v => ih v (h v)
  | flag kind k ih => exact fun on => ih on (h on)
  | edit change k ih => exact ⟨hedits change h.1, ih h.2⟩
  | load a n k ih => exact fun v => ih v (h v)
  | store a n v k ih => exact ⟨hstores h.1, ih h.2⟩

theorem Within.bind {x : Action α} {f : α → Action β} (hx : x.Within edits stores)
    (hf : ∀ a, (f a).Within edits stores) : (x >>= f).Within edits stores := by
  show (x.bind f).Within edits stores
  induction x with
  | done a => exact hf a
  | fail e => trivial
  | register i k ih => exact fun v => ih v (hx v)
  | flag kind k ih => exact fun on => ih on (hx on)
  | edit change k ih => exact ⟨hx.1, ih hx.2⟩
  | load a n k ih => exact fun v => ih v (hx v)
  | store a n v k ih => exact ⟨hx.1, ih hx.2⟩

/-- What the effects of an action keep, the action keeps, whether it succeeds or fails. -/
theorem Within.run {P : Machine → Prop} {x : Action α} (h : x.Within edits stores)
    (hedit : ∀ {m} change, edits change → P m → P (m.edit change))
    (hstore : ∀ {m start bytes}, stores → P m → P (m.store start bytes)) {m : Machine} (hm : P m) :
    P (x.run m).2 := by
  induction x generalizing m with
  | done a => exact hm
  | fail e => exact hm
  | register i k ih => exact ih _ (h _) hm
  | flag kind k ih => exact ih _ (h _) hm
  | edit change k ih => exact ih h.2 (hedit change h.1 hm)
  | load a n k ih =>
    rw [Action.run]
    split
    · exact hm
    · exact ih _ (h _) hm
  | store a n v k ih =>
    rw [Action.run, Machine.write]
    -- a write that is refused changes nothing
    cases m.memory.locate a n with
    | error e => exact hm
    | ok start => exact ih h.2 (hstore h.1 hm)

end Within

/-! ## Actions that only read -/

namespace Reads

variable {x : Action α}

/-- Reading is within every set of effects. -/
theorem within (h : x.Reads) (edits : Cpu.Edit → Prop) (stores : Prop) : x.Within edits stores :=
  Within.mono h (fun _ => False.elim) False.elim

theorem bind {f : α → Action β} (hx : x.Reads) (hf : ∀ a, (f a).Reads) : (x >>= f).Reads :=
  Within.bind hx hf

/-- Reading leaves the machine as it was. -/
theorem run (h : x.Reads) (m : Machine) : (x.run m).2 = m :=
  Within.run (P := fun m' => m' = m) h (fun _ h _ => h.elim) (fun h _ => h.elim) rfl

theorem eq_of_run (h : x.Reads) {m m' : Machine} {r : Except ExecError α}
    (hrun : x.run m = (r, m')) : m' = m := by
  rw [← h.run m, hrun]

/-- A sequence that begins with reading is atomic if it is atomic from there on. -/
theorem atomic {f : α → Action β} (hx : x.Reads) (hf : ∀ a, (f a).Atomic) : (x >>= f).Atomic := by
  intro m m' e hrun
  rcases run_bind_eq_error_iff.1 hrun with hfirst | ⟨a, m₁, hfirst, hsecond⟩
  · exact hx.eq_of_run hfirst
  · obtain rfl := hx.eq_of_run hfirst
    exact hf a _ _ _ hsecond

end Reads

/-! ## Actions that cannot fail -/

namespace Unfailing

variable {x : Action α}

theorem bind {f : α → Action β} (hx : x.Unfailing) (hf : ∀ a, (f a).Unfailing) :
    (x >>= f).Unfailing := by
  show (x.bind f).Unfailing
  induction x with
  | done a => exact hf a
  | fail e => exact hx.elim
  | register i k ih => exact fun v => ih v (hx v)
  | flag kind k ih => exact fun on => ih on (hx on)
  | edit change k ih => exact ih hx
  | load a n k ih => exact fun v => ih v (hx v)
  | store a n v k ih => exact ih hx

/-- Only an access to memory can fail. -/
theorem exists_memory (h : x.Unfailing) {m m' : Machine} {e : ExecError}
    (hrun : x.run m = (.error e, m')) : ∃ bounds, e = .memory bounds := by
  induction x generalizing m with
  | done a => simp [run] at hrun
  | fail e => exact h.elim
  | register i k ih => exact ih _ (h _) hrun
  | flag kind k ih => exact ih _ (h _) hrun
  | edit change k ih => exact ih h hrun
  | load a n k ih =>
    rw [run] at hrun
    split at hrun
    next bounds _ =>
      obtain ⟨he, -⟩ := Prod.mk.inj hrun
      exact ⟨bounds, (Except.error.inj he).symm⟩
    next v _ => exact ih v (h v) hrun
  | store a n v k ih =>
    by_cases hin : m.memory.Contains a n
    · rw [run_store_of_contains hin] at hrun
      exact ih h hrun
    · rw [run_store_of_not_contains hin] at hrun
      obtain ⟨he, -⟩ := Prod.mk.inj hrun
      exact ⟨_, (Except.error.inj he).symm⟩

end Unfailing

namespace Sure

variable {x : Action α}

theorem unfailing (h : x.Sure) : x.Unfailing := by
  induction x with
  | done a => trivial
  | fail e => exact h.elim
  | register i k ih => exact fun v => ih v (h v)
  | flag kind k ih => exact fun on => ih on (h on)
  | edit change k ih => exact ih h
  | load a n k => exact h.elim
  | store a n v k => exact h.elim

/-- A sure action succeeds. -/
theorem exists_run (h : x.Sure) (m : Machine) : ∃ a m', x.run m = (.ok a, m') := by
  induction x generalizing m with
  | done a => exact ⟨a, m, rfl⟩
  | fail e => exact h.elim
  | register i k ih => exact ih _ (h _) m
  | flag kind k ih => exact ih _ (h _) m
  | edit change k ih => exact ih h _
  | load a n k => exact h.elim
  | store a n v k => exact h.elim

theorem atomic (h : x.Sure) : x.Atomic := by
  intro m m' e hrun
  obtain ⟨a, m₁, hok⟩ := h.exists_run m
  simp [hok] at hrun

end Sure

/-- A store that is refused changes nothing, and what follows it cannot fail. -/
theorem atomic_store {address : Int} {length : Nat} {v : Int} {k : Action α} (h : k.Sure) :
    (Action.store address length v k).Atomic := by
  intro m m' e hrun
  by_cases hin : m.memory.Contains address length
  · rw [run_store_of_contains hin] at hrun
    obtain ⟨a, m₁, hok⟩ := h.exists_run (m.store address.toNat (Word.toBytes v length))
    simp [hok] at hrun
  · rw [run_store_of_not_contains hin] at hrun
    exact (Prod.mk.inj hrun).2.symm

end Breadboard.Action
