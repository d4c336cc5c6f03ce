import Breadboard.Text.Digits
import Mathlib.Tactic

/-!
# Digits and the numbers that they denote

A digit of either case stands for its position among the sixteen digits (`hexDigitValue`), and
digits denote a number by their positions (`numberOf`). Exactly the texts of at least one digit are
read, and they are read as the number that they denote (`value?_eq_some_iff`). The digits that are
written for a number are read back as that number (`valueFrom?_map_toDigits`), and different
integers are written differently (`decimalInt_injective`).
-/

namespace Breadboard.Text

/-! ## What a digit stands for -/

/-- What a hexadecimal digit stands for: its position among the digits. -/
def hexDigitValue (c : Char) : Nat := "0123456789ABCDEF".toList.idxOf c.toUpper

/-- A digit of base `base`, which is at most sixteen; its case does not matter. -/
def IsDigit (base : Nat) (c : Char) : Prop := hexDigitValue c < base

instance (base : Nat) (c : Char) : Decidable (IsDigit base c) :=
  inferInstanceAs (Decidable (_ < _))

theorem toNat_lt_of_isHexDigit {c : Char} (h : isHexDigit c = true) : c.toNat < 128 := by
  simp only [isHexDigit, isDecimalDigit, Bool.or_eq_true, Bool.and_eq_true, decide_eq_true_eq,
    Char.le_def, UInt32.le_iff_toNat_le] at h
  have h9 : '9'.val.toNat = 57 := rfl
  have hf : 'f'.val.toNat = 102 := rfl
  have hF : 'F'.val.toNat = 70 := rfl
  show c.val.toNat < 128
  omega

/-- Only the letters `a` to `z` have another upper case. -/
theorem toUpper_of_le {c : Char} (h : 128 ≤ c.toNat) : c.toUpper = c := by
  have hletter : ¬ ('a'.val ≤ c.val ∧ c.val ≤ 'z'.val) := by
    rintro ⟨-, hle⟩
    have hlast : c.toNat ≤ 122 := UInt32.le_iff_toNat_le.1 hle
    omega
  exact dif_neg hletter

theorem toNat_lt_of_isDigit {c : Char} (h : IsDigit 16 c) : c.toNat < 128 := by
  by_contra hlarge
  have hmem : c.toUpper ∈ "0123456789ABCDEF".toList := List.idxOf_lt_length_iff.1 h
  have htable : ("0123456789ABCDEF".toList.all fun d => d.toNat < 128) = true := by decide
  rw [toUpper_of_le (Nat.le_of_not_lt hlarge)] at hmem
  exact hlarge (of_decide_eq_true (List.all_eq_true.1 htable _ hmem))

theorem isHexDigit_iff {c : Char} : isHexDigit c = true ↔ IsDigit 16 c := by
  have hall : ∀ n : Fin 128, isHexDigit (Char.ofNat n) = true ↔ IsDigit 16 (Char.ofNat n) := by
    decide +kernel
  have hiff (hsmall : c.toNat < 128) : isHexDigit c = true ↔ IsDigit 16 c := by
    have hc := hall ⟨c.toNat, hsmall⟩
    rwa [Char.ofNat_toNat] at hc
  exact ⟨fun h => (hiff (toNat_lt_of_isHexDigit h)).1 h,
    fun h => (hiff (toNat_lt_of_isDigit h)).2 h⟩

/-- A hexadecimal digit is read as what it stands for, and no other character is read. -/
theorem digitValue?_sixteen (c : Char) :
    digitValue? 16 c = if IsDigit 16 c then some (hexDigitValue c) else none := by
  by_cases h : isHexDigit c = true
  · -- all digits are among the first characters
    have hall : ∀ n : Fin 128, isHexDigit (Char.ofNat n) = true →
        digitValue? 16 (Char.ofNat n) = some (hexDigitValue (Char.ofNat n)) := by
      decide
    have hc := hall ⟨c.toNat, toNat_lt_of_isHexDigit h⟩
    rw [Char.ofNat_toNat] at hc
    rw [hc h, if_pos (isHexDigit_iff.1 h)]
  · rw [if_neg fun hdigit => h (isHexDigit_iff.2 hdigit)]
    simp only [isHexDigit, Bool.or_eq_true, not_or, Bool.not_eq_true] at h
    obtain ⟨⟨hdecimal, hlower⟩, hupper⟩ := h
    simp [digitValue?, hdecimal, hlower, hupper]

/-- Up to base sixteen the bases differ only in how many of the digits they use. -/
theorem digitValue?_eq_filter {base : Nat} (hbase : base ≤ 16) (c : Char) :
    digitValue? base c = (digitValue? 16 c).filter (· < base) := by
  simp only [digitValue?]
  split_ifs <;> simp_all [Option.filter]
  all_goals omega

/-- A character is read exactly if it is a digit, and then as what it stands for. -/
theorem digitValue?_eq_some_iff {base d : Nat} (hbase : base ≤ 16) {c : Char} :
    digitValue? base c = some d ↔ IsDigit base c ∧ d = hexDigitValue c := by
  rw [digitValue?_eq_filter hbase, digitValue?_sixteen, Option.filter_eq_some_iff,
    Option.ite_none_right_eq_some, Option.some.injEq, decide_eq_true_eq]
  constructor
  · rintro ⟨⟨-, rfl⟩, hlt⟩
    exact ⟨hlt, rfl⟩
  · rintro ⟨hdigit, rfl⟩
    exact ⟨⟨Nat.lt_of_lt_of_le hdigit hbase, rfl⟩, hdigit⟩

/-! ## Numbers that are read -/

/-- The number that digits denote in base `base`, the last of them counting ones. -/
def numberOf (base : Nat) (ds : List Char) : Nat := Nat.ofDigits base (ds.map hexDigitValue).reverse

theorem numberOf_concat (base : Nat) (ds : List Char) (d : Char) :
    numberOf base (ds ++ [d]) = numberOf base ds * base + hexDigitValue d := by
  rw [numberOf, numberOf, List.map_append, List.map_singleton, List.reverse_append,
    List.reverse_singleton, List.singleton_append, Nat.ofDigits_cons]
  ring

variable {base : Nat}

/-- Digits are read as the number that they denote, and nothing else is read. -/
theorem valueFrom?_eq_some_iff (hbase : base ≤ 16) {cs : List Char} {n : Nat} :
    valueFrom? base 0 cs = some n ↔ (∀ c ∈ cs, IsDigit base c) ∧ n = numberOf base cs := by
  -- the digits in front of the last one count as many ones as the base says
  induction cs using List.reverseRecOn generalizing n with
  | nil => simp [valueFrom?, numberOf, eq_comm]
  | append_singleton cs c ih =>
    simp only [valueFrom?_append, valueFrom?, Option.bind_eq_some_iff, ih,
      digitValue?_eq_some_iff hbase, Option.some.injEq, numberOf_concat]
    constructor
    · rintro ⟨front, ⟨hfront, rfl⟩, d, ⟨hc, rfl⟩, rfl⟩
      exact ⟨List.forall_mem_append.2 ⟨hfront, List.forall_mem_singleton.2 hc⟩, rfl⟩
    · rintro ⟨hall, rfl⟩
      obtain ⟨hfront, hc⟩ := List.forall_mem_append.1 hall
      exact ⟨_, ⟨hfront, rfl⟩, _, ⟨List.forall_mem_singleton.1 hc, rfl⟩, rfl⟩

/-- Exactly the texts of at least one digit are read, as the number that they denote. -/
theorem value?_eq_some_iff (hbase : base ≤ 16) {cs : List Char} {n : Nat} :
    value? base cs = some n ↔ cs ≠ [] ∧ (∀ c ∈ cs, IsDigit base c) ∧ n = numberOf base cs := by
  rw [value?, Option.ite_none_left_eq_some, valueFrom?_eq_some_iff hbase]

theorem digitValue?_lt {d : Nat} {c : Char} (h : digitValue? base c = some d) : d < base := by
  obtain ⟨hlt, heq⟩ := Option.ite_none_right_eq_some.1 h
  obtain rfl := Option.some.inj heq
  exact hlt

/-- Every digit that is read on makes room for `base` times as many numbers. -/
theorem valueFrom?_lt {acc n : Nat} {cs : List Char} (h : valueFrom? base acc cs = some n) :
    n < (acc + 1) * base ^ cs.length := by
  induction cs generalizing acc with
  | nil =>
    obtain rfl := Option.some.inj h
    simp
  | cons c cs ih =>
    obtain ⟨d, hd, hrest⟩ := Option.bind_eq_some_iff.1 h
    have hdigit := digitValue?_lt hd
    have hacc : acc * base + d + 1 ≤ (acc + 1) * base := by
      rw [Nat.add_mul]
      omega
    calc n < (acc * base + d + 1) * base ^ cs.length := ih hrest
      _ ≤ (acc + 1) * base * base ^ cs.length := Nat.mul_le_mul_right _ hacc
      _ = (acc + 1) * base ^ (c :: cs).length := by
        rw [List.length_cons, Nat.pow_succ', Nat.mul_assoc]

/-! ## Numbers that are written -/

/-- What is written for a number is read back as that number, in whichever way `write` puts down a
digit that is read back. -/
theorem valueFrom?_map_toDigits (hbase : 1 < base) {write : Char → Char}
    (hwrite : ∀ d < base, digitValue? base (write (Nat.digitChar d)) = some d) (n : Nat) :
    valueFrom? base 0 ((Nat.toDigits base n).map write) = some n := by
  -- the digits in front of the last one write the quotient by the base
  induction n using Nat.strong_induction_on with
  | _ n ih =>
    rcases Nat.lt_or_ge n base with hlt | hge
    · rw [Nat.toDigits_of_lt_base hlt]
      simp [valueFrom?, hwrite n hlt]
    · have hlast := hwrite (n % base) (Nat.mod_lt n (by omega))
      rw [Nat.toDigits_of_base_le hbase hge, List.map_append, valueFrom?_append,
        ih (n / base) (Nat.div_lt_self (by omega) hbase), Option.bind_some, List.map_singleton,
        valueFrom?, hlast, Option.bind_some, valueFrom?, Nat.div_add_mod']

theorem value?_decimalDigits (n : Nat) : value? 10 (decimalDigits n) = some n := by
  have hwrite : ∀ d < 10, digitValue? 10 (id (Nat.digitChar d)) = some d := by decide
  have hread := valueFrom?_map_toDigits (by decide) hwrite n
  rw [List.map_id] at hread
  have hne : decimalDigits n ≠ [] := Nat.toDigits_ne_nil
  rw [value?, if_neg hne]
  exact hread

/-- The standard text of an integer is its digits behind the sign. -/
theorem toList_repr (v : Int) : v.repr.toList = decimalInt v := by
  have hnat (n : Nat) : n.repr.toList = decimalDigits n := String.toList_ofList
  cases v with
  | ofNat n =>
    have hnonneg : ¬ Int.ofNat n < 0 := Int.not_lt.2 (Int.natCast_nonneg n)
    rw [decimalInt, if_neg hnonneg]
    exact hnat n
  | negSucc n =>
    have hrepr : (Int.negSucc n).repr = "-" ++ (n + 1).repr := rfl
    rw [decimalInt, if_pos (Int.negSucc_lt_zero n), hrepr, String.toList_append, hnat]
    rfl

/-- A sign is no digit. -/
theorem not_isDigit_sign (hbase : base ≤ 16) : ¬ IsDigit base '-' ∧ ¬ IsDigit base '+' := by
  have hminus : hexDigitValue '-' = 16 := by decide
  have hplus : hexDigitValue '+' = 16 := by decide
  rw [IsDigit, IsDigit, hminus, hplus]
  omega

theorem isDigit_of_mem_decimalDigits {n : Nat} {c : Char} (h : c ∈ decimalDigits n) :
    IsDigit 10 c :=
  ((value?_eq_some_iff (by decide)).1 (value?_decimalDigits n)).2.1 c h

theorem decimalDigits_injective {m n : Nat} (h : decimalDigits m = decimalDigits n) : m = n := by
  have hread := value?_decimalDigits m
  rw [h, value?_decimalDigits] at hread
  exact (Option.some.inj hread).symm

theorem decimalDigits_ne_minus (n : Nat) (ds : List Char) : decimalDigits n ≠ '-' :: ds := by
  intro heq
  have hminus : '-' ∈ decimalDigits n := by
    rw [heq]
    exact List.mem_cons_self
  exact (not_isDigit_sign (by decide)).1 (isDigit_of_mem_decimalDigits hminus)

/-- Different integers are written differently. -/
theorem decimalInt_injective {u v : Int} (h : decimalInt u = decimalInt v) : u = v := by
  rw [decimalInt, decimalInt] at h
  split at h <;> split at h
  · have hdigits := decimalDigits_injective (List.cons.inj h).2
    omega
  · exact absurd h.symm (decimalDigits_ne_minus _ _)
  · exact absurd h (decimalDigits_ne_minus _ _)
  · have hdigits := decimalDigits_injective h
    omega

theorem blank_not_mem_decimalInt (v : Int) : ' ' ∉ decimalInt v := by
  have hblank : ' ' ∉ decimalDigits v.natAbs :=
    fun h => absurd (isDigit_of_mem_decimalDigits h) (by decide)
  rw [decimalInt]
  split
  · rw [List.mem_cons, not_or]
    exact ⟨by decide, hblank⟩
  · exact hblank

end Breadboard.Text
