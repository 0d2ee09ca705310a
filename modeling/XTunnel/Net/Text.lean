import Mathlib.Data.List.Basic
import Mathlib.Algebra.Ring.Int.Defs
import Mathlib.Algebra.Ring.Nat

/-! Byte texts: cutting at a separator and decimal numbers. -/
namespace XTunnel.Net

/-- A byte string. -/
abbrev Text := List UInt8

abbrev colon : UInt8 := 58
abbrev dot : UInt8 := 46
abbrev percent : UInt8 := 37
abbrev lbracket : UInt8 := 91
abbrev rbracket : UInt8 := 93

section Cut

variable {α : Type*} [DecidableEq α] {c : α} {s a b : List α}

/-- The parts before and after the first `c`. -/
def cutFirst (c : α) : List α → Option (List α × List α)
  | [] => none
  | x :: s => if x = c then some ([], s) else (cutFirst c s).map fun r => (x :: r.1, r.2)

/-- The parts before and after the last `c`. -/
def cutLast (c : α) : List α → Option (List α × List α)
  | [] => none
  | x :: s =>
    match cutLast c s with
    | some r => some (x :: r.1, r.2)
    | none => if x = c then some ([], s) else none

theorem cutFirst_append (h : c ∉ a) : cutFirst c (a ++ c :: b) = some (a, b) := by
  induction a with
  | nil => simp [cutFirst]
  | cons x a ih =>
    simp only [List.mem_cons, not_or] at h
    simp [cutFirst, Ne.symm h.1, ih h.2]

theorem cutFirst_eq_some : cutFirst c s = some (a, b) ↔ s = a ++ c :: b ∧ c ∉ a := by
  constructor
  · intro h
    induction s generalizing a with
    | nil => cases h
    | cons x s ih =>
      simp only [cutFirst] at h
      split at h
      · cases h
        subst x
        exact ⟨rfl, List.not_mem_nil⟩
      · rename_i hx
        obtain ⟨⟨a', b'⟩, hr, he⟩ := Option.map_eq_some_iff.mp h
        cases he
        obtain ⟨rfl, hn⟩ := ih hr
        refine ⟨rfl, ?_⟩
        rintro (_ | ⟨_, hm⟩)
        · exact hx rfl
        · exact hn hm
  · rintro ⟨rfl, h⟩
    exact cutFirst_append h

theorem cutLast_of_notMem (h : c ∉ s) : cutLast c s = none := by
  induction s with
  | nil => rfl
  | cons x s ih =>
    simp only [List.mem_cons, not_or] at h
    simp [cutLast, ih h.2, Ne.symm h.1]

theorem cutLast_append (h : c ∉ b) : cutLast c (a ++ c :: b) = some (a, b) := by
  induction a with
  | nil => simp [cutLast, cutLast_of_notMem h]
  | cons x a ih => simp [cutLast, ih]

theorem notMem_of_cutLast (h : cutLast c s = none) : c ∉ s := by
  induction s with
  | nil => exact List.not_mem_nil
  | cons x s ih =>
    simp only [cutLast] at h
    split at h
    · cases h
    · rename_i hs
      split at h
      · cases h
      · rename_i hx
        rw [List.mem_cons, not_or]
        exact ⟨Ne.symm hx, ih hs⟩

theorem cutLast_eq_some : cutLast c s = some (a, b) ↔ s = a ++ c :: b ∧ c ∉ b := by
  constructor
  · intro h
    induction s generalizing a with
    | nil => cases h
    | cons x s ih =>
      simp only [cutLast] at h
      split at h
      · rename_i r hr
        cases h
        obtain ⟨rfl, hn⟩ := ih hr
        exact ⟨rfl, hn⟩
      · rename_i hs
        split at h
        · rename_i hx
          cases h
          subst hx
          exact ⟨rfl, notMem_of_cutLast hs⟩
        · cases h
  · rintro ⟨rfl, h⟩
    exact cutLast_append h

end Cut

def isDigit (c : UInt8) : Bool := 48 ≤ c.toNat && c.toNat ≤ 57

def isHexDigit (c : UInt8) : Bool :=
  isDigit c || 97 ≤ c.toNat && c.toNat ≤ 102 || 65 ≤ c.toNat && c.toNat ≤ 70

def digitValue (c : UInt8) : Nat :=
  if isDigit c then c.toNat - 48
  else if 97 ≤ c.toNat && c.toNat ≤ 102 then c.toNat - 87
  else if 65 ≤ c.toNat && c.toNat ≤ 70 then c.toNat - 55
  else 0

/-- The digits of a number in base `b`, in lower case. -/
def digits (b n : Nat) : Text := (Nat.toDigits b n).map fun c => c.toUInt8

/-- The number that digits denote in base `b`. -/
def ofDigits (b : Nat) (s : Text) : Nat := s.foldl (fun n c => b * n + digitValue c) 0

/-- What `%d` prints of a natural number. -/
def itoa (n : Nat) : Text := digits 10 n

variable {b n d : Nat} {c : UInt8}

theorem digitValue_digitChar (h : d < 16) : digitValue d.digitChar.toUInt8 = d := by
  have hall : ∀ d < 16, digitValue (Nat.digitChar d).toUInt8 = d := by decide
  exact hall d h

theorem isHexDigit_digitChar (h : d < 16) : isHexDigit d.digitChar.toUInt8 = true := by
  have hall : ∀ d < 16, isHexDigit (Nat.digitChar d).toUInt8 = true := by decide
  exact hall d h

theorem isDigit_digitChar (h : d < 10) : isDigit d.digitChar.toUInt8 = true := by
  have hall : ∀ d < 10, isDigit (Nat.digitChar d).toUInt8 = true := by decide
  exact hall d h

theorem digits_of_lt (h : n < b) : digits b n = [n.digitChar.toUInt8] := by
  rw [digits, Nat.toDigits_of_lt_base h]
  rfl

theorem digits_of_le (hb : 1 < b) (h : b ≤ n) :
    digits b n = digits b (n / b) ++ [(n % b).digitChar.toUInt8] := by
  rw [digits, Nat.toDigits_of_base_le hb h]
  simp [digits]

/-- Every number is reached from its digits, one digit at the end at a time. -/
theorem digits_induction {motive : Nat → Prop} (hb : 1 < b) (small : ∀ n, n < b → motive n)
    (step : ∀ n, b ≤ n → motive (n / b) → motive n) (n : Nat) : motive n := by
  induction n using Nat.strongRecOn with
  | ind n ih =>
    by_cases h : n < b
    · exact small n h
    · exact step n (by omega) (ih (n / b) (Nat.div_lt_self (by omega) hb))

theorem mem_digits (hb : 1 < b) : c ∈ digits b n → ∃ d < b, c = d.digitChar.toUInt8 := by
  induction n using digits_induction hb with
  | small n h =>
    intro hc
    rw [digits_of_lt h, List.mem_singleton] at hc
    exact ⟨n, h, hc⟩
  | step n h ih =>
    intro hc
    rw [digits_of_le hb h, List.mem_append, List.mem_singleton] at hc
    rcases hc with hc | hc
    · exact ih hc
    · exact ⟨n % b, Nat.mod_lt n (by omega), hc⟩

theorem ofDigits_digits (hb : 1 < b) (hb' : b ≤ 16) : ofDigits b (digits b n) = n := by
  induction n using digits_induction hb with
  | small n h =>
    rw [digits_of_lt h]
    simp [ofDigits, digitValue_digitChar (show n < 16 by omega)]
  | step n h ih =>
    have hd : n % b < 16 := Nat.lt_of_lt_of_le (Nat.mod_lt n (by omega)) hb'
    rw [digits_of_le hb h, ofDigits, List.foldl_append]
    change b * ofDigits b (digits b (n / b)) + digitValue _ = n
    rw [ih, digitValue_digitChar hd, Nat.div_add_mod]

theorem digits_ne_nil : digits b n ≠ [] := by
  rw [digits, ne_eq, List.map_eq_nil_iff]
  exact Nat.toDigits_ne_nil

theorem digits_length {k : Nat} (hb : 1 < b) (hk : 0 < k) (h : n < b ^ k) :
    (digits b n).length ≤ k := by
  rw [digits, List.length_map]
  exact (Nat.length_toDigits_le_iff hb hk).mpr h

theorem digits_isHexDigit (hb : 1 < b) (hb' : b ≤ 16) :
    ∀ c ∈ digits b n, isHexDigit c = true := by
  intro c hc
  obtain ⟨d, hd, rfl⟩ := mem_digits hb hc
  exact isHexDigit_digitChar (by omega)

/-- Only zero is printed with a leading zero. -/
theorem digits_head (hb : 1 < b) (hb' : b ≤ 16) (h : 0 < n) : (digits b n).head? ≠ some 48 := by
  induction n using digits_induction hb with
  | small n hn =>
    rw [digits_of_lt hn]
    intro he
    have hd := digitValue_digitChar (show n < 16 by omega)
    rw [Option.some.inj he] at hd
    have h48 : digitValue 48 = 0 := by decide
    omega
  | step n hn ih =>
    rw [digits_of_le hb hn, List.head?_append_of_ne_nil _ digits_ne_nil]
    exact ih (Nat.div_pos hn (by omega))

theorem itoa_isDigit : ∀ c ∈ itoa n, isDigit c = true := by
  intro c hc
  obtain ⟨d, hd, rfl⟩ := mem_digits (by decide) hc
  exact isDigit_digitChar hd

/-- A digit is none of the separators. -/
theorem notMem_itoa (h : isDigit c = false) : c ∉ itoa n := by
  intro hc
  rw [itoa_isDigit c hc] at h
  cases h

end XTunnel.Net
