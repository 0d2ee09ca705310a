import Mathlib.Data.List.Rotate
import Mathlib.Data.List.Count
import Mathlib.Data.Option.Basic

/-! Turns that go round the members of a list, one after the other. -/
namespace XTunnel.RoundRobin

variable {α : Type*} {xs : List α} {a : α} {c k : Nat}

/-- The members that `n` turns in a row fall to, from turn `c` on. -/
def turns (xs : List α) (c n : Nat) : List (Option α) :=
  (List.range' c n).map fun i => xs[i % xs.length]?

theorem turns_zero : turns xs c 0 = [] := rfl

theorem turns_succ {n : Nat} : turns xs c (n + 1) = xs[c % xs.length]? :: turns xs (c + 1) n := rfl

/-- One round is the list itself, turned around. -/
theorem turns_length : turns xs c xs.length = (xs.rotate c).map some := by
  apply List.ext_getElem?
  intro i
  by_cases hi : i < xs.length
  · have hm : (i + c) % xs.length < xs.length := Nat.mod_lt _ (by omega)
    rw [turns, List.getElem?_map, List.getElem?_range' hi, List.getElem?_map,
      List.getElem?_rotate hi, Option.map_some, Nat.one_mul, Nat.add_comm c i,
      List.getElem?_eq_getElem hm, Option.map_some]
  · rw [List.getElem?_eq_none (by simp [turns]; omega),
      List.getElem?_eq_none (by rw [List.length_map, List.length_rotate]; omega)]

/-- In `k` rounds each member has `k` turns. -/
theorem count_turns [DecidableEq α] (hnd : xs.Nodup) (ha : a ∈ xs) :
    (turns xs c (k * xs.length)).count (some a) = k := by
  induction k generalizing c with
  | zero => rw [Nat.zero_mul, turns_zero, List.count_nil]
  | succ k ih =>
    have hround : (turns xs c xs.length).count (some a) = 1 := by
      rw [turns_length, List.count_map_of_injective _ _ (Option.some_injective α),
        (List.rotate_perm xs c).count_eq, List.count_eq_one_of_mem hnd ha]
    have hsplit : turns xs c ((k + 1) * xs.length) =
        turns xs c xs.length ++ turns xs (c + xs.length) (k * xs.length) := by
      rw [turns, turns, turns, ← List.map_append, List.range'_append_1, Nat.succ_mul,
        Nat.add_comm xs.length]
    rw [hsplit, List.count_append, hround, ih, Nat.add_comm]

end XTunnel.RoundRobin
