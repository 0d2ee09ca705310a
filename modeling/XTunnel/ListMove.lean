import Mathlib.Data.List.InsertIdx

/-! Moving an entry of a list by swaps with its neighbours. The other entries are what is left when
the entry is taken out, so that a place of the entry gives the list. -/
namespace XTunnel.ListMove

variable {α : Type*} {rest : List α} {a : α} {i n : Nat}

/-- The entries at two places change places. -/
def swap (l : List α) (i j : Nat) : List α :=
  match l[i]?, l[j]? with
  | some a, some b => (l.set i b).set j a
  | _, _ => l

/-- `n` swaps that take the entry at `i` towards the end. -/
def swapUp (l : List α) (i : Nat) : Nat → List α
  | 0 => l
  | n + 1 => swapUp (swap l i (i + 1)) (i + 1) n

/-- `n` swaps that take the entry at `i` towards the front. -/
def swapDown (l : List α) (i : Nat) : Nat → List α
  | 0 => l
  | n + 1 => swapDown (swap l i (i - 1)) (i - 1) n

theorem insertIdx_append (pre post : List α) (a : α) :
    (pre ++ post).insertIdx pre.length a = pre ++ a :: post := by
  induction pre with
  | nil => rfl
  | cons b pre ih =>
    rw [List.cons_append, List.length_cons, List.insertIdx_succ_cons, ih]
    rfl

theorem swap_neighbours (pre post : List α) (a b : α) :
    swap (pre ++ a :: b :: post) pre.length (pre.length + 1) = pre ++ b :: a :: post := by
  simp [swap]

theorem swap_neighbours_back (pre post : List α) (a b : α) :
    swap (pre ++ a :: b :: post) (pre.length + 1) pre.length = pre ++ b :: a :: post := by
  simp [swap]

/-- The entries around a place. -/
theorem split_at (h : i < rest.length) : ∃ pre b post, rest = pre ++ b :: post ∧ pre.length = i := by
  refine ⟨rest.take i, rest[i], rest.drop (i + 1), ?_, ?_⟩
  · rw [List.getElem_cons_drop, List.take_append_drop]
  · exact List.length_take_of_le (Nat.le_of_lt h)

theorem insertIdx_succ_append (pre post : List α) (a b : α) :
    (pre ++ b :: post).insertIdx (pre.length + 1) a = pre ++ b :: a :: post := by
  have h := insertIdx_append (pre ++ [b]) post a
  simpa using h

theorem swap_insertIdx (h : i < rest.length) :
    swap (rest.insertIdx i a) i (i + 1) = rest.insertIdx (i + 1) a := by
  obtain ⟨pre, b, post, rfl, rfl⟩ := split_at h
  rw [insertIdx_append, insertIdx_succ_append, swap_neighbours]

theorem swap_insertIdx_back (h : i < rest.length) :
    swap (rest.insertIdx (i + 1) a) (i + 1) i = rest.insertIdx i a := by
  obtain ⟨pre, b, post, rfl, rfl⟩ := split_at h
  rw [insertIdx_append, insertIdx_succ_append, swap_neighbours_back]

/-- Swaps towards the end leave the other entries as they are. -/
theorem swapUp_insertIdx (h : i + n ≤ rest.length) :
    swapUp (rest.insertIdx i a) i n = rest.insertIdx (i + n) a := by
  induction n generalizing i with
  | zero => rfl
  | succ n ih =>
    rw [swapUp, swap_insertIdx (by omega), ih (by omega)]
    congr 1
    omega

/-- So do swaps towards the front. -/
theorem swapDown_insertIdx (hn : n ≤ i) (h : i ≤ rest.length) :
    swapDown (rest.insertIdx i a) i n = rest.insertIdx (i - n) a := by
  induction n generalizing i with
  | zero => rfl
  | succ n ih =>
    obtain ⟨i, rfl⟩ := Nat.exists_eq_add_one_of_ne_zero (show i ≠ 0 by omega)
    rw [swapDown, Nat.add_sub_cancel, swap_insertIdx_back (by omega), ih (by omega) (by omega)]
    congr 1
    omega

end XTunnel.ListMove
