import Mathlib.Data.List.Basic

/-! A stream as it arrives on a socket, in pieces and with pauses, and the reads that take it off. -/
namespace XTunnel.Fragments

variable {α : Type*} {n : Nat} {wait : Bool}

/-- The pieces of a stream; `none` is a moment at which nothing is there to read. After the last
piece the stream has ended. -/
abbrev Arrivals (α : Type*) := List (Option (List α))

variable {s s' : Arrivals α} {xs : List α}

def contents : Arrivals α → List α
  | [] => []
  | none :: s => contents s
  | some xs :: s => xs ++ contents s

/-- A read that waits until it has `n` elements, or fewer at the end of the stream. -/
def takeAll : Nat → Arrivals α → List α × Arrivals α
  | _, [] => ([], [])
  | n, none :: s => takeAll n s
  | n, some xs :: s =>
    if n ≤ xs.length then (xs.take n, some (xs.drop n) :: s)
    else
      let (ys, s) := takeAll (n - xs.length) s
      (xs ++ ys, s)

/-- A read that returns what is there, or `none` when it would have to wait and must not. At the end
of the stream it returns nothing. -/
def takeNow (n : Nat) (wait : Bool) : Arrivals α → Option (List α) × Arrivals α
  | [] => (some [], [])
  | none :: s => if wait then takeNow n wait s else (none, s)
  | some [] :: s => takeNow n wait s
  | some (x :: xs) :: s => (some ((x :: xs).take n), some ((x :: xs).drop n) :: s)

theorem takeAll_fst : (takeAll n s).1 = (contents s).take n := by
  induction s generalizing n with
  | nil => simp [takeAll, contents]
  | cons p s ih =>
    cases p with
    | none => exact ih
    | some xs =>
      simp only [takeAll, contents, List.take_append]
      split
      · rename_i hle
        rw [Nat.sub_eq_zero_of_le hle, List.take_zero, List.append_nil]
      · rename_i hlt
        rw [ih, List.take_of_length_le (by omega : xs.length ≤ n)]

theorem contents_takeAll : contents (takeAll n s).2 = (contents s).drop n := by
  induction s generalizing n with
  | nil => simp [takeAll, contents]
  | cons p s ih =>
    cases p with
    | none => exact ih
    | some xs =>
      simp only [takeAll, contents, List.drop_append]
      split
      · rename_i hle
        rw [Nat.sub_eq_zero_of_le hle, List.drop_zero]
        rfl
      · rename_i hlt
        rw [List.drop_of_length_le (by omega : xs.length ≤ n), List.nil_append]
        exact ih

theorem length_takeAll : (takeAll n s).2.length ≤ s.length := by
  induction s generalizing n with
  | nil => exact Nat.le_refl _
  | cons p s ih =>
    cases p with
    | none => exact Nat.le_succ_of_le ih
    | some xs =>
      simp only [takeAll]
      split
      · exact Nat.le_refl _
      · exact Nat.le_succ_of_le ih

/-- A read that did not wait took a pause away, and nothing else. -/
theorem takeNow_none (h : takeNow n wait s = (none, s')) :
    wait = false ∧ contents s' = contents s ∧ s'.length < s.length := by
  induction s with
  | nil => cases h
  | cons p s ih =>
    match p with
    | none =>
      simp only [takeNow] at h
      split at h
      · obtain ⟨hw, hc, hl⟩ := ih h
        exact ⟨hw, hc, Nat.lt_succ_of_lt hl⟩
      · rename_i hw
        cases h
        exact ⟨by simpa using hw, rfl, Nat.lt_succ_self _⟩
    | some [] =>
      obtain ⟨hw, hc, hl⟩ := ih h
      exact ⟨hw, hc, Nat.lt_succ_of_lt hl⟩
    | some (x :: xs) => cases h

/-- A read takes from the front, and takes nothing at the end of the stream only. -/
theorem takeNow_some (hn : 0 < n) (h : takeNow n wait s = (some xs, s')) :
    contents s = xs ++ contents s' ∧ xs.length ≤ n ∧ (xs = [] → contents s = []) ∧
      s'.length ≤ s.length := by
  induction s with
  | nil =>
    cases h
    exact ⟨rfl, Nat.zero_le _, fun _ => rfl, Nat.le_refl _⟩
  | cons p s ih =>
    match p with
    | none =>
      simp only [takeNow] at h
      split at h
      · obtain ⟨hc, hx, he, hl⟩ := ih h
        exact ⟨hc, hx, he, Nat.le_succ_of_le hl⟩
      · cases h
    | some [] =>
      obtain ⟨hc, hx, he, hl⟩ := ih h
      exact ⟨hc, hx, he, Nat.le_succ_of_le hl⟩
    | some (x :: xs) =>
      cases h
      refine ⟨?_, ?_, fun he => ?_, Nat.le_refl _⟩
      · simp only [contents]
        rw [← List.append_assoc, List.take_append_drop]
      · exact List.length_take_le _ _
      · obtain ⟨n, rfl⟩ := Nat.exists_eq_succ_of_ne_zero (Nat.ne_of_gt hn)
        cases he

end XTunnel.Fragments
