import Mathlib.Data.List.Nodup
import Mathlib.Data.List.Range
import Mathlib.Data.Nat.ModEq

/-! Cells of a circular array: runs of cells that wrap around, and writes to such a run. -/
namespace XTunnel

variable {α : Type*} {size pos len m n c i : Nat}

/-- The `len` cells from `pos` on, in an array of `size` cells whose end meets its start. -/
def ring (size pos len : Nat) : List Nat := (List.range len).map fun i => (pos + i) % size

@[simp] theorem length_ring : (ring size pos len).length = len := by simp [ring]

theorem ring_add (size pos m n : Nat) :
    ring size pos (m + n) = ring size pos m ++ ring size ((pos + m) % size) n := by
  simp only [ring, List.range_add, List.map_append, List.map_map]
  congr 1
  refine List.map_congr_left fun i _ => ?_
  simp [Nat.add_assoc]

theorem take_ring (h : m ≤ len) : (ring size pos len).take m = ring size pos m := by
  obtain ⟨n, rfl⟩ := Nat.exists_eq_add_of_le h
  rw [ring_add, List.take_left' length_ring]

theorem drop_ring (h : m ≤ len) :
    (ring size pos len).drop m = ring size ((pos + m) % size) (len - m) := by
  obtain ⟨n, rfl⟩ := Nat.exists_eq_add_of_le h
  rw [ring_add, List.drop_left' length_ring, Nat.add_sub_cancel_left]

theorem ring_lt (h : 0 < size) (hc : c ∈ ring size pos len) : c < size := by
  obtain ⟨i, -, rfl⟩ := List.mem_map.mp hc
  exact Nat.mod_lt _ h

/-- A run of cells that does not wrap. -/
theorem ring_of_le (h : pos + len ≤ size) : ring size pos len = List.range' pos len := by
  rw [List.range'_eq_map_range]
  refine List.map_congr_left fun i hi => ?_
  have hlt := List.mem_range.mp hi
  exact Nat.mod_eq_of_lt (by omega)

/-- A run of cells that wraps. -/
theorem ring_of_gt (hp : pos ≤ size) (hl : size - pos ≤ len) (hs : len ≤ size) :
    ring size pos len = List.range' pos (size - pos) ++ List.range' 0 (len - (size - pos)) := by
  obtain ⟨n, rfl⟩ := Nat.exists_eq_add_of_le hl
  have hend : (pos + (size - pos)) % size = 0 := by rw [Nat.add_sub_of_le hp, Nat.mod_self]
  rw [ring_add, ring_of_le (by omega), hend, ring_of_le (by omega), Nat.add_sub_cancel_left]

/-- A run of no more cells than the array has meets no cell twice. -/
theorem nodup_ring (h : len ≤ size) : (ring size pos len).Nodup := by
  refine List.Nodup.map_on ?_ List.nodup_range
  intro i hi j hj he
  have hi := List.mem_range.mp hi
  have hj := List.mem_range.mp hj
  have hmod : i ≡ j [MOD size] := Nat.ModEq.add_left_cancel' pos he
  exact hmod.eq_of_lt_of_lt (by omega) (by omega)

/-- Two runs that follow each other share no cell while together they fit. -/
theorem ring_disjoint (h : m + n ≤ size) :
    (ring size pos m).Disjoint (ring size ((pos + m) % size) n) := by
  have hnodup : (ring size pos (m + n)).Nodup := nodup_ring h
  rw [ring_add] at hnodup
  exact List.disjoint_of_nodup_append hnodup

/-- `l` with the entries of `xs` stored in the cells `cs`, one after the other. -/
def scatter (l : List α) : List Nat → List α → List α
  | c :: cs, x :: xs => scatter (l.set c x) cs xs
  | _, _ => l

@[simp] theorem length_scatter {l : List α} {cs : List Nat} {xs : List α} :
    (scatter l cs xs).length = l.length := by
  induction cs generalizing l xs with
  | nil => cases xs <;> rfl
  | cons c cs ih =>
    cases xs with
    | nil => rfl
    | cons x xs => exact ih.trans List.length_set

/-- A write leaves the other cells alone. -/
theorem scatter_of_not_mem {l : List α} {cs : List Nat} {xs : List α}
    (h : c ∉ cs.take xs.length) : (scatter l cs xs)[c]? = l[c]? := by
  induction cs generalizing l xs with
  | nil => cases xs <;> rfl
  | cons c' cs ih =>
    cases xs with
    | nil => rfl
    | cons x xs =>
      simp only [List.length_cons, List.take_succ_cons, List.mem_cons, not_or] at h
      rw [scatter, ih h.2, List.getElem?_set_ne (Ne.symm h.1)]

/-- What was written is what the cells hold. -/
theorem scatter_get {l : List α} {cs : List Nat} {xs : List α} (hn : cs.Nodup)
    (hc : ∀ c ∈ cs, c < l.length) (hx : xs.length ≤ cs.length) :
    (cs.take xs.length).map (fun c => (scatter l cs xs)[c]?) = xs.map some := by
  induction cs generalizing l xs with
  | nil =>
    obtain rfl := List.eq_nil_of_length_eq_zero (Nat.le_zero.mp hx)
    rfl
  | cons c cs ih =>
    cases xs with
    | nil => rfl
    | cons x xs =>
      obtain ⟨hnot, hn⟩ := List.nodup_cons.mp hn
      have hhead : (scatter (l.set c x) cs xs)[c]? = some x := by
        rw [scatter_of_not_mem fun h => hnot (List.mem_of_mem_take h)]
        exact List.getElem?_set_self (hc c List.mem_cons_self)
      have htail : (cs.take xs.length).map (fun c' => (scatter (l.set c x) cs xs)[c']?) =
          xs.map some := ih hn
        (fun c' h' => by simpa using hc c' (List.mem_cons_of_mem c h')) (Nat.le_of_succ_le_succ hx)
      simp only [List.length_cons, List.take_succ_cons, List.map_cons, scatter]
      rw [hhead, htail]

/-- The entries that `l` has in the cells `cs`. -/
def gather (l : List α) (cs : List Nat) : List α := cs.filterMap fun c => l[c]?

theorem gather_eq {l : List α} {cs : List Nat} {xs : List α}
    (h : cs.map (fun c => l[c]?) = xs.map some) : gather l cs = xs := by
  calc gather l cs = (cs.map fun c => l[c]?).filterMap id := by
        rw [List.filterMap_map]
        rfl
    _ = xs := by
        rw [h, List.filterMap_map]
        exact List.filterMap_some

end XTunnel
