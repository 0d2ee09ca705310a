import Mathlib.Data.List.Nodup

/-! A map in the order in which its keys were first put, as `LinkedHashMap` keeps it. -/
namespace XTunnel

theorem eraseDups_of_nodup {α : Type*} [BEq α] [LawfulBEq α] {l : List α} (h : l.Nodup) :
    l.eraseDups = l := by
  induction l with
  | nil => rfl
  | cons a l ih =>
    obtain ⟨ha, hl⟩ := List.nodup_cons.mp h
    have hfilter : (l.filter fun b => !b == a) = l := by
      refine List.filter_eq_self.mpr ?_
      intro b hb
      have hne : b ≠ a := fun he => ha (he ▸ hb)
      simpa using hne
    rw [List.eraseDups_cons, hfilter, ih hl]

theorem nodup_eraseDups {α : Type*} [BEq α] [LawfulBEq α] (l : List α) : l.eraseDups.Nodup := by
  induction hn : l.length using Nat.strongRecOn generalizing l with
  | ind n ih =>
    cases l with
    | nil => exact List.nodup_nil
    | cons a l =>
      have hle : (l.filter fun b => !b == a).length ≤ l.length := List.length_filter_le _ _
      rw [List.length_cons] at hn
      rw [List.eraseDups_cons]
      refine List.nodup_cons.mpr ⟨?_, ih _ (by omega) _ rfl⟩
      intro hm
      simpa using (List.mem_filter.mp (List.mem_eraseDups.mp hm)).2

/-- Erasing repetitions of a prefix first changes nothing. -/
theorem eraseDups_append_left {α : Type*} [BEq α] [LawfulBEq α] (l r : List α) :
    (l.eraseDups ++ r).eraseDups = (l ++ r).eraseDups := by
  have hremove : r.removeAll l.eraseDups = r.removeAll l := by
    refine List.filter_congr ?_
    intro b _
    rw [Bool.eq_iff_iff]
    simp [List.mem_eraseDups]
  rw [List.eraseDups_append, List.eraseDups_append, eraseDups_of_nodup (nodup_eraseDups l), hremove]

/-- Entries with distinct keys, the first put first. -/
structure LinkedMap (κ ν : Type*) where
  entries : List (κ × ν)
  nodup : (entries.map Prod.fst).Nodup

namespace LinkedMap

variable {κ ν : Type*} [BEq κ] [LawfulBEq κ] {m : LinkedMap κ ν} {k j : κ} {v : ν}

def empty : LinkedMap κ ν := ⟨[], List.nodup_nil⟩

def keys (m : LinkedMap κ ν) : List κ := m.entries.map Prod.fst

def get (m : LinkedMap κ ν) (k : κ) : Option ν := m.entries.lookup k

def containsKey (m : LinkedMap κ ν) (k : κ) : Bool := m.keys.contains k

/-- The value of a key in the map is replaced at its place; a new key comes last. -/
def put (m : LinkedMap κ ν) (k : κ) (v : ν) : LinkedMap κ ν where
  entries :=
    if m.containsKey k then m.entries.map fun e => if e.1 == k then (e.1, v) else e
    else m.entries ++ [(k, v)]
  nodup := by
    split
    · rw [List.map_map]
      have hfst : (Prod.fst ∘ fun e : κ × ν => if e.1 == k then (e.1, v) else e) = Prod.fst := by
        funext e
        by_cases h : e.1 = k <;> simp [h]
      rw [hfst]
      exact m.nodup
    · rename_i hk
      rw [List.map_append]
      refine List.nodup_append.mpr ⟨m.nodup, List.nodup_singleton k, ?_⟩
      intro a ha b hb hab
      rw [List.mem_singleton.mp hb] at hab
      subst hab
      exact hk (List.contains_iff_mem.mpr ha)

omit [LawfulBEq κ] in
@[simp] theorem get_empty : (empty : LinkedMap κ ν).get k = none := rfl

omit [BEq κ] [LawfulBEq κ] in
@[simp] theorem keys_empty : (empty : LinkedMap κ ν).keys = [] := rfl

theorem get_of_mem (h : (k, v) ∈ m.entries) : m.get k = some v := by
  obtain ⟨entries, nodup⟩ := m
  unfold get
  dsimp only at h ⊢
  induction entries with
  | nil => cases h
  | cons e entries ih =>
    obtain ⟨hnot, hn⟩ := List.nodup_cons.mp nodup
    rcases List.mem_cons.mp h with rfl | htail
    · exact List.lookup_cons_self
    · have hne : k ≠ e.1 := by
        rintro rfl
        exact hnot (List.mem_map.mpr ⟨_, htail, rfl⟩)
      obtain ⟨a, b⟩ := e
      rw [List.lookup_cons, beq_false_of_ne hne]
      exact ih hn htail

theorem get_eq_none (h : k ∉ m.keys) : m.get k = none := by
  unfold get
  rw [List.lookup_eq_none_iff]
  intro e he
  rw [bne_iff_ne]
  intro hk
  exact h (List.mem_map.mpr ⟨e, he, hk.symm⟩)

theorem lookup_replace (entries : List (κ × ν)) :
    (entries.map fun e => if e.1 == k then (e.1, v) else e).lookup j =
      if j == k then (entries.lookup j).map fun _ => v else entries.lookup j := by
  induction entries with
  | nil => simp
  | cons e entries ih =>
    obtain ⟨a, b⟩ := e
    by_cases hj : j = a
    · subst hj
      by_cases hk : j = k
      · subst hk
        simp
      · simp [hk]
    · have hne : (j == a) = false := beq_false_of_ne hj
      have hcons : ((a, b) :: entries).lookup j = entries.lookup j := by
        rw [List.lookup_cons, hne]
      have hhead : (if a == k then (a, v) else (a, b)).1 = a := by split <;> rfl
      rw [List.map_cons, hcons, ← ih]
      obtain ⟨c, hc⟩ : ∃ c, (if a == k then (a, v) else (a, b)) = (a, c) := ⟨_, Prod.ext hhead rfl⟩
      rw [hc, List.lookup_cons, hne]

theorem entries_put_of_mem (h : k ∈ m.keys) :
    (m.put k v).entries = m.entries.map fun e => if e.1 == k then (e.1, v) else e :=
  if_pos (List.contains_iff_mem.mpr h)

theorem entries_put_of_notMem (h : k ∉ m.keys) : (m.put k v).entries = m.entries ++ [(k, v)] :=
  if_neg (mt List.contains_iff_mem.mp h)

@[simp] theorem get_put : (m.put k v).get j = if j == k then some v else m.get j := by
  unfold get
  by_cases hk : k ∈ m.keys
  · rw [entries_put_of_mem hk, lookup_replace]
    by_cases hj : j = k
    · subst hj
      obtain ⟨⟨a, b⟩, hm, rfl⟩ := List.mem_map.mp hk
      have hget : m.entries.lookup a = some b := get_of_mem hm
      simp [hget]
    · simp [hj]
  · have hnone : m.entries.lookup k = none := get_eq_none hk
    rw [entries_put_of_notMem hk, List.lookup_append]
    by_cases hj : j = k
    · subst hj
      simp [hnone]
    · have hone : [(k, v)].lookup j = none := by
        rw [List.lookup_cons, beq_false_of_ne hj]
        rfl
      rw [beq_false_of_ne hj, hone, Option.or_none]
      rfl

theorem keys_put_of_mem (h : k ∈ m.keys) : (m.put k v).keys = m.keys := by
  have hfst : (Prod.fst ∘ fun e : κ × ν => if e.1 == k then (e.1, v) else e) = Prod.fst := by
    funext e
    by_cases h : e.1 = k <;> simp [h]
  unfold keys
  rw [entries_put_of_mem h, List.map_map, hfst]

/-- A new key comes last. -/
theorem keys_put : (m.put k v).keys = (m.keys ++ [k]).eraseDups := by
  rw [List.eraseDups_append, show m.keys.eraseDups = m.keys from eraseDups_of_nodup m.nodup]
  by_cases hk : k ∈ m.keys
  · have hnil : [k].removeAll m.keys = [] := by
      simp [List.removeAll, hk]
    rw [keys_put_of_mem hk, hnil, List.eraseDups_nil, List.append_nil]
  · have hone : [k].removeAll m.keys = [k] := by
      simp only [List.removeAll, List.filter_cons, List.filter_nil]
      rw [if_pos (by simpa using hk)]
    rw [hone]
    unfold keys
    rw [entries_put_of_notMem hk, List.map_append]
    rfl

end LinkedMap

end XTunnel
