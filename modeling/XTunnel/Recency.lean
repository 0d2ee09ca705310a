import Mathlib.Data.List.Dedup

/-! Bounded lists in order of last use, the least recent first. -/
namespace XTunnel.Recency

variable {α : Type*} {h l : List α} {a b : α} {n : Nat}

/-- The last use of `a` is older than the last use of `b`. -/
def UsedBefore (h : List α) (a b : α) : Prop :=
  ∃ pre post, h = pre ++ a :: post ∧ a ∉ post ∧ b ∈ post

theorem UsedBefore.cons (hb : UsedBefore h a b) (c : α) : UsedBefore (c :: h) a b := by
  obtain ⟨pre, post, rfl, ha, hb⟩ := hb
  exact ⟨c :: pre, post, rfl, ha, hb⟩

variable [DecidableEq α]

theorem map_erase_of_inj {β : Type*} [DecidableEq β] {l : List α} {f : α → β}
    (h : ∀ b ∈ l, f b = f a → b = a) : (l.erase a).map f = (l.map f).erase (f a) := by
  induction l with
  | nil => rfl
  | cons b l ih =>
    by_cases hb : b = a
    · subst b
      simp
    · have hf : f b ≠ f a := fun he => hb (h b List.mem_cons_self he)
      rw [List.erase_cons_tail (by simpa using hb), List.map_cons, List.map_cons,
        List.erase_cons_tail (by simpa using hf), ih fun c hc => h c (List.mem_cons_of_mem _ hc)]

/-- One use of `a`: an element that is there moves to the end, a new one is appended, in place of
the first when the list is full. -/
def access (n : Nat) (l : List α) (a : α) : List α :=
  if a ∈ l then l.erase a ++ [a]
  else if l.length < n then l ++ [a]
  else l.tail ++ [a]

/-- The last `n` distinct elements of a history of uses. -/
def recent (n : Nat) (h : List α) : List α := h.dedup.drop (h.dedup.length - n)

theorem dedup_snoc (h : List α) (a : α) : (h ++ [a]).dedup = h.dedup.erase a ++ [a] := by
  induction h with
  | nil => simp
  | cons x h ih =>
    by_cases hx : x ∈ h
    · rw [List.cons_append, List.dedup_cons_of_mem (List.mem_append_left _ hx),
        List.dedup_cons_of_mem hx, ih]
    · rw [List.dedup_cons_of_notMem hx]
      by_cases hxa : x = a
      · subst x
        rw [List.cons_append, List.dedup_cons_of_mem (by simp), ih, List.erase_cons_head,
          List.erase_of_not_mem (by simpa using hx)]
      · rw [List.cons_append, List.dedup_cons_of_notMem (by simp [hx, hxa]), ih,
          List.erase_cons_tail (by simpa using hxa), List.cons_append]

theorem recent_nil : recent n ([] : List α) = [] := by
  simp [recent]

theorem length_recent : (recent n h).length = min n h.dedup.length := by
  simp only [recent, List.length_drop]
  omega

/-- The recent elements after one more use, from the distinct elements before it. -/
theorem recent_snoc : recent n (h ++ [a]) =
    (h.dedup.erase a ++ [a]).drop ((h.dedup.erase a ++ [a]).length - n) := by
  rw [recent, dedup_snoc]

theorem mem_of_recent (ha : a ∈ recent n h) : a ∈ h :=
  List.mem_dedup.mp (List.mem_of_mem_drop ha)

/-- The last `n` uses are recent. -/
theorem mem_recent_append (ha : a ∈ l) (hn : l.length ≤ n) :
    a ∈ recent n (h ++ l) := by
  have hsuf : l.dedup <:+ (h ++ l).dedup := by
    rw [List.dedup_append]
    exact List.suffix_union_right h l.dedup
  obtain ⟨t, ht⟩ := hsuf
  have hle := (List.dedup_sublist l).length_le
  rw [recent, ← ht, List.length_append, List.drop_append, List.mem_append]
  have hzero : t.length + l.dedup.length - n - t.length = 0 := by omega
  rw [hzero, List.drop_zero]
  exact .inr (List.mem_dedup.mpr ha)

/-- Using `a` after a history gives the recent elements of the longer history. -/
theorem access_recent (hn : 0 < n) : access n (recent n h) a = recent n (h ++ [a]) := by
  have hnd := List.nodup_dedup h
  have hsplit : h.dedup.take (h.dedup.length - n) ++ recent n h = h.dedup :=
    List.take_append_drop _ _
  have hlen := length_recent (n := n) (h := h)
  unfold access
  rw [recent_snoc]
  by_cases ha : a ∈ recent n h
  · -- `a` is not among the elements cut off, and the length stays
    have hno : a ∉ h.dedup.take (h.dedup.length - n) := by
      rw [← hsplit] at hnd
      exact fun ht => (List.disjoint_of_nodup_append hnd) ht ha
    have hd : a ∈ h.dedup := List.mem_of_mem_drop ha
    have he : h.dedup.erase a = h.dedup.take (h.dedup.length - n) ++ (recent n h).erase a := by
      conv_lhs => rw [← hsplit]
      exact List.erase_append_right _ hno
    have hl : (h.dedup.erase a ++ [a]).length - n =
        (h.dedup.take (h.dedup.length - n)).length := by
      have := List.length_pos_of_mem hd
      rw [List.length_append, List.length_erase_of_mem hd, List.length_take,
        List.length_singleton]
      omega
    rw [if_pos ha, hl, he, List.append_assoc, List.drop_left]
  · rw [if_neg ha]
    by_cases hd : a ∈ h.dedup
    · -- `a` is among the elements cut off, so the list is full
      have ht : a ∈ h.dedup.take (h.dedup.length - n) := by
        rw [← hsplit, List.mem_append] at hd
        exact hd.resolve_right ha
      have hpos := List.length_pos_of_mem ht
      rw [List.length_take] at hpos
      have he : h.dedup.erase a =
          (h.dedup.take (h.dedup.length - n)).erase a ++ recent n h := by
        conv_lhs => rw [← hsplit]
        exact List.erase_append_left _ ht
      have hl : (h.dedup.erase a ++ [a]).length - n =
          ((h.dedup.take (h.dedup.length - n)).erase a).length + 1 := by
        rw [List.length_append, List.length_erase_of_mem hd, List.length_erase_of_mem ht,
          List.length_take, List.length_singleton]
        omega
      rw [if_neg (by omega), hl, he, List.append_assoc, List.drop_append, List.drop_append]
      simp only [Nat.add_sub_cancel_left]
      rw [List.drop_eq_nil_of_le (Nat.le_succ _), List.nil_append, List.drop_one,
        Nat.sub_eq_zero_of_le (by omega), List.drop_zero]
    · rw [List.erase_of_not_mem hd, List.length_append, List.length_singleton]
      by_cases hroom : h.dedup.length < n
      · rw [if_pos (by omega), recent, Nat.sub_eq_zero_of_le (by omega),
          Nat.sub_eq_zero_of_le (by omega), List.drop_zero, List.drop_zero]
      · have hl : h.dedup.length + 1 - n = (h.dedup.length - n) + 1 := by omega
        rw [if_neg (by omega), hl, List.drop_append_of_le_length (by omega), recent,
          List.tail_drop]

theorem dedup_pairwise (h : List α) : h.dedup.Pairwise (UsedBefore h) := by
  induction h with
  | nil => exact List.Pairwise.nil
  | cons x h ih =>
    by_cases hx : x ∈ h
    · rw [List.dedup_cons_of_mem hx]
      exact ih.imp fun hab => hab.cons x
    · rw [List.dedup_cons_of_notMem hx, List.pairwise_cons]
      exact ⟨fun b hb => ⟨[], h, rfl, hx, List.mem_dedup.mp hb⟩, ih.imp fun hab => hab.cons x⟩

/-- The recent elements stand in the order of their last uses. -/
theorem recent_pairwise : (recent n h).Pairwise (UsedBefore h) :=
  (dedup_pairwise h).sublist (List.drop_sublist _ _)

end XTunnel.Recency
