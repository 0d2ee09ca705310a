import Mathlib.Order.Lattice

/-! A stable sort by a key: where the entries of one key stand, and when a prefix has a property that
only entries of one key can lack. -/
namespace XTunnel

variable {α K : Type*} [LinearOrder K] {key : α → K} {k : K} {l : List α} {a b : α} {n : Nat}

/-- Equal keys keep their order. -/
def sortBy (key : α → K) (l : List α) : List α := l.mergeSort fun a b => decide (key a ≤ key b)

theorem sortBy_perm (key : α → K) (l : List α) : (sortBy key l).Perm l := List.mergeSort_perm l _

theorem key_trans (a b c : α) (h : decide (key a ≤ key b) = true) (h' : decide (key b ≤ key c) = true) :
    decide (key a ≤ key c) = true :=
  decide_eq_true (le_trans (of_decide_eq_true h) (of_decide_eq_true h'))

theorem key_total (a b : α) : (decide (key a ≤ key b) || decide (key b ≤ key a)) = true := by
  rw [Bool.or_eq_true, decide_eq_true_eq, decide_eq_true_eq]
  exact le_total (key a) (key b)

theorem sortBy_pairwise (key : α → K) (l : List α) :
    (sortBy key l).Pairwise fun a b => key a ≤ key b :=
  (List.pairwise_mergeSort key_trans key_total l).imp of_decide_eq_true

/-- The entries of one key are those of the list, in its order. -/
theorem filter_sortBy (key : α → K) (k : K) (l : List α) :
    (sortBy key l).filter (key · = k) = l.filter (key · = k) := by
  have hsorted : (l.filter (key · = k)).Pairwise fun a b => decide (key a ≤ key b) = true := by
    refine List.pairwise_of_forall_mem_list ?_
    intro a ha b hb
    have ha' := of_decide_eq_true (List.mem_filter.mp ha).2
    have hb' := of_decide_eq_true (List.mem_filter.mp hb).2
    exact decide_eq_true (le_of_eq (ha'.trans hb'.symm))
  have hsub := (List.sublist_mergeSort key_trans key_total hsorted List.filter_sublist).filter
    (key · = k)
  rw [List.filter_filter] at hsub
  simp only [Bool.and_self] at hsub
  exact (hsub.eq_of_length ((sortBy_perm key l).filter _).length_eq.symm).symm

/-- A sorted list falls into the entries below a key, at it and above it. -/
theorem sorted_split (h : l.Pairwise fun a b => key a ≤ key b) (k : K) :
    l = l.filter (key · < k) ++ (l.filter (key · = k) ++ l.filter (k < key ·)) := by
  induction l with
  | nil => rfl
  | cons a l ih =>
    obtain ⟨ha, hl⟩ := List.pairwise_cons.mp h
    have hbelow : k ≤ key a → l.filter (key · < k) = [] := by
      intro hk
      refine List.filter_eq_nil_iff.mpr ?_
      intro b hb
      simpa using le_trans hk (ha b hb)
    rcases lt_trichotomy (key a) k with hlt | heq | hgt
    · have hi := ih hl
      simp [hlt, ne_of_lt hlt, not_lt_of_gt hlt]
      simpa using hi
    · have hi := ih hl
      rw [hbelow (le_of_eq heq.symm), List.nil_append] at hi
      simp [heq, hbelow (le_of_eq heq.symm)]
      simpa using hi
    · have hi := ih hl
      have he : l.filter (key · = k) = [] := by
        refine List.filter_eq_nil_iff.mpr ?_
        intro b hb
        simpa using (ne_of_lt (lt_of_lt_of_le hgt (ha b hb))).symm
      rw [hbelow (le_of_lt hgt), he, List.nil_append, List.nil_append] at hi
      simp [hgt, (ne_of_lt hgt).symm, not_lt_of_gt hgt, hbelow (le_of_lt hgt), he]
      simpa using hi

theorem sortBy_split (key : α → K) (k : K) (l : List α) : ∃ below above : List α,
    sortBy key l = below ++ (l.filter (key · = k) ++ above) ∧
      below.length = l.countP (key · < k) ∧ ∀ a ∈ below, a ∈ l ∧ key a ≠ k := by
  refine ⟨(sortBy key l).filter (key · < k), (sortBy key l).filter (k < key ·), ?_, ?_, ?_⟩
  · rw [← filter_sortBy key k l]
    exact sorted_split (sortBy_pairwise key l) k
  · rw [← List.countP_eq_length_filter, (sortBy_perm key l).countP_eq]
  · intro a ha
    obtain ⟨hm, hk⟩ := List.mem_filter.mp ha
    exact ⟨(sortBy_perm key l).mem_iff.mp hm, ne_of_lt (of_decide_eq_true hk)⟩

/-- Where only entries of key `k` can lack `p`, the first `n` have it if all have it or if enough
entries stand before the first one without it. -/
theorem forall_take_sortBy_iff (p : α → Bool) (hp : ∀ a ∈ l, key a ≠ k → p a = true) :
    (∀ a ∈ (sortBy key l).take n, p a = true) ↔ (∀ a ∈ l, p a = true) ∨
      n ≤ l.countP (key · < k) + ((l.filter (key · = k)).takeWhile p).length := by
  obtain ⟨below, above, hs, hlen, hb⟩ := sortBy_split key k l
  have hbp : ∀ a ∈ below, p a = true := fun a ha => hp a (hb a ha).1 (hb a ha).2
  have htake : ∀ a ∈ (l.filter (key · = k)).takeWhile p, p a = true :=
    List.all_eq_true.mp List.all_takeWhile
  have hat := (List.takeWhile_append_dropWhile (p := p) (l := l.filter (key · = k))).symm
  cases hd : (l.filter (key · = k)).dropWhile p with
  | nil =>
    rw [hd, List.append_nil] at hat
    have hall : ∀ a ∈ l, p a = true := by
      intro a ha
      by_cases hk : key a = k
      · refine htake a ?_
        rw [← hat]
        exact List.mem_filter.mpr ⟨ha, decide_eq_true hk⟩
      · exact hp a ha hk
    refine iff_of_true ?_ (Or.inl hall)
    intro a ha
    exact hall a ((sortBy_perm key l).mem_iff.mp (List.mem_of_mem_take ha))
  | cons d rest =>
    rw [hd] at hat
    have hnot : p d ≠ true := by
      have := List.head?_dropWhile_not p (l.filter (key · = k))
      rw [hd] at this
      simpa using this
    have hdl : d ∈ l := by
      have hm : d ∈ l.filter (key · = k) := by
        rw [hat]
        exact List.mem_append_right _ List.mem_cons_self
      exact (List.mem_filter.mp hm).1
    rw [hat, List.append_assoc, ← List.append_assoc] at hs
    rw [hs, ← hlen, ← List.length_append]
    constructor
    · intro h
      right
      by_contra hlt
      refine hnot (h d ?_)
      rw [List.take_append, List.cons_append]
      refine List.mem_append_right _ ?_
      obtain ⟨m, hm⟩ : ∃ m, n - (below ++ (l.filter (key · = k)).takeWhile p).length = m + 1 :=
        ⟨_, (Nat.succ_pred_eq_of_pos (by omega)).symm⟩
      rw [hm, List.take_succ_cons]
      exact List.mem_cons_self
    · rintro (h | h) a ha
      · exact (hnot (h d hdl)).elim
      · rw [List.take_append_of_le_length h] at ha
        rcases List.mem_append.mp (List.mem_of_mem_take ha) with ha | ha
        · exact hbp a ha
        · exact htake a ha

/-- What is taken comes before what is left. -/
theorem le_of_take_drop (ha : a ∈ (sortBy key l).take n) (hb : b ∈ (sortBy key l).drop n) :
    key a ≤ key b := by
  have h := sortBy_pairwise key l
  rw [← List.take_append_drop n (sortBy key l)] at h
  exact (List.pairwise_append.mp h).2.2 a ha b hb

end XTunnel
