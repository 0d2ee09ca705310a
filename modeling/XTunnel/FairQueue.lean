import Mathlib

/-! A queue by virtual time: whoever enters or comes again stands behind those with no larger key, and
the first one has its turn. Nobody waits for ever while every key put in is larger than the least one. -/
namespace XTunnel.FairQueue

variable {ι K : Type*} {e f : ι × K} {q as bs : List (ι × K)} {t : ι}

/-- The least key. -/
def least [Zero K] : List (ι × K) → K
  | [] => 0
  | e :: _ => e.2

/-- Those in the queue, from the first one on. -/
def ids (q : List (ι × K)) : List ι := q.map Prod.fst

section Leave
variable [DecidableEq ι]

def leave (t : ι) (q : List (ι × K)) : List (ι × K) := q.filter (fun e => e.1 ≠ t)

@[simp] theorem mem_leave : f ∈ leave t q ↔ f ∈ q ∧ f.1 ≠ t := by simp [leave]

theorem ids_leave : ids (leave t q) = (ids q).filter (· ≠ t) := by
  rw [ids, leave, ids, List.filter_map]
  rfl

theorem ids_leave_of_nodup (hn : (ids q).Nodup) : ids (leave t q) = (ids q).erase t := by
  rw [ids_leave, hn.erase_eq_filter]
  congr
  funext x
  by_cases h : x = t <;> simp [h]

@[simp] theorem mem_ids_leave {i : ι} : i ∈ ids (leave t q) ↔ i ∈ ids q ∧ i ≠ t := by
  rw [ids_leave, List.mem_filter, decide_eq_true_eq]

theorem length_leave (hn : (ids q).Nodup) (ht : t ∈ ids q) : (leave t q).length + 1 = q.length := by
  have hlen : (leave t q).length = ((ids q).erase t).length := by
    rw [← ids_leave_of_nodup hn, ids, List.length_map]
  have hpos : 0 < (ids q).length := List.length_pos_of_mem ht
  rw [hlen, List.length_erase_of_mem ht, Nat.sub_add_cancel hpos, ids, List.length_map]

theorem leave_cons (hn : (ids (f :: q)).Nodup) : leave f.1 (f :: q) = q := by
  have hf : f.1 ∉ ids q := (List.nodup_cons.mp hn).1
  rw [leave, List.filter_cons_of_neg (by simp)]
  refine List.filter_eq_self.mpr fun e he => ?_
  have hne : e.1 ≠ f.1 := fun h => hf (h ▸ List.mem_map_of_mem he)
  simpa using hne

end Leave

variable [LinearOrder K]

/-- Behind everybody with no larger key. -/
def enqueue (e : ι × K) : List (ι × K) → List (ι × K)
  | [] => [e]
  | f :: q => if e.2 < f.2 then e :: f :: q else f :: enqueue e q

/-- The keys are in order. -/
def Sorted (q : List (ι × K)) : Prop := q.Pairwise fun e f => e.2 ≤ f.2

/-- A newcomer starts from the least key. -/
def enter [Zero K] [Add K] [DecidableEq ι] (key : ι → K) (q : List (ι × K)) (t : ι) : List (ι × K) :=
  if t ∈ ids q then q else enqueue (t, key t + least q) q

theorem enqueue_append (has : ∀ a ∈ as, a.2 ≤ e.2) (hbs : ∀ b ∈ bs, e.2 < b.2) :
    enqueue e (as ++ bs) = as ++ e :: bs := by
  induction as with
  | nil =>
    cases bs with
    | nil => rfl
    | cons b bs => exact if_pos (hbs b List.mem_cons_self)
  | cons a as ih =>
    have ha : ¬ e.2 < a.2 := not_lt.mpr (has a List.mem_cons_self)
    rw [List.cons_append, enqueue, if_neg ha, ih fun a h => has a (List.mem_cons_of_mem _ h)]
    rfl

theorem perm_enqueue (q : List (ι × K)) : (enqueue e q).Perm (e :: q) := by
  induction q with
  | nil => rfl
  | cons f q ih =>
    rw [enqueue]
    split
    · rfl
    · exact (ih.cons f).trans (.swap e f q)

@[simp] theorem mem_enqueue : f ∈ enqueue e q ↔ f = e ∨ f ∈ q := by
  rw [(perm_enqueue q).mem_iff, List.mem_cons]

@[simp] theorem mem_ids_enqueue {i : ι} : i ∈ ids (enqueue e q) ↔ i = e.1 ∨ i ∈ ids q := by
  rw [ids, ((perm_enqueue q).map Prod.fst).mem_iff, List.map_cons, List.mem_cons, ids]

@[simp] theorem length_enqueue : (enqueue e q).length = q.length + 1 := (perm_enqueue q).length_eq

theorem Sorted.enqueue (hs : Sorted q) : Sorted (enqueue e q) := by
  induction q with
  | nil => exact List.pairwise_singleton _ _
  | cons f q ih =>
    obtain ⟨hf, hq⟩ := List.pairwise_cons.mp hs
    rw [FairQueue.enqueue]
    split
    next hlt =>
      refine List.pairwise_cons.mpr ⟨fun g hg => ?_, hs⟩
      rcases List.mem_cons.mp hg with rfl | hg
      · exact hlt.le
      · exact hlt.le.trans (hf g hg)
    next hle =>
      refine List.pairwise_cons.mpr ⟨fun g hg => ?_, ih hq⟩
      rcases mem_enqueue.mp hg with rfl | hg
      · exact not_lt.mp hle
      · exact hf g hg

theorem Sorted.leave [DecidableEq ι] (hs : Sorted q) : Sorted (leave t q) := hs.filter _

/-- A larger key than the least one does not take the first place. -/
theorem enqueue_cons (h : f.2 ≤ e.2) : enqueue e (f :: q) = f :: enqueue e q := if_neg (not_lt.mpr h)

section Debt
variable [Zero K]

/-- How many turns a queue of at most `n` can have before all keys are beyond the bound `k`. -/
def debt (val : K → Nat) (n k : Nat) (q : List (ι × K)) : Nat :=
  (k - val (least q)) * n + (q.filter fun e => e.2 = least q).length

variable {val : K → Nat} {n k : Nat}

theorem debt_le (hn : q.length ≤ n) : debt val n k q ≤ (k - val (least q) + 1) * n := by
  have hle := List.length_filter_le (fun e => decide (e.2 = least q)) q
  rw [debt, Nat.add_mul, Nat.one_mul]
  omega

/-- Who enters with a larger key than the least one does not count. -/
theorem debt_enqueue (hf : f.2 < e.2) : debt val n k (enqueue e (f :: q)) = debt val n k (f :: q) := by
  have hcount : ((enqueue e (f :: q)).filter fun g => g.2 = f.2).length =
      ((f :: q).filter fun g => g.2 = f.2).length := by
    rw [((perm_enqueue (f :: q)).filter _).length_eq, List.filter_cons_of_neg (by simpa using hf.ne')]
  rw [enqueue_cons hf.le] at hcount ⊢
  exact congrArg (_ + ·) hcount

/-- A turn of the first one pays. -/
theorem debt_tail (hval : StrictMono val) (hs : Sorted (f :: e :: q)) (hk : val e.2 ≤ k)
    (hn : (e :: q).length ≤ n) : debt val n k (e :: q) < debt val n k (f :: e :: q) := by
  have hfe : f.2 ≤ e.2 := (List.pairwise_cons.mp hs).1 e List.mem_cons_self
  rcases hfe.eq_or_lt with heq | hlt
  · have hcount : ((f :: e :: q).filter fun g => g.2 = f.2).length =
        ((e :: q).filter fun g => g.2 = e.2).length + 1 := by
      rw [List.filter_cons_of_pos (by simp), List.length_cons, heq]
    show (k - val e.2) * n + _ < (k - val f.2) * n + _
    rw [least, least, hcount, heq]
    omega
  · have hlt' : val f.2 < val e.2 := hval hlt
    have hle := List.length_filter_le (fun g => decide (g.2 = e.2)) (e :: q)
    have hmul : (k - val e.2) * n + n ≤ (k - val f.2) * n := by
      rw [← Nat.succ_mul]
      exact Nat.mul_le_mul_right n (by omega)
    have hone : 0 < ((f :: e :: q).filter fun g => g.2 = f.2).length := by
      rw [List.filter_cons_of_pos (by simp), List.length_cons]
      exact Nat.succ_pos _
    show (k - val e.2) * n + _ < (k - val f.2) * n + _
    rw [least, least]
    omega

/-- The first one leaves. -/
theorem debt_leave (hval : StrictMono val) (hs : Sorted (f :: q)) (he : e ∈ q) (hk : val e.2 ≤ k)
    (hn : q.length ≤ n) : debt val n k q < debt val n k (f :: q) := by
  cases q with
  | nil => cases he
  | cons g q =>
    have hge : g.2 ≤ e.2 := by
      rcases List.mem_cons.mp he with rfl | he
      · exact le_rfl
      · exact (List.pairwise_cons.mp (List.pairwise_cons.mp hs).2).1 e he
    exact debt_tail hval hs ((hval.monotone hge).trans hk) hn

/-- The first one comes again, with a larger key. -/
theorem debt_again {g : ι × K} (hval : StrictMono val) (hs : Sorted (f :: q)) (hfg : f.2 < g.2) (he : e ∈ q)
    (hk : val e.2 ≤ k) (hn : q.length + 1 ≤ n) : debt val n k (enqueue g q) < debt val n k (f :: q) := by
  have hcons : enqueue g (f :: q) = f :: enqueue g q := enqueue_cons hfg.le
  rw [← debt_enqueue hfg, hcons]
  exact debt_leave hval (hcons ▸ hs.enqueue) (mem_enqueue.mpr (.inr he)) hk (by rwa [length_enqueue])

/-- Those who enter with a larger key than the least one change neither the first place nor the debt. -/
theorem enter_all [Add K] [DecidableEq ι] {key : ι → K} {l : List ι}
    (hlate : ∀ t ∈ l, t ∉ ids (f :: q) → f.2 < key t + f.2) : ∃ q', l.foldl (enter key) (f :: q) = f :: q' ∧
      debt val n k (f :: q') = debt val n k (f :: q) ∧ ∀ e ∈ q, e ∈ q' := by
  induction l generalizing q with
  | nil => exact ⟨q, rfl, rfl, fun _ h => h⟩
  | cons t l ih =>
    rw [List.foldl_cons]
    by_cases ht : t ∈ ids (f :: q)
    · rw [enter, if_pos ht]
      exact ih fun p hp => hlate p (List.mem_cons_of_mem _ hp)
    · have hlt := hlate t List.mem_cons_self ht
      have hcons : enter key (f :: q) t = f :: enqueue (t, key t + f.2) q := by
        rw [enter, if_neg ht]
        exact enqueue_cons hlt.le
      have hdebt : debt val n k (enqueue (t, key t + f.2) (f :: q)) = debt val n k (f :: q) := debt_enqueue hlt
      rw [enqueue_cons (e := (t, key t + f.2)) hlt.le] at hdebt
      rw [hcons]
      have hmem : ∀ p, p ∈ ids (f :: q) → p ∈ ids (f :: enqueue (t, key t + f.2) q) := by
        intro p hp
        rcases List.mem_cons.mp hp with hpf | hp
        · exact List.mem_cons.mpr (.inl hpf)
        · exact List.mem_cons_of_mem _ (mem_ids_enqueue.mpr (.inr hp))
      obtain ⟨q', heq, hq, hsub⟩ := ih fun p hp hout =>
        hlate p (List.mem_cons_of_mem _ hp) fun hin => hout (hmem p hin)
      exact ⟨q', heq, hq.trans hdebt, fun e he => hsub e (mem_enqueue.mpr (.inr he))⟩

end Debt

end XTunnel.FairQueue
