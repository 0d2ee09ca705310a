import Mathlib.Data.List.Nodup
import Mathlib.Data.List.Perm.Subperm
import Mathlib.Data.Nat.Find
import XTunnel.Loop

/-! The search for the first free member of a sequence without repetitions. -/
namespace XTunnel.Loop

open Outcome

variable {α σ ρ : Type} {f : Nat → α} {step : σ → Outcome (σ ⊕ ρ)} {fuel k : Nat} {r : ρ}

/-- A list cannot take more members of the sequence than it has entries. -/
theorem exists_free (hf : Function.Injective f) (used : List α) :
    ∃ k, k ≤ used.length ∧ f k ∉ used := by
  by_contra hall
  have htaken : (List.range (used.length + 1)).map f ⊆ used := by
    intro a ha
    obtain ⟨k, hk, rfl⟩ := List.mem_map.mp ha
    by_contra hfree
    exact hall ⟨k, Nat.lt_succ_iff.mp (List.mem_range.mp hk), hfree⟩
  have hnodup : ((List.range (used.length + 1)).map f).Nodup := List.nodup_range.map hf
  have hlen := (List.subperm_of_subset hnodup htaken).length_le
  rw [List.length_map, List.length_range] at hlen
  omega

/-- The induction is on the iterations before the one that leaves. -/
theorem loop_first (seq : Nat → σ) (hnext : ∀ i, i < k → step (seq i) = done (.inl (seq (i + 1))))
    (hexit : step (seq k) = done (.inr r)) (hfuel : k < fuel) : loop step fuel (seq 0) = done r := by
  induction k generalizing seq fuel with
  | zero =>
    obtain ⟨fuel, rfl⟩ := Nat.exists_eq_add_one_of_ne_zero (Nat.ne_of_gt hfuel)
    exact loop_exit hexit
  | succ k ih =>
    obtain ⟨fuel, rfl⟩ := Nat.exists_eq_add_one_of_ne_zero (Nat.ne_of_gt (Nat.zero_lt_of_lt hfuel))
    rw [loop_next (hnext 0 (Nat.succ_pos k))]
    exact ih (fun i => seq (i + 1)) (fun i hi => hnext (i + 1) (Nat.succ_lt_succ hi)) hexit
      (Nat.lt_of_succ_lt_succ hfuel)

/-- A loop that tries the members of the sequence one after the other, until one is not used, tries
at most one more than there are used ones. -/
theorem loop_finds_free (hf : Function.Injective f) (used : List α) (seq : Nat → σ) (out : α → ρ)
    (hnext : ∀ k, f k ∈ used → step (seq k) = done (.inl (seq (k + 1))))
    (hexit : ∀ k, f k ∉ used → step (seq k) = done (.inr (out (f k)))) :
    (loop step (used.length + 1) (seq 0)).Returns fun r => ∃ a, a ∉ used ∧ r = out a := by
  classical
  have hfree : ∃ k, f k ∉ used := by
    obtain ⟨k, -, hk⟩ := exists_free hf used
    exact ⟨k, hk⟩
  have hle : Nat.find hfree ≤ used.length := by
    obtain ⟨k, hk, hnot⟩ := exists_free hf used
    exact Nat.le_trans (Nat.find_min' hfree hnot) hk
  have hbefore : ∀ i, i < Nat.find hfree → f i ∈ used := fun i hi =>
    not_not.mp (Nat.find_min hfree hi)
  have hrun : loop step (used.length + 1) (seq 0) = done (out (f (Nat.find hfree))) :=
    loop_first seq (fun i hi => hnext i (hbefore i hi)) (hexit _ (Nat.find_spec hfree))
      (Nat.lt_succ_of_le hle)
  rw [hrun]
  exact ⟨_, Nat.find_spec hfree, rfl⟩

end XTunnel.Loop
