import Mathlib.Data.List.Basic

/-! Byte-reading code that may panic, its loops with a bound on their iterations, and the rule that
a loop ends when every iteration lowers a measure. -/
namespace XTunnel.Loop

variable {α β σ ρ : Type} {P Q : α → Prop}

/-- The end of a computation: a panic, a loop that used up its bound, or a value. -/
inductive Outcome (α : Type)
  | panic
  | outOfFuel
  | done (a : α)
deriving DecidableEq

namespace Outcome

variable {x : Outcome α}

def bind (x : Outcome α) (f : α → Outcome β) : Outcome β :=
  match x with
  | panic => panic
  | outOfFuel => outOfFuel
  | done a => f a

instance : Monad Outcome where
  pure := done
  bind := bind

/-- The computation ends with a value that satisfies `P`. -/
def Returns (P : α → Prop) : Outcome α → Prop
  | done a => P a
  | panic | outOfFuel => False

@[simp] theorem pure_eq (a : α) : (pure a : Outcome α) = done a := rfl

@[simp] theorem done_bind (a : α) (f : α → Outcome β) : (done a >>= f) = f a := rfl

@[simp] theorem returns_done : (done a).Returns P ↔ P a := Iff.rfl

theorem returns_bind {f : α → Outcome β} {P : β → Prop} :
    (x >>= f).Returns P ↔ x.Returns fun a => (f a).Returns P := by
  cases x <;> rfl

theorem Returns.mono (h : x.Returns P) (hpq : ∀ a, P a → Q a) : x.Returns Q := by
  cases x with
  | done a => exact hpq a h
  | panic | outOfFuel => exact h

theorem Returns.exists (h : x.Returns P) : ∃ a, x = done a ∧ P a := by
  cases x with
  | done a => exact ⟨a, rfl, h⟩
  | panic | outOfFuel => exact h.elim

end Outcome

open Outcome

/-- `step` over and over, at most `fuel` times: it goes on with a state or leaves with a result. -/
def loop (step : σ → Outcome (σ ⊕ ρ)) : Nat → σ → Outcome ρ
  | 0, _ => outOfFuel
  | fuel + 1, s => step s >>= fun
    | .inl s => loop step fuel s
    | .inr r => done r

section

variable {step : σ → Outcome (σ ⊕ ρ)} {fuel : Nat} {s s' : σ} {r : ρ}

theorem loop_next (h : step s = done (.inl s')) : loop step (fuel + 1) s = loop step fuel s' := by
  rw [loop, h]
  rfl

theorem loop_exit (h : step s = done (.inr r)) : loop step (fuel + 1) s = done r := by
  rw [loop, h]
  rfl

/-- A loop whose iterations all succeed, keep the invariant and lower the measure leaves with what
its last iteration establishes. -/
theorem loop_returns (Inv : σ → Prop) (μ : σ → Nat) {P : ρ → Prop}
    (hnext : ∀ s, Inv s → (step s).Returns fun
      | .inl s' => Inv s' ∧ μ s' < μ s
      | .inr r => P r)
    (hs : Inv s) (hfuel : μ s < fuel) : (loop step fuel s).Returns P := by
  induction fuel generalizing s with
  | zero => omega
  | succ fuel ih =>
    obtain ⟨next, he, hn⟩ := (hnext s hs).exists
    cases next with
    | inl s' =>
      rw [loop_next he]
      exact ih hn.1 (by omega)
    | inr r =>
      rw [loop_exit he]
      exact hn

end

/-- The byte at an index. -/
def index (b : List β) (i : Nat) : Outcome β :=
  match b[i]? with
  | some x => done x
  | none => panic

/-- The part of a slice from one index up to another. -/
def slice (b : List β) (lo hi : Nat) : Outcome (List β) :=
  if lo ≤ hi ∧ hi ≤ b.length then done ((b.drop lo).take (hi - lo)) else panic

theorem index_of_lt {b : List β} {i : Nat} (h : i < b.length) : index b i = done b[i] := by
  rw [index, List.getElem?_eq_getElem h]

theorem slice_of_le {b : List β} {lo hi : Nat} (h : lo ≤ hi) (h' : hi ≤ b.length) :
    slice b lo hi = done ((b.drop lo).take (hi - lo)) :=
  if_pos ⟨h, h'⟩

/-- A slice that ends inside is as long as its bounds say. -/
theorem length_take_drop {b : List β} {lo hi : Nat} (h : hi ≤ b.length) :
    ((b.drop lo).take (hi - lo)).length = hi - lo := by
  rw [List.length_take, List.length_drop]
  omega

end XTunnel.Loop
