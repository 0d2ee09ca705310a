import Mathlib

/-! Code over a state that may fault, and what it ensures. -/
namespace XTunnel

/-- Code that reads and writes a state; `none` is a fault. -/
abbrev Code (σ α : Type) := StateT σ Option α

namespace Code

variable {σ α β : Type} {s t : σ} {a : α} {x : Code σ α} {f : α → Code σ β} {Q : α → σ → Prop}
  {R : β → σ → Prop}

def fault : Code σ α := fun _ => none

/-- A pointer that must not be `NULL`. -/
def deref : Option α → Code σ α
  | none => fault
  | some a => pure a

/-- The code ends without a fault, and `Q` holds of its result and of the state it leaves. -/
def Ensures (x : Code σ α) (s : σ) (Q : α → σ → Prop) : Prop := ∃ a t, x s = some (a, t) ∧ Q a t

theorem Ensures.of_run (h : x.Ensures s Q) (hx : x s = some (a, t)) : Q a t := by
  obtain ⟨b, u, hu, hQ⟩ := h
  obtain ⟨rfl, rfl⟩ := Prod.mk.inj (Option.some.inj (hx.symm.trans hu))
  exact hQ

theorem ensures_pure (h : Q a s) : (pure a : Code σ α).Ensures s Q := ⟨a, s, rfl, h⟩

theorem Ensures.bind (h : x.Ensures s fun a t => (f a).Ensures t R) : (x >>= f).Ensures s R := by
  obtain ⟨a, t, hx, b, u, hf, hr⟩ := h
  refine ⟨b, u, ?_, hr⟩
  show (x s).bind (fun p => f p.1 p.2) = some (b, u)
  rw [hx]
  exact hf

theorem ensures_bind : (x >>= f).Ensures s R ↔ x.Ensures s fun a t => (f a).Ensures t R := by
  constructor
  · rintro ⟨b, u, h, hr⟩
    obtain ⟨⟨a, t⟩, hx, hf⟩ :=
      Option.bind_eq_some_iff.mp (show (x s).bind (fun p => f p.1 p.2) = some (b, u) from h)
    exact ⟨a, t, hx, b, u, hf, hr⟩
  · exact Ensures.bind

theorem Ensures.mono {Q' : α → σ → Prop} (h : x.Ensures s Q) (hq : ∀ a t, Q a t → Q' a t) :
    x.Ensures s Q' := by
  obtain ⟨a, t, hx, hQ⟩ := h
  exact ⟨a, t, hx, hq a t hQ⟩

/-- What is known of the first part is used in the second one. -/
theorem Ensures.seq (h : x.Ensures s Q) (hf : ∀ a t, Q a t → (f a).Ensures t R) :
    (x >>= f).Ensures s R :=
  (h.mono hf).bind

theorem pure_bind (h : (f a).Ensures s R) : ((pure a : Code σ α) >>= f).Ensures s R :=
  (ensures_pure (Q := fun a t => (f a).Ensures t R) h).bind

theorem deref_bind (h : (f a).Ensures s R) : (deref (some a) >>= f).Ensures s R :=
  (ensures_pure (Q := fun a t => (f a).Ensures t R) h).bind

/-- Code behind a condition that the rest does not depend on. -/
def onlyIf (c : Prop) [Decidable c] (x : Code σ Unit) : Code σ Unit := if c then x else pure ()

theorem ensures_onlyIf {c : Prop} [Decidable c] {x : Code σ Unit} {Q : Unit → σ → Prop}
    (ht : c → x.Ensures s Q) (hf : ¬ c → Q () s) : (onlyIf c x).Ensures s Q := by
  by_cases hc : c
  · rw [onlyIf, if_pos hc]
    exact ht hc
  · rw [onlyIf, if_neg hc]
    exact ensures_pure (hf hc)

/-- A condition on the state that the code does not break, wherever it ends. -/
def Keeps (I : σ → Prop) (x : Code σ α) : Prop := ∀ s a t, x s = some (a, t) → I s → I t

section Keeps
variable {I : σ → Prop}

theorem keeps_fault : Keeps I (fault : Code σ α) := fun _ _ _ h => by cases h

theorem keeps_pure : Keeps I (pure a : Code σ α) := by
  rintro s a t ⟨⟩ hs
  exact hs

theorem keeps_deref {a : Option α} : Keeps I (deref a : Code σ α) := by
  cases a
  · exact keeps_fault
  · exact keeps_pure

theorem Keeps.bind (hx : Keeps I x) (hf : ∀ a, Keeps I (f a)) : Keeps I (x >>= f) := by
  intro s b u h hs
  obtain ⟨⟨a, t⟩, hxs, hft⟩ :=
    Option.bind_eq_some_iff.mp (show (x s).bind (fun p => f p.1 p.2) = some (b, u) from h)
  exact hf a t b u hft (hx s a t hxs hs)

theorem Keeps.ite {c : Prop} [Decidable c] {x y : Code σ α} (hx : Keeps I x) (hy : Keeps I y) :
    Keeps I (if c then x else y) := by
  split
  · exact hx
  · exact hy

end Keeps

/-- Code over a part of the state. -/
def on {τ : Type} (get : σ → τ) (set : σ → τ → σ) (x : Code τ α) : Code σ α := fun s =>
  (x (get s)).map fun r => (r.1, set s r.2)

theorem Ensures.on {τ : Type} {get : σ → τ} {set : σ → τ → σ} {y : Code τ α} {P : α → τ → Prop}
    (h : y.Ensures (get s) P) (hQ : ∀ a t, P a t → Q a (set s t)) : (y.on get set).Ensures s Q := by
  obtain ⟨a, t, hy, hP⟩ := h
  refine ⟨a, set s t, ?_, hQ a t hP⟩
  rw [Code.on, hy]
  rfl

end Code

end XTunnel
