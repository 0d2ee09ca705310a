import Mathlib.Logic.Relation

/-! Finite runs of a labelled transition relation, guarded runs, the invariant rules, and a table of
threads that move one at a time. -/
namespace XTunnel

variable {S A : Type*} {Step : S → A → S → Prop} {s t u : S} {a : A} {xs ys : List A}

/-- `Run Step s xs t`: the labels `xs` lead from `s` to `t`. -/
inductive Run (Step : S → A → S → Prop) : S → List A → S → Prop
  | refl {s : S} : Run Step s [] s
  | stepL {s t u : S} {a : A} {xs : List A} :
      Step s a t → Run Step t xs u → Run Step s (a :: xs) u

/-- A predicate that no step destroys. -/
def Preserves (Step : S → A → S → Prop) (Inv : S → Prop) : Prop :=
  ∀ s a t, Step s a t → Inv s → Inv t

/-- The steps whose source state and label meet a condition. -/
def Guarded (Step : S → A → S → Prop) (G : S → A → Prop) (s : S) (a : A) (t : S) : Prop :=
  G s a ∧ Step s a t

/-- The steps into states that meet a condition. -/
def Into (Step : S → A → S → Prop) (P : S → Prop) (s : S) (a : A) (t : S) : Prop :=
  Step s a t ∧ P t

/-- States reached by a finite run from an initial state. -/
def Reachable (Init : S → Prop) (Step : S → A → S → Prop) (t : S) : Prop :=
  ∃ s xs, Init s ∧ Run Step s xs t

namespace Run

theorem single (h : Step s a t) : Run Step s [a] t := .stepL h .refl

theorem append (h : Run Step s xs t) (h' : Run Step t ys u) : Run Step s (xs ++ ys) u := by
  induction h with
  | refl => exact h'
  | stepL hs _ ih => exact .stepL hs (ih h')

theorem stepR (h : Run Step s xs t) (hs : Step t a u) : Run Step s (xs ++ [a]) u :=
  h.append (.single hs)

/-- A run stops over between two parts of its labels. -/
theorem split (h : Run Step s (xs ++ ys) u) : ∃ t, Run Step s xs t ∧ Run Step t ys u := by
  induction xs generalizing s with
  | nil => exact ⟨s, .refl, h⟩
  | cons a xs ih =>
    cases h with
    | stepL hs hr =>
      obtain ⟨t, hx, hy⟩ := ih hr
      exact ⟨t, .stepL hs hx, hy⟩

theorem mono {Step' : S → A → S → Prop} (hle : ∀ s a t, Step s a t → Step' s a t)
    (h : Run Step s xs t) : Run Step' s xs t := by
  induction h with
  | refl => exact .refl
  | stepL hs _ ih => exact .stepL (hle _ _ _ hs) ih

/-- What every step preserves, every run preserves. -/
theorem invariant {Inv : S → Prop} (hp : Preserves Step Inv) (h : Run Step s xs t)
    (hs : Inv s) : Inv t := by
  induction h with
  | refl => exact hs
  | stepL hst _ ih => exact ih (hp _ _ _ hst hs)

/-- A run that takes a step has a last one. -/
theorem last (h : Run Step s xs t) (hne : xs ≠ []) : ∃ u a, Step u a t := by
  induction h with
  | refl => exact (hne rfl).elim
  | @stepL s u t a xs hs hr ih =>
    cases xs with
    | nil =>
      cases hr
      exact ⟨s, a, hs⟩
    | cons b ys => exact ih (List.cons_ne_nil b ys)

/-- A guarded run is a run. -/
theorem of_guarded {G : S → A → Prop} (h : Run (Guarded Step G) s xs t) : Run Step s xs t :=
  h.mono fun _ _ _ hg => hg.2

/-- Where the guarded steps keep an invariant under which the guard is what a step needs to end in
`P`, the guarded runs are those whose states all meet `P`. -/
theorem into_iff_guarded_of_inv {Inv P : S → Prop} {G : S → A → Prop}
    (hinv : Preserves (Guarded Step G) Inv)
    (hp : ∀ s a t, Step s a t → Inv s → (P t ↔ G s a)) (hs : Inv s) :
    Run (Into Step P) s xs t ↔ Run (Guarded Step G) s xs t := by
  constructor
  · intro h
    induction h with
    | refl => exact .refl
    | stepL hst _ ih =>
      have hg := (hp _ _ _ hst.1 hs).mp hst.2
      exact .stepL ⟨hg, hst.1⟩ (ih (hinv _ _ _ ⟨hg, hst.1⟩ hs))
  · intro h
    induction h with
    | refl => exact .refl
    | stepL hst _ ih =>
      exact .stepL ⟨hst.2, (hp _ _ _ hst.2 hs).mpr hst.1⟩ (ih (hinv _ _ _ hst hs))

/-- Where the guard is what a step needs to stay in `P`, the guarded runs are those that never leave
`P`. -/
theorem into_iff_guarded {P : S → Prop} {G : S → A → Prop}
    (hp : ∀ s a t, Step s a t → P s → (P t ↔ G s a)) (hs : P s) :
    Run (Into Step P) s xs t ↔ Run (Guarded Step G) s xs t :=
  into_iff_guarded_of_inv (fun _ _ _ hg hu => (hp _ _ _ hg.2 hu).mpr hg.1) hp hs

/-- Where a step can break `P` but not mend it, the runs that end in `P` are the guarded ones. -/
theorem iff_guarded {P : S → Prop} {G : S → A → Prop}
    (hp : ∀ s a t, Step s a t → (P t ↔ P s ∧ G s a)) (h : Run Step s xs t) :
    P t ↔ P s ∧ Run (Guarded Step G) s xs t := by
  constructor
  · intro ht
    induction h with
    | refl => exact ⟨ht, .refl⟩
    | stepL hst _ ih =>
      obtain ⟨hnext, hr⟩ := ih ht
      obtain ⟨hs, hg⟩ := (hp _ _ _ hst).mp hnext
      exact ⟨hs, .stepL ⟨hg, hst⟩ hr⟩
  · rintro ⟨hs, hr⟩
    exact hr.invariant (fun _ _ _ hg hu => (hp _ _ _ hg.2).mpr ⟨hu, hg.1⟩) hs

/-- A run whose unguarded steps leave a mark that no step removes is guarded or ends marked. -/
theorem guarded_or_marked {Inv Marked : S → Prop} {G : S → A → Prop}
    (hstep : ∀ s a t, Step s a t → Inv s → G s a ∧ Inv t ∨ Marked t)
    (hmark : Preserves Step Marked) (h : Run Step s xs t) (hs : Inv s) :
    Run (Guarded Step G) s xs t ∨ Marked t := by
  induction h with
  | refl => exact .inl .refl
  | stepL hst hrun ih =>
    rcases hstep _ _ _ hst hs with ⟨hg, hnext⟩ | hm
    · rcases ih hnext with hr | hm
      · exact .inl (.stepL ⟨hg, hst⟩ hr)
      · exact .inr hm
    · exact .inr (hrun.invariant hmark hm)

end Run

/-- An invariant that holds initially holds of every reachable state. -/
theorem Reachable.invariant {Init Inv : S → Prop} (hp : Preserves Step Inv)
    (hi : ∀ s, Init s → Inv s) (h : Reachable Init Step t) : Inv t := by
  obtain ⟨s, xs, h0, hr⟩ := h
  exact hr.invariant hp (hi s h0)

theorem Reachable.step {Init : S → Prop} (h : Reachable Init Step s) (hs : Step s a t) :
    Reachable Init Step t := by
  obtain ⟨s₀, xs, h0, hr⟩ := h
  exact ⟨s₀, xs ++ [a], h0, hr.stepR hs⟩

section Threads

variable {α : Type*} {l : List α} {u v w : α} {i j : Nat}

theorem getElem?_set_thread (hv : l[i]? = some v) :
    (l.set i w)[j]? = if j = i then some w else l[j]? := by
  obtain ⟨hi, -⟩ := List.getElem?_eq_some_iff.mp hv
  rw [List.getElem?_set]
  by_cases h : i = j
  · subst h
    simp [hi]
  · rw [if_neg h, if_neg (Ne.symm h)]

/-- A thread of the table after a move is the one that moved or another one. -/
theorem set_thread_cases (h : (l.set i w)[j]? = some u) :
    j = i ∧ u = w ∨ j ≠ i ∧ l[j]? = some u := by
  rw [List.getElem?_set] at h
  by_cases hj : i = j
  · rw [if_pos hj] at h
    split at h
    · exact .inl ⟨hj.symm, (Option.some.inj h).symm⟩
    · cases h
  · rw [if_neg hj] at h
    exact .inr ⟨Ne.symm hj, h⟩

theorem getElem?_snoc_thread : (l ++ [w])[j]? = if j = l.length then some w else l[j]? := by
  by_cases h : j = l.length
  · simp [h]
  · rw [if_neg h]
    by_cases hlt : j < l.length
    · rw [List.getElem?_append_left hlt]
    · rw [List.getElem?_eq_none (by simp; omega), List.getElem?_eq_none (by omega)]

/-- A thread of the table after a start is the new one or another one. -/
theorem snoc_thread_cases (h : (l ++ [w])[j]? = some u) :
    j = l.length ∧ u = w ∨ j ≠ l.length ∧ l[j]? = some u := by
  rw [getElem?_snoc_thread] at h
  split at h
  · exact .inl ⟨‹_›, (Option.some.inj h).symm⟩
  · exact .inr ⟨‹_›, h⟩

end Threads

end XTunnel
