import XTunnel.Transition

/-! A copying loop that reads from a source and writes to a destination until one of them ends. -/
namespace XTunnel

/-- What the source still delivers before its end, what is read and not written, and what is
written. -/
structure Copy (α : Type*) where
  unread : List α
  buffer : List α := []
  written : List α := []
  done : Bool := false

namespace Copy

/-- What the two ends do at a moment: the source may return data or fail before its end, and the
destination may take data or refuse it. -/
structure Ends where
  delivers : Bool
  breaks : Bool
  accepts : Bool
  refuses : Bool

inductive Action | read | write | eof | readError | writeError
deriving DecidableEq

/-- The actions that end the loop. -/
def Action.ends : Action → Bool
  | .read | .write => false
  | .eof | .readError | .writeError => true

variable {α : Type*}

/-- Reads and writes move pieces of any size; a read waits until the buffer is written. -/
inductive Step (e : Ends) : Copy α → Action → Copy α → Prop
  | read {c : Copy α} {chunk rest : List α} : e.delivers = true → c.done = false →
      c.buffer = [] → c.unread = chunk ++ rest → chunk ≠ [] →
      Step e c .read { c with unread := rest, buffer := chunk }
  | write {c : Copy α} {piece rest : List α} : e.accepts = true → c.done = false →
      c.buffer = piece ++ rest → piece ≠ [] →
      Step e c .write { c with buffer := rest, written := c.written ++ piece }
  | eof {c : Copy α} : c.done = false → c.buffer = [] → c.unread = [] →
      Step e c .eof { c with done := true }
  | readError {c : Copy α} : e.breaks = true → c.done = false → c.buffer = [] →
      Step e c .readError { c with done := true }
  | writeError {c : Copy α} : e.refuses = true → c.done = false → c.buffer ≠ [] →
      Step e c .writeError { c with done := true }

/-- What is not written yet. -/
def left (c : Copy α) : List α := c.buffer ++ c.unread

variable {e : Ends} {c d : Copy α} {a : Action} {xs : List Action}

theorem Step.running (h : Step e c a d) : c.done = false := by
  cases h <;> assumption

/-- Nothing is lost or invented while the loop runs. -/
theorem Step.conserved (h : Step e c a d) : d.written ++ d.left = c.written ++ c.left := by
  cases h with
  | read _ _ hb hu _ => simp [left, hb, hu]
  | write _ _ hb _ => simp [left, hb]
  | eof _ _ _ => rfl
  | readError _ _ _ => rfl
  | writeError _ _ _ => rfl

theorem Step.left_nil (h : Step e c a d) (hc : c.left = []) : d.left = [] := by
  obtain ⟨hb, hu⟩ := List.append_eq_nil_iff.mp hc
  cases h with
  | read _ _ _ hr hne =>
    rw [hu] at hr
    exact absurd (List.append_eq_nil_iff.mp hr.symm).1 hne
  | write _ _ hw hne =>
    rw [hb] at hw
    exact absurd (List.append_eq_nil_iff.mp hw.symm).1 hne
  | eof _ _ _ => exact hc
  | readError _ _ _ => exact hc
  | writeError _ _ _ => exact hc

theorem Step.done_iff (h : Step e c a d) : d.done = true ↔ a.ends = true := by
  have hr := h.running
  cases h <;> simp [Action.ends, hr]

/-- A loop that ends with something left was stopped by one of its ends. -/
theorem Step.stopped (h : Step e c a d) (hd : d.done = true) (hne : d.left ≠ []) :
    e.breaks = true ∨ e.refuses = true ∧ c.buffer ≠ [] := by
  have hr := h.running
  cases h with
  | read _ _ _ _ _ =>
    rw [hr] at hd
    cases hd
  | write _ _ _ _ =>
    rw [hr] at hd
    cases hd
  | eof _ hb hu => exact absurd (List.append_eq_nil_iff.mpr ⟨hb, hu⟩) hne
  | readError hx _ _ => exact .inl hx
  | writeError hx _ hb => exact .inr ⟨hx, hb⟩

/-- What is read is written while the destination takes data. -/
theorem flushes (ha : e.accepts = true) (hr : c.done = false) :
    ∃ xs, Run (Step e) c xs { c with buffer := [], written := c.written ++ c.buffer } := by
  by_cases hb : c.buffer = []
  · refine ⟨[], ?_⟩
    obtain ⟨unread, buffer, written, done⟩ := c
    cases hb
    rw [List.append_nil]
    exact .refl
  · exact ⟨[.write], .single (.write ha hr (List.append_nil _).symm hb)⟩

/-- Between two ends that work the loop writes all that is left. -/
theorem drains (hd : e.delivers = true) (ha : e.accepts = true) (hr : c.done = false) :
    ∃ xs d, Run (Step e) c xs d ∧ d.written = c.written ++ c.left := by
  obtain ⟨xs, hrun⟩ := flushes ha hr
  by_cases hnil : c.unread = []
  · exact ⟨xs, _, hrun, by rw [left, hnil, List.append_nil]⟩
  · let d : Copy α := ⟨[], c.unread, c.written ++ c.buffer, c.done⟩
    have hs : Step e { c with buffer := [], written := c.written ++ c.buffer } .read d :=
      .read hd hr rfl (List.append_nil _).symm hnil
    obtain ⟨ys, hrun'⟩ := flushes (c := d) ha hr
    exact ⟨xs ++ .read :: ys, _, hrun.append (.stepL hs hrun'), List.append_assoc _ _ _⟩

/-- Between two ends that fail the loop can end at once, and what is left stays unwritten. -/
theorem exists_stopped (hx : e.breaks = true) (hy : e.refuses = true) (hr : c.done = false) :
    ∃ a, Step e c a { c with done := true } := by
  by_cases hb : c.buffer = []
  · exact ⟨.readError, .readError hx hr hb⟩
  · exact ⟨.writeError, .writeError hy hr hb⟩

end Copy
end XTunnel
