import Mathlib.Data.List.Basic

/-! Frames written one after the other on a stream, and read back until the reader fails. -/
namespace XTunnel.Framing

variable {α β ε : Type*} {read : List β → Except ε (α × List β)} {encode : α → List β}
  {s q : List β} {a : α} {as bs : List α} {e e' : ε} {n k : Nat}

/-- Reading `s` over and over yields `as` and then the error `e`. -/
inductive Reads (read : List β → Except ε (α × List β)) : List β → List α → ε → Prop
  | stop {s : List β} {e : ε} : read s = .error e → Reads read s [] e
  | more {s s' : List β} {a : α} {as : List α} {e : ε} :
      read s = .ok (a, s') → Reads read s' as e → Reads read s (a :: as) e

/-- `read` takes `encode a` off a stream as `a`, and fails on every part of it. -/
structure Framed (encode : α → List β) (read : List β → Except ε (α × List β)) (a : α) : Prop where
  read_append : ∀ s, read (encode a ++ s) = .ok (a, s)
  truncated : ∀ q, q <+: encode a → q ≠ encode a → ∃ e, read q = .error e

/-- The number of frames that lie wholly in the first `n` elements. -/
def whole (encode : α → List β) : List α → Nat → Nat
  | [], _ => 0
  | a :: as, n => if (encode a).length ≤ n then whole encode as (n - (encode a).length) + 1 else 0

theorem Reads.unique (h : Reads read s as e) (h' : Reads read s bs e') : as = bs ∧ e = e' := by
  induction h generalizing bs with
  | stop hs =>
    cases h' with
    | stop hs' =>
      rw [hs] at hs'
      cases hs'
      exact ⟨rfl, rfl⟩
    | more hs' =>
      rw [hs] at hs'
      cases hs'
  | more hs _ ih =>
    cases h' with
    | stop hs' =>
      rw [hs] at hs'
      cases hs'
    | more hs' hr' =>
      rw [hs] at hs'
      cases hs'
      obtain ⟨rfl, rfl⟩ := ih hr'
      exact ⟨rfl, rfl⟩

/-- Frames before a stream are read before what the stream yields. -/
theorem reads_append (h : ∀ a ∈ as, Framed encode read a) (hs : Reads read s bs e) :
    Reads read (as.flatMap encode ++ s) (as ++ bs) e := by
  induction as with
  | nil => exact hs
  | cons a as ih =>
    rw [List.flatMap_cons, List.append_assoc]
    exact .more ((h a List.mem_cons_self).read_append _)
      (ih fun b hb => h b (List.mem_cons_of_mem a hb))

theorem reads_all (h : ∀ a ∈ as, Framed encode read a) (hnil : read [] = .error e) :
    Reads read (as.flatMap encode) as e := by
  simpa using reads_append h (.stop hnil)

/-- A prefix of the frames yields the frames that lie wholly in it. -/
theorem reads_prefix (h : ∀ a ∈ as, Framed encode read a) (hnil : read [] = .error e)
    (hq : q <+: as.flatMap encode) :
    ∃ e, Reads read q (as.take (whole encode as q.length)) e := by
  induction as generalizing q with
  | nil =>
    rw [List.flatMap_nil, List.prefix_nil] at hq
    subst q
    exact ⟨e, .stop hnil⟩
  | cons a as ih =>
    have ha := h a List.mem_cons_self
    rw [List.flatMap_cons] at hq
    rw [whole]
    split
    · rename_i hle
      have hpre : encode a <+: q := List.prefix_of_prefix_length_le (List.prefix_append _ _) hq hle
      obtain ⟨r, rfl⟩ := hpre
      rw [List.prefix_append_right_inj] at hq
      obtain ⟨e', hr⟩ := ih (fun b hb => h b (List.mem_cons_of_mem a hb)) hq
      refine ⟨e', ?_⟩
      rw [List.length_append, Nat.add_sub_cancel_left, List.take_succ_cons]
      exact .more (ha.read_append r) hr
    · rename_i hlt
      have hpre : q <+: encode a :=
        List.prefix_of_prefix_length_le hq (List.prefix_append _ _) (by omega)
      have hne : q ≠ encode a := by
        rintro rfl
        omega
      obtain ⟨e', he⟩ := ha.truncated q hpre hne
      exact ⟨e', by rw [List.take_zero]; exact .stop he⟩

/-- A stream that begins with a frame and reads back with its value first. -/
theorem Reads.head (h : Reads read s (a :: as) e) :
    ∃ s', read s = .ok (a, s') ∧ Reads read s' as e := by
  cases h with
  | more hs hr => exact ⟨_, hs, hr⟩

end XTunnel.Framing
