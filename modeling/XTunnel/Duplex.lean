import Mathlib.Data.List.Basic
import XTunnel.Transition

/-! Two programs with a stream each way between them. Which one moves first makes no difference to where
they end. -/
namespace XTunnel

/-- A program that writes to one stream and reads from another one. `read n` waits for `n` values; at the
end of the stream it goes on with fewer and is told so. A program ends with a result, and keeps its
streams open or closes them. -/
inductive Prog (B α : Type)
  | done (a : α)
  | close (a : α)
  | write (xs : List B) (next : Prog B α)
  | read (n : Nat) (next : List B → Bool → Prog B α)

namespace Prog

variable {B α : Type}

def isClosed : Prog B α → Bool
  | close _ => true
  | _ => false

/-- A step: the rest of the program, the rest of its input, and what it writes. `closed` tells that
nothing more will come. -/
def step (closed : Bool) (input : List B) : Prog B α → Option (Prog B α × List B × List B)
  | done _ | close _ => none
  | write xs next => some (next, input, xs)
  | read n next =>
    if n ≤ input.length then some (next (input.take n) true, input.drop n, [])
    else if closed then some (next input false, [], [])
    else none

/-- The program on an input that ends: what it writes, its result, and the input that it has not read. -/
def eval : Prog B α → List B → List (List B) × α × List B
  | done a, input | close a, input => ([], a, input)
  | write xs next, input => (xs :: (next.eval input).1, (next.eval input).2)
  | read n next, input =>
    if n ≤ input.length then (next (input.take n) true).eval (input.drop n)
    else (next input false).eval []

/-- The program takes the input, writes the output and is then another one. -/
inductive Takes : Prog B α → List B → List B → Prog B α → Prop
  | refl {p : Prog B α} : Takes p [] [] p
  | write {xs input output : List B} {next p : Prog B α} :
      Takes next input output p → Takes (write xs next) input (xs ++ output) p
  | read {n : Nat} {xs input output : List B} {next : List B → Bool → Prog B α} {p : Prog B α} :
      xs.length = n → Takes (next xs true) input output p → Takes (read n next) (xs ++ input) output p

variable {p q r : Prog B α} {input output input' output' : List B}

theorem Takes.trans (h : Takes p input output q) (h' : Takes q input' output' r) :
    Takes p (input ++ input') (output ++ output') r := by
  induction h with
  | refl => exact h'
  | write _ ih =>
    rw [List.append_assoc]
    exact .write (ih h')
  | read hn _ ih =>
    rw [List.append_assoc]
    exact .read hn (ih h')

/-- What a program takes of an input that ends. -/
theorem Takes.eval (h : Takes p input output q) (rest : List B) :
    (p.eval (input ++ rest)).1.flatten = output ++ (q.eval rest).1.flatten ∧
      (p.eval (input ++ rest)).2 = (q.eval rest).2 := by
  induction h with
  | refl => exact ⟨rfl, rfl⟩
  | write _ ih =>
    rw [Prog.eval, List.flatten_cons, ih.1, List.append_assoc]
    exact ⟨rfl, ih.2⟩
  | @read n xs input output next p hn _ ih =>
    have hle : n ≤ (xs ++ input ++ rest).length := by
      rw [List.length_append, List.length_append]
      omega
    rw [Prog.eval, if_pos hle, List.append_assoc, ← hn, List.take_left, List.drop_left]
    exact ih

/-- More input changes no step that can be taken already. -/
theorem step_append {closed : Bool} {rest out : List B} (more : List B)
    (h : p.step false input = some (q, rest, out)) :
    p.step closed (input ++ more) = some (q, rest ++ more, out) := by
  cases p with
  | done | close => cases h
  | write =>
    cases h
    rfl
  | read n next =>
    rw [step] at h
    by_cases hn : n ≤ input.length
    · rw [if_pos hn] at h
      cases h
      rw [step, if_pos (by rw [List.length_append]; omega), List.take_append_of_le_length hn,
        List.drop_append_of_le_length hn]
    · rw [if_neg hn] at h
      cases h

end Prog

/-- The two programs, and what is on its way to each of them. -/
structure Duplex (B α β : Type) where
  left : Prog B α
  right : Prog B β
  toLeft : List B
  toRight : List B

namespace Duplex

inductive Side
  | left
  | right
deriving DecidableEq

variable {B α β : Type} {s t u v : Duplex B α β} {a b : Side} {xs ys : List Side}

inductive Step : Duplex B α β → Side → Duplex B α β → Prop
  | left {s : Duplex B α β} {p : Prog B α} {i o : List B} :
      s.left.step s.right.isClosed s.toLeft = some (p, i, o) →
      Step s .left { s with left := p, toLeft := i, toRight := s.toRight ++ o }
  | right {s : Duplex B α β} {p : Prog B β} {i o : List B} :
      s.right.step s.left.isClosed s.toRight = some (p, i, o) →
      Step s .right { s with right := p, toRight := i, toLeft := s.toLeft ++ o }

theorem Step.deterministic (h : Step s a t) (h' : Step s a u) : t = u := by
  cases h with
  | left hp =>
    cases h' with
    | left hp' =>
      rw [hp] at hp'
      cases hp'
      rfl
  | right hp =>
    cases h' with
    | right hp' =>
      rw [hp] at hp'
      cases hp'
      rfl

/-- A program that takes a step has not closed its streams. -/
theorem open_of_step {p q : Prog B α} {closed : Bool} {input rest out : List B}
    (h : p.step closed input = some (q, rest, out)) : p.isClosed = false := by
  cases p with
  | close => cases h
  | done | write | read => rfl

/-- Neither program takes a step away from the other one. -/
theorem Step.commute (h : Step s .left t) (h' : Step s .right u) :
    ∃ v, Step t .right v ∧ Step u .left v := by
  cases h with
  | left hp =>
    cases h' with
    | right hq =>
      rw [open_of_step hq] at hp
      rw [open_of_step hp] at hq
      exact ⟨_, .right (Prog.step_append _ hq), .left (Prog.step_append _ hp)⟩

/-- A step is a part of every complete run, sooner or later. -/
theorem Step.into (h : Run Step s xs t) (hend : ∀ a u, ¬ Step t a u) (hb : Step s b u) :
    ∃ ys, Run Step u ys t ∧ xs.length = ys.length + 1 := by
  induction h generalizing b u with
  | refl => exact (hend b u hb).elim
  | @stepL s v t a xs ha hr ih =>
    by_cases hab : a = b
    · subst hab
      obtain rfl := ha.deterministic hb
      exact ⟨xs, hr, rfl⟩
    · obtain ⟨w, hvw, huw⟩ : ∃ w, Step v b w ∧ Step u a w := by
        cases a with
        | left =>
          cases b with
          | left => exact (hab rfl).elim
          | right => exact ha.commute hb
        | right =>
          cases b with
          | left => exact (hb.commute ha).imp fun _ => And.symm
          | right => exact (hab rfl).elim
      obtain ⟨ys, hys, hlen⟩ := ih hend hvw
      exact ⟨a :: ys, .stepL huw hys, by rw [List.length_cons, List.length_cons, hlen]⟩

/-- Where one run ends for good, every run gets to, after as many steps. -/
theorem confluent (h : Run Step s xs t) (hend : ∀ a u, ¬ Step t a u) (hrun : Run Step s ys u) :
    ∃ zs, Run Step u zs t ∧ xs.length = ys.length + zs.length := by
  induction hrun generalizing xs with
  | refl => exact ⟨xs, h, by simp⟩
  | stepL hst _ ih =>
    obtain ⟨xs', h', hlen⟩ := Step.into h hend hst
    obtain ⟨zs, hz, hlen'⟩ := ih h'
    exact ⟨zs, hz, by rw [hlen, hlen', List.length_cons]; omega⟩

/-- One state leads to another one. -/
def Leads (s t : Duplex B α β) : Prop := ∃ xs, Run Step s xs t

theorem Leads.trans (h : Leads s t) (h' : Leads t u) : Leads s u := by
  obtain ⟨xs, h⟩ := h
  obtain ⟨ys, h'⟩ := h'
  exact ⟨xs ++ ys, h.append h'⟩

/-- Where a state can end, it ends in every run, after a number of steps that is always the same. -/
theorem Leads.inevitable (h : Leads s t) (hend : ∀ a u, ¬ Step t a u) :
    ∃ n, ∀ ys u, Run Step s ys u → ∃ zs, Run Step u zs t ∧ ys.length + zs.length = n := by
  obtain ⟨xs, h⟩ := h
  refine ⟨xs.length, fun ys u hu => ?_⟩
  obtain ⟨zs, hz, hlen⟩ := confluent h hend hu
  exact ⟨zs, hz, hlen.symm⟩

variable {p p' : Prog B α} {q q' : Prog B β} {input output l r : List B}

/-- What a program takes of its own stream, the dialogue gives it. -/
theorem leads_left (h : p.Takes input output p') :
    Leads ⟨p, q, input ++ l, r⟩ ⟨p', q, l, r ++ output⟩ := by
  induction h generalizing r with
  | refl => exact ⟨[], by rw [List.append_nil]; exact .refl⟩
  | @write xs input output next p _ ih =>
    obtain ⟨ys, hrun⟩ := ih (r := r ++ xs)
    rw [List.append_assoc] at hrun
    exact ⟨.left :: ys, .stepL (.left rfl) hrun⟩
  | @read n xs input output next p hn _ ih =>
    obtain ⟨ys, hrun⟩ := ih (r := r)
    refine ⟨.left :: ys, .stepL (.left (p := next xs true) (i := input ++ l) (o := []) ?_) ?_⟩
    · rw [Prog.step, if_pos (by rw [List.length_append, List.length_append]; omega), List.append_assoc, ← hn,
        List.take_left, List.drop_left]
    · rw [List.append_nil]
      exact hrun

theorem leads_right (h : q.Takes input output q') :
    Leads ⟨p, q, l, input ++ r⟩ ⟨p, q', l ++ output, r⟩ := by
  induction h generalizing l with
  | refl => exact ⟨[], by rw [List.append_nil]; exact .refl⟩
  | @write xs input output next q _ ih =>
    obtain ⟨ys, hrun⟩ := ih (l := l ++ xs)
    rw [List.append_assoc] at hrun
    exact ⟨.right :: ys, .stepL (.right rfl) hrun⟩
  | @read n xs input output next q hn _ ih =>
    obtain ⟨ys, hrun⟩ := ih (l := l)
    refine ⟨.right :: ys, .stepL (.right (p := next xs true) (i := input ++ r) (o := []) ?_) ?_⟩
    · rw [Prog.step, if_pos (by rw [List.length_append, List.length_append]; omega), List.append_assoc, ← hn,
        List.take_left, List.drop_left]
    · rw [List.append_nil]
      exact hrun

/-- A message, and its reply. -/
theorem leads_exchange {p'' : Prog B α} {msg reply : List B} (hp : p.Takes [] msg p') (hq : q.Takes msg reply q')
    (hp' : p'.Takes reply [] p'') : Leads ⟨p, q, [], []⟩ ⟨p'', q', [], []⟩ := by
  have hsent : Leads ⟨p, q, [], []⟩ ⟨p', q, [], msg⟩ := leads_left (l := []) (r := []) hp
  have hserved : Leads ⟨p', q, [], msg⟩ ⟨p', q', reply, []⟩ := by
    have h := leads_right (p := p') (l := []) (r := []) hq
    rwa [List.append_nil] at h
  have hread : Leads ⟨p', q', reply, []⟩ ⟨p'', q', [], []⟩ := by
    have h := leads_left (q := q') (l := []) (r := []) hp'
    rwa [List.append_nil] at h
  exact hsent.trans (hserved.trans hread)

/-- A read behind which the other program has closed gets what there is. -/
theorem leads_left_eof {n : Nat} {next : List B → Bool → Prog B α} {b : β} (hlt : l.length < n) :
    Leads ⟨.read n next, .close b, l, r⟩ ⟨next l false, .close b, [], r⟩ := by
  refine ⟨[.left], .single ?_⟩
  have hstep := Step.left (s := ⟨.read n next, .close b, l, r⟩) (p := next l false) (i := []) (o := [])
    (by rw [Prog.step, if_neg (Nat.not_le.mpr hlt)]; rfl)
  rw [List.append_nil] at hstep
  exact hstep

theorem leads_right_eof {n : Nat} {next : List B → Bool → Prog B β} {a : α} (hlt : r.length < n) :
    Leads ⟨.close a, .read n next, l, r⟩ ⟨.close a, next r false, l, []⟩ := by
  refine ⟨[.right], .single ?_⟩
  have hstep := Step.right (s := ⟨.close a, .read n next, l, r⟩) (p := next r false) (i := []) (o := [])
    (by rw [Prog.step, if_neg (Nat.not_le.mpr hlt)]; rfl)
  rw [List.append_nil] at hstep
  exact hstep

/-- Both programs have come to their ends. -/
def Ended (s : Duplex B α β) (a : α) (b : β) : Prop :=
  (s.left = .done a ∨ s.left = .close a) ∧ (s.right = .done b ∨ s.right = .close b)

theorem Ended.no_step {x : α} {y : β} (h : Ended s x y) : ∀ a u, ¬ Step s a u := by
  intro a u hst
  cases hst with
  | left hp => rcases h.1 with hl | hl <;> rw [hl] at hp <;> cases hp
  | right hp => rcases h.2 with hr | hr <;> rw [hr] at hp <;> cases hp

/-- Two programs that wait for each other: each is at a read, and neither has sent what the other one's
read needs. -/
def Waiting (s : Duplex B α β) : Prop :=
  (∃ n next, s.left = .read n next ∧ s.toLeft.length < n) ∧
    ∃ m next, s.right = .read m next ∧ s.toRight.length < m

theorem Waiting.no_step (h : Waiting s) : ∀ a u, ¬ Step s a u := by
  obtain ⟨⟨n, next, hl, hn⟩, m, next', hr, hm⟩ := h
  intro a u hst
  cases hst with
  | left hp =>
    rw [hl, hr, Prog.step, if_neg (Nat.not_le.mpr hn)] at hp
    cases hp
  | right hp =>
    rw [hl, hr, Prog.step, if_neg (Nat.not_le.mpr hm)] at hp
    cases hp

end Duplex

end XTunnel
