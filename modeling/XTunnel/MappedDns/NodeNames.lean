import XTunnel.MappedDns.Handle

/-! The store when the copy of a name fails: `hev_mapped_dns_node_alloc` does not test it, so the node
is linked with a `NULL` name. -/
namespace XTunnel.MappedDns

open HevMappedDNS
open Dns (Bytes)

/-- `dns` has the names that the nodes were made for; the `name` of an unnamed node is `NULL`. -/
structure NamedStore where
  dns : HevMappedDNS
  unnamed : Ptr → Bool

/-- The nodes that the descent for a name compares with. The shape of the tree decides, which in a run
the store determines: it changes only with a new node. -/
abbrev Descent := HevMappedDNS → Name → List Ptr

namespace NamedStore

/-- `strcmp` is given the name of a node that has none. -/
def faults (path : Descent) (self : NamedStore) (name : Name) : Bool :=
  (path self.dns name).any self.unnamed || (self.dns.search name).any self.unnamed

/-- `hev_mapped_dns_find`; the outer `none` is a fault. -/
def find (path : Descent) (self : NamedStore) (name : Name) (alloc : Allocation) :
    Option (NamedStore × Option Nat) :=
  if self.faults path name then none
  else
    let made := (self.dns.search name).isNone && alloc.node
    let unnamed :=
      if made then Function.update self.unnamed self.dns.brk (!alloc.copy) else self.unnamed
    some (⟨(self.dns.find name alloc.node).1, unnamed⟩, (self.dns.find name alloc.node).2)

/-- `hev_mapped_dns_lookup` returns the `NULL` of an unnamed node. -/
def lookup (self : NamedStore) (ip : BitVec 32) : NamedStore × Option Name :=
  let unnamed := (self.dns.records (self.dns.hostPart ip).toNat).any self.unnamed
  ({ self with dns := (self.dns.lookup ip).1 }, if unnamed then none else (self.dns.lookup ip).2)

/-- The variables of the loop over the questions. -/
structure NamedWalk where
  store : NamedStore
  rb : Bytes
  off : Nat
  answers : List (Nat × BitVec 32)

/-- One turn of the loop, or a fault. -/
def handleQuestion (path : Descent) (qlen : Nat) (alloc : Allocation) (w : NamedWalk) :
    Option (Except NamedStore NamedWalk) :=
  match skipName qlen qlen w.rb w.off with
  | none => some (.error w.store)
  | some (rb, off) =>
    let off := off + 1
    if off + 3 ≥ qlen then some (.error w.store)
    else if readU16 rb off = 1 ∧ readU16 rb (off + 2) = 1 then
      match w.store.find path (cstring rb (w.off + 1)) alloc with
      | none => none
      | some (store, some idx) =>
        some (.ok ⟨store, rb, off + 4, w.answers ++ [(w.off, store.dns.address idx)]⟩)
      | some (store, none) => some (.ok ⟨store, rb, off + 4, w.answers⟩)
    else some (.ok ⟨w.store, rb, off + 4, w.answers⟩)

def handleQuestions (path : Descent) (qlen : Nat) (alloc : Nat → Allocation) :
    Nat → Nat → NamedWalk → Option (Except NamedStore NamedWalk)
  | 0, _, w => some (.ok w)
  | n + 1, i, w =>
    match handleQuestion path qlen (alloc i) w with
    | some (.ok w) => handleQuestions path qlen alloc n (i + 1) w
    | r => r

structure NamedResponse where
  store : NamedStore
  sb : Bytes
  off : Nat

/-- `hev_mapped_dns_handle`; the outer `none` is a fault in one of its finds. -/
def handle (path : Descent) (self : NamedStore) (alloc : Nat → Allocation) (req res : Bytes) :
    Option (Except NamedStore NamedResponse) :=
  if res.length < req.length then some (.error self)
  else
    let qd := readU16 req 4
    let fl := readU16 req 2
    let sb := store (store res 0 req) 6 [0, 0, 0, 0]
    if qd > 32 then some (.error self)
    else
      match handleQuestions path req.length alloc qd 0 ⟨self, req, 12, []⟩ with
      | none => none
      | some (.error s) => some (.error s)
      | some (.ok w) =>
        match writeAnswers w.answers sb w.off with
        | none => some (.error w.store)
        | some (sb, off) =>
          let sb := store sb 2 (writeU16 (fl ||| 0x8000 ||| ((fl &&& 0x100) >>> 1)))
          let sb := store sb 6 (writeU16 w.answers.length)
          some (.ok ⟨w.store, sb, off⟩)

/-- A question for an address with its offset, as `asked`, and both allocations. -/
def asks (alloc : Nat → Allocation) : Nat → Nat → List Dns.Question → List (Asked × Bool)
  | _, _, [] => []
  | i, off, q :: qs =>
    if q.qtype = 1 ∧ q.qclass = 1 then
      (⟨off, q.name, (alloc i).node⟩, (alloc i).copy) :: asks alloc (i + 1) (off + q.encode.length) qs
    else asks alloc (i + 1) (off + q.encode.length) qs

/-- The store after the finds of the questions, or a fault. -/
def serve (path : Descent) : NamedStore → List (Asked × Bool) → Option NamedStore
  | s, [] => some s
  | s, a :: as =>
    match s.find path (cname a.1.name) ⟨a.1.alloc, a.2⟩ with
    | none => none
    | some (s, _) => serve path s as

end NamedStore

/-- An operation that does not fault. -/
inductive NamedStep (path : Descent) : NamedStore → NamedOp → NamedStore → Prop
  | find {self s : NamedStore} {name : Name} {alloc : Allocation} {r : Option Nat} :
      0 ∉ name → self.find path name alloc = some (s, r) → NamedStep path self (.find name alloc) s
  | lookup (self : NamedStore) (ip : BitVec 32) : NamedStep path self (.lookup ip) (self.lookup ip).1

/-- The stores that finds of C strings and lookups make of a constructed one, before a fault. -/
def ReachableNamedStore (path : Descent) (net mask : BitVec 32) (max : Nat) : NamedStore → Prop :=
  Reachable (fun s => construct net mask max = some s.dns) (NamedStep path)

namespace NamedStore

variable {path : Descent} {self s t : NamedStore} {name : Name} {alloc : Allocation} {idx : Nat}
  {r : Option Nat} {w w' : NamedWalk} {qlen n i off : Nat} {allocs : Nat → Allocation}
  {req res pre post : Bytes} {q : Dns.Question} {qs : List Dns.Question} {as : List (Asked × Bool)}
  {ip : BitVec 32}

theorem lookup_dns (h : (self.lookup ip).2 = some name) : (self.dns.lookup ip).2 = some name := by
  unfold lookup at h
  dsimp only at h
  split at h
  · cases h
  · exact h

theorem find_dns (h : self.find path name alloc = some (s, r)) :
    self.dns.find name alloc.node = (s.dns, r) := by
  unfold find at h
  split at h <;> cases h
  rfl

/-- A find that does not fault has compared with named nodes only. -/
theorem find_named {p : Ptr} (h : self.find path name alloc = some (s, r))
    (hp : self.dns.search name = some p) : self.unnamed p = false := by
  unfold find at h
  split at h
  · cases h
  · rename_i hf
    rw [faults, hp] at hf
    simp only [Option.any_some, Bool.or_eq_true, not_or, Bool.not_eq_true] at hf
    exact hf.2

theorem find_unnamed_live {p : Ptr} (h : self.find path name alloc = some (s, r))
    (hp : self.dns.search name = some p) : s.unnamed = self.unnamed := by
  unfold find at h
  split at h <;> cases h
  simp [hp]

theorem find_unnamed_new (h : self.find path name alloc = some (s, r))
    (hp : self.dns.search name = none) (ha : alloc.node = true) :
    s.unnamed = Function.update self.unnamed self.dns.brk (!alloc.copy) := by
  unfold find at h
  split at h <;> cases h
  simp [hp, ha]

theorem find_unnamed_ne {p : Ptr} (h : self.find path name alloc = some (s, r))
    (hp : p ≠ self.dns.brk) : s.unnamed p = self.unnamed p := by
  unfold find at h
  split at h <;> cases h
  dsimp only
  split
  · exact Function.update_of_ne hp _ _
  · rfl

/-- Without unnamed nodes nothing faults. -/
theorem find_of_named (h : ∀ p, self.unnamed p = false) :
    ∃ s r, self.find path name alloc = some (s, r) ∧
      (alloc.copy = true → ∀ p, s.unnamed p = false) := by
  have hfun : self.unnamed = fun _ => false := funext h
  have hf : self.faults path name = false := by
    rw [faults, hfun]
    simp
  refine ⟨_, _, by rw [find, if_neg (by rw [hf]; exact Bool.false_ne_true)], fun hc p => ?_⟩
  dsimp only
  split
  · rw [hc, Function.update_apply]
    split
    · rfl
    · exact h p
  · exact h p

/-- The walk over the nodes. -/
def NamedWalk.erase (w : NamedWalk) : Walk := ⟨w.store.dns, w.rb, w.off, w.answers⟩

def eraseWalk : Except NamedStore NamedWalk → Except HevMappedDNS Walk
  | .error s => .error s.dns
  | .ok w => .ok w.erase

theorem handleQuestion_erase {res : Except NamedStore NamedWalk}
    (h : handleQuestion path qlen alloc w = some res) :
    MappedDns.handleQuestion qlen alloc.node w.erase = eraseWalk res := by
  unfold handleQuestion at h
  unfold MappedDns.handleQuestion NamedWalk.erase
  cases hskip : skipName qlen qlen w.rb w.off with
  | none =>
    rw [hskip] at h
    cases h
    rfl
  | some p =>
    rw [hskip] at h
    dsimp only at h ⊢
    by_cases hlen : p.2 + 1 + 3 ≥ qlen
    · rw [if_pos hlen] at h ⊢
      cases h
      rfl
    · rw [if_neg hlen] at h ⊢
      by_cases hA : readU16 p.1 (p.2 + 1) = 1 ∧ readU16 p.1 (p.2 + 1 + 2) = 1
      · rw [if_pos hA] at h ⊢
        cases hf : w.store.find path (cstring p.1 (w.off + 1)) alloc with
        | none =>
          rw [hf] at h
          cases h
        | some x =>
          obtain ⟨s, r⟩ := x
          rw [hf] at h
          rw [find_dns hf]
          cases r with
          | none =>
            cases h
            rfl
          | some idx =>
            cases h
            rfl
      · rw [if_neg hA] at h ⊢
        cases h
        rfl

theorem handleQuestions_erase {res : Except NamedStore NamedWalk}
    (h : handleQuestions path qlen allocs n i w = some res) :
    MappedDns.handleQuestions qlen (fun i => (allocs i).node) n i w.erase = eraseWalk res := by
  induction n generalizing i w with
  | zero =>
    cases h
    rfl
  | succ n ih =>
    rw [handleQuestions] at h
    rw [MappedDns.handleQuestions]
    cases hq : handleQuestion path qlen (allocs i) w with
    | none =>
      rw [hq] at h
      cases h
    | some r =>
      rw [hq] at h
      rw [handleQuestion_erase hq]
      cases r with
      | error s =>
        cases h
        rfl
      | ok w' => exact ih h

def eraseResponse : Except NamedStore NamedResponse → Except HevMappedDNS Response
  | .error s => .error s.dns
  | .ok out => .ok ⟨out.store.dns, out.sb, out.off⟩

/-- With its node names left out, a call that does not fault is the call on the nodes. -/
theorem handle_erase {r : Except NamedStore NamedResponse}
    (h : handle path self allocs req res = some r) :
    MappedDns.handle self.dns (fun i => (allocs i).node) req res = eraseResponse r := by
  unfold handle at h
  unfold MappedDns.handle
  by_cases hlen : res.length < req.length
  · rw [if_pos hlen] at h ⊢
    cases h
    rfl
  · rw [if_neg hlen] at h ⊢
    dsimp only at h ⊢
    by_cases hqd : readU16 req 4 > 32
    · rw [if_pos hqd] at h ⊢
      cases h
      rfl
    · rw [if_neg hqd] at h ⊢
      cases hw : handleQuestions path req.length allocs (readU16 req 4) 0 ⟨self, req, 12, []⟩ with
      | none =>
        rw [hw] at h
        cases h
      | some x =>
        have he := handleQuestions_erase hw
        rw [hw] at h
        rw [show (⟨self.dns, req, 12, []⟩ : Walk) = NamedWalk.erase ⟨self, req, 12, []⟩ from rfl, he]
        cases x with
        | error s =>
          cases h
          rfl
        | ok w =>
          dsimp only [eraseWalk, NamedWalk.erase] at h ⊢
          cases ha : writeAnswers w.answers (store (store res 0 req) 6 [0, 0, 0, 0]) w.off with
          | none =>
            rw [ha] at h
            cases h
            rfl
          | some x =>
            rw [ha] at h
            cases h
            rfl

/-- The store of a reply is the one that the walk over the questions leaves. -/
theorem handle_walk {out : NamedResponse} (h : handle path self allocs req res = some (.ok out)) :
    ∃ w, handleQuestions path req.length allocs (readU16 req 4) 0 ⟨self, req, 12, []⟩ =
      some (.ok w) ∧ w.store = out.store := by
  unfold handle at h
  split at h
  · cases h
  · dsimp only at h
    split at h
    · cases h
    · split at h
      · cases h
      · cases h
      · rename_i w hw
        split at h
        · cases h
        · cases h
          exact ⟨w, hw, rfl⟩

theorem asks_fst : (asks allocs i off qs).map Prod.fst =
    asked (fun i => (allocs i).node) i off qs := by
  induction qs generalizing i off with
  | nil => rfl
  | cons q qs ih =>
    rw [asks, asked]
    split
    · rw [List.map_cons, ih]
    · exact ih

theorem serve_dns (h : serve path self as = some s) :
    (MappedDns.serve self.dns (as.map Prod.fst)).1 = s.dns := by
  induction as generalizing self with
  | nil =>
    cases h
    rfl
  | cons a as ih =>
    rw [serve] at h
    split at h
    · cases h
    · rename_i u r hf
      have hdns := find_dns hf
      dsimp only at hdns
      rw [List.map_cons, MappedDns.serve, hdns]
      cases r with
      | none => exact ih h
      | some idx => exact ih h

/-- The finds of the loop over questions that are written out. -/
theorem handleQuestions_serve (hv : ∀ q ∈ qs, q.Valid)
    (hq : qlen = (pre ++ (qs.flatMap Dns.Question.encode ++ post)).length)
    {answers : List (Nat × BitVec 32)}
    (h : handleQuestions path qlen allocs qs.length i
      ⟨self, pre ++ (qs.flatMap Dns.Question.encode ++ post), pre.length, answers⟩ = some (.ok w)) :
    serve path self (asks allocs i pre.length qs) = some w.store := by
  induction qs generalizing self pre answers i with
  | nil =>
    cases h
    rfl
  | cons q qs ih =>
    obtain ⟨hvq, hv⟩ := List.forall_mem_cons.mp hv
    rw [List.flatMap_cons, List.append_assoc] at hq h
    obtain ⟨rb, off, hskip, hrb, hend, htype, hclass, hname⟩ := question_read hvq hq
    have hqlen : qlen = pre.length + q.encode.length +
        (qs.flatMap Dns.Question.encode ++ post).length := by
      rw [hq, List.length_append, List.length_append, Nat.add_assoc]
    have hq' : qlen = (rb ++ (qs.flatMap Dns.Question.encode ++ post)).length := by
      rw [List.length_append]
      omega
    rw [List.length_cons, handleQuestions, handleQuestion] at h
    dsimp only at h
    rw [hskip] at h
    dsimp only at h
    rw [if_neg (by omega), htype, hclass, hend, ← hrb] at h
    rw [asks, ← hrb]
    by_cases hA : q.qtype = 1 ∧ q.qclass = 1
    · rw [if_pos hA, hname hA.1] at h
      rw [if_pos hA, serve]
      cases hf : self.find path (cname q.name) (allocs i) with
      | none =>
        rw [hf] at h
        cases h
      | some x =>
        obtain ⟨s, r⟩ := x
        rw [hf] at h
        cases r with
        | none => exact ih hv hq' h
        | some idx => exact ih hv hq' h
    · rw [if_neg hA] at h
      rw [if_neg hA]
      exact ih hv hq' h

/-- A call on a store without unnamed nodes does not fault if all copies are made. -/
theorem handle_of_named (h : ∀ p, self.unnamed p = false) (hc : ∀ i, (allocs i).copy = true) :
    ∃ r, handle path self allocs req res = some r := by
  have hone : ∀ (w : NamedWalk) i, (∀ p, w.store.unnamed p = false) →
      ∃ r, handleQuestion path req.length (allocs i) w = some r ∧
        ∀ w', r = .ok w' → ∀ p, w'.store.unnamed p = false := by
    intro w i hw
    unfold handleQuestion
    split
    · exact ⟨_, rfl, nofun⟩
    · dsimp only
      split
      · exact ⟨_, rfl, nofun⟩
      · split
        · rename_i rb off _ _ _
          obtain ⟨s, r, hf, hs⟩ : ∃ s r, w.store.find path (cstring rb (w.off + 1)) (allocs i) =
              some (s, r) ∧ ((allocs i).copy = true → ∀ p, s.unnamed p = false) := find_of_named hw
          rw [hf]
          cases r with
          | none => exact ⟨_, rfl, fun w' he => by cases he; exact hs (hc i)⟩
          | some idx => exact ⟨_, rfl, fun w' he => by cases he; exact hs (hc i)⟩
        · exact ⟨_, rfl, fun w' he => by cases he; exact hw⟩
  have hall : ∀ n (w : NamedWalk) i, (∀ p, w.store.unnamed p = false) →
      ∃ r, handleQuestions path req.length allocs n i w = some r := by
    intro n
    induction n with
    | zero => exact fun w i _ => ⟨_, rfl⟩
    | succ n ih =>
      intro w i hw
      obtain ⟨r, hr, hnext⟩ := hone w i hw
      rw [handleQuestions, hr]
      cases r with
      | error s => exact ⟨_, rfl⟩
      | ok w' => exact ih w' (i + 1) (hnext w' rfl)
  unfold handle
  split
  · exact ⟨_, rfl⟩
  · dsimp only
    split
    · exact ⟨_, rfl⟩
    · obtain ⟨r, hr⟩ := hall (readU16 req 4) ⟨self, req, 12, []⟩ 0 h
      rw [hr]
      cases r with
      | error s => exact ⟨_, rfl⟩
      | ok w =>
        dsimp only
        split
        · exact ⟨_, rfl⟩
        · exact ⟨_, rfl⟩

end NamedStore

end XTunnel.MappedDns
