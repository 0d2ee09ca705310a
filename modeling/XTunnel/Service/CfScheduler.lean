import XTunnel.Transition

/-! The scheduler of `CfOptimizer`: its network watchers and its delayed runs. -/
namespace XTunnel.Service.CfScheduler

/-- A run that `schedulerHandler` has yet to start. -/
inductive Delayed
  | warmUp
  | networkChange
  deriving DecidableEq

/-- What becomes of `registerNetworkCallback`. -/
inductive Registration
  | noService
  | throws
  | registered

/-- `registered` are the callbacks that the connectivity service has; `stopped` tells whether
`stopScheduler(context)` was called after the last start. -/
structure State where
  networkCallback : Option Nat
  registered : List Nat
  next : Nat
  pending : List Delayed
  stopped : Bool

def initial : State := ⟨none, [], 0, [], false⟩

namespace State

/-- `stopScheduler()`. Nothing ever sets `schedulerRunnable`. -/
def stopScheduler (s : State) : State := { s with pending := [] }

/-- The field is set before the registration, which may throw. -/
def registerNetworkWatcher (s : State) : Registration → State
  | .noService => s
  | .throws => { s with networkCallback := some s.next, next := s.next + 1 }
  | .registered =>
    { s with
      networkCallback := some s.next
      registered := s.next :: s.registered
      next := s.next + 1 }

def startScheduler (s : State) (cfOptEnabled : Bool) (r : Registration) : State :=
  let s := { s.stopScheduler with stopped := false }
  if !cfOptEnabled then s
  else { s with pending := s.pending ++ [Delayed.warmUp] }.registerNetworkWatcher r

/-- `stopScheduler(context)`, with a context or with null. A callback that is not registered makes
the service throw, which is ignored. -/
def stopSchedulerContext (s : State) (context service : Bool) : State :=
  let s :=
    match s.networkCallback with
    | none => s
    | some callback =>
      if context then
        { s with
          networkCallback := none
          registered := if service then s.registered.erase callback else s.registered }
      else s
  { s.stopScheduler with stopped := true }

end State

inductive Action
  | start (cfOptEnabled : Bool) (r : Registration)
  | stopContext (context service : Bool)
  | stop
  | fire (d : Delayed)
  | change

/-- The calls in any order, and between them delayed runs that start and networks that change. -/
inductive Step : State → Action → State → Prop
  | start {s : State} {cfOptEnabled : Bool} {r : Registration} :
      Step s (.start cfOptEnabled r) (s.startScheduler cfOptEnabled r)
  | stopContext {s : State} {context service : Bool} :
      Step s (.stopContext context service) (s.stopSchedulerContext context service)
  | stop {s : State} : Step s .stop s.stopScheduler
  | fire {s : State} {d : Delayed} : d ∈ s.pending →
      Step s (.fire d) { s with pending := s.pending.erase d }
  | change {s : State} : s.registered ≠ [] →
      Step s .change { s with pending := s.pending ++ [.networkChange] }

/-- At most one watcher and one warm-up, and no watcher behind `stopScheduler(context)`. -/
structure Bounded (s : State) : Prop where
  watchers : s.registered.length ≤ 1
  stopped : s.stopped = true → s.registered = []
  warmUps : s.pending.count Delayed.warmUp ≤ 1

/-- A watcher is registered while there is none, and `stopScheduler(context)` finds in its field the
one that there is. -/
def Clear (s : State) : Action → Prop
  | .start true .registered => s.registered = []
  | .stopContext context service => s.registered = [] ∨
      (context = true ∧ service = true) ∧
        ∃ callback, s.networkCallback = some callback ∧ s.registered = [callback]
  | _ => True

variable {s t : State} {a : Action} {xs : List Action} {context service cfOptEnabled : Bool}
  {r : Registration}

theorem bounded_initial : Bounded initial := by
  constructor
  · exact Nat.zero_le 1
  · intro h
    cases h
  · exact Nat.zero_le 1

theorem start_registered : s.startScheduler true .registered =
    { networkCallback := some s.next
      registered := s.next :: s.registered
      next := s.next + 1
      pending := [.warmUp]
      stopped := false } := rfl

/-- Without a registration the watchers stay. -/
theorem start_unregistered (h : cfOptEnabled = false ∨ r ≠ .registered) :
    (s.startScheduler cfOptEnabled r).registered = s.registered := by
  cases cfOptEnabled with
  | false => rfl
  | true =>
    cases r with
    | registered => exact (h.resolve_left (by decide) rfl).elim
    | noService | throws => rfl

theorem start_stopped : (s.startScheduler cfOptEnabled r).stopped = false := by
  cases cfOptEnabled with
  | false => rfl
  | true => cases r <;> rfl

theorem start_warmUps : (s.startScheduler cfOptEnabled r).pending.count Delayed.warmUp ≤ 1 := by
  cases cfOptEnabled with
  | false => exact Nat.zero_le 1
  | true => cases r <;> exact Nat.le_refl 1

theorem bounded_start (hs : Bounded s) :
    Bounded (s.startScheduler cfOptEnabled r) ↔ Clear s (.start cfOptEnabled r) := by
  have bounded : (s.startScheduler cfOptEnabled r).registered.length ≤ 1 →
      Bounded (s.startScheduler cfOptEnabled r) := by
    intro hlen
    refine ⟨hlen, ?_, start_warmUps⟩
    intro hstopped
    rw [start_stopped] at hstopped
    cases hstopped
  by_cases hr : cfOptEnabled = false ∨ r ≠ .registered
  · have hclear : Clear s (.start cfOptEnabled r) := by
      cases cfOptEnabled with
      | false => trivial
      | true =>
        cases r with
        | registered => exact (hr.resolve_left (by decide) rfl).elim
        | noService | throws => trivial
    refine iff_of_true (bounded ?_) hclear
    rw [start_unregistered hr]
    exact hs.watchers
  · obtain ⟨hen, hreg⟩ := not_or.mp hr
    obtain rfl : cfOptEnabled = true := by simpa using hen
    obtain rfl : r = .registered := Classical.not_not.mp hreg
    constructor
    · intro hb
      have hlen := hb.watchers
      rw [start_registered] at hlen
      exact List.eq_nil_of_length_eq_zero (Nat.le_zero.mp (Nat.le_of_succ_le_succ hlen))
    · intro hnone
      apply bounded
      rw [start_registered, show s.registered = [] from hnone]
      exact Nat.le_refl 1

/-- What the call leaves of at most one watcher. -/
theorem stopContext_nil (hs : s.registered.length ≤ 1) :
    (s.stopSchedulerContext context service).registered = [] ↔
      Clear s (.stopContext context service) := by
  rcases hreg : s.registered with _ | ⟨w, ws⟩
  · refine iff_of_true ?_ (Or.inl hreg)
    unfold State.stopSchedulerContext State.stopScheduler
    dsimp only
    split
    · exact hreg
    · split
      · dsimp only
        split <;> simp [hreg]
      · exact hreg
  · obtain rfl : ws = [] := by
      rw [hreg] at hs
      exact List.eq_nil_of_length_eq_zero (Nat.le_zero.mp (Nat.le_of_succ_le_succ hs))
    unfold Clear State.stopSchedulerContext State.stopScheduler
    rw [hreg]
    cases hf : s.networkCallback with
    | none => simp [hreg]
    | some callback =>
      cases context with
      | false => simp [hreg]
      | true =>
        cases service with
        | false => simp
        | true =>
          by_cases hw : w = callback
          · subst hw
            simp
          · simp [hw]

theorem bounded_stopContext (hs : Bounded s) :
    Bounded (s.stopSchedulerContext context service) ↔ Clear s (.stopContext context service) := by
  rw [← stopContext_nil hs.watchers]
  constructor
  · intro hb
    exact hb.stopped rfl
  · intro hnone
    refine ⟨?_, fun _ => hnone, Nat.zero_le 1⟩
    rw [hnone]
    exact Nat.zero_le 1

/-- One case for each call or event. -/
theorem bounded_step (h : Step s a t) (hs : Bounded s) : Bounded t ↔ Clear s a := by
  cases h with
  | start => exact bounded_start hs
  | stopContext => exact bounded_stopContext hs
  | stop => exact iff_of_true ⟨hs.watchers, hs.stopped, Nat.zero_le 1⟩ trivial
  | fire hd =>
    refine iff_of_true ⟨hs.watchers, hs.stopped, ?_⟩ trivial
    exact Nat.le_trans (List.erase_sublist.count_le _) hs.warmUps
  | change hr =>
    refine iff_of_true ⟨hs.watchers, hs.stopped, ?_⟩ trivial
    have hcount : (s.pending ++ [Delayed.networkChange]).count .warmUp =
        s.pending.count .warmUp := by
      rw [List.count_append]
      rfl
    rw [hcount]
    exact hs.warmUps

/-- The bounds hold all along exactly the runs in which every watcher is stopped before the next one
is registered. -/
theorem watchers_bounded_iff :
    Run (Into Step Bounded) initial xs s ↔ Run (Guarded Step Clear) initial xs s :=
  Run.into_iff_guarded (fun _ _ _ h hs => bounded_step h hs) bounded_initial

/-- Two starts in a row leave two watchers. -/
theorem watchers_accumulate : ¬ ∀ xs s, Run Step initial xs s → Bounded s := by
  intro h
  have hb := h [.start true .registered, .start true .registered] _
    (.stepL .start (.single .start))
  exact absurd hb.watchers (by decide)

end XTunnel.Service.CfScheduler
