import XTunnel.Service.Launch

/-! Whole calls of `StartSocksProxy`, with every way that they return. -/
namespace XTunnel.Service

open Net Socks5

variable {parse : Text → Option Url} {s t u : State} {k : Nat} {args : StartArgs} {g : Generation}

/-- The labels of the process together with the returns that change no global of `System`. -/
inductive CallAction
  | act (a : Action)
  | refuse (args : StartArgs)
  | running (args : StartArgs)
  | echError

/-- A step of the process, or an early return of `StartSocksProxy`. -/
inductive LifeStep (parse : Text → Option Url) : State → CallAction → State → Prop
  | step {s t : State} {a : Action} : Step parse s a t → LifeStep parse s (.act a) t
  -- the checks come before the lock
  | refuse {s : State} {args : StartArgs} {e : StartError} :
      s.crashed = false → checkArgs parse args = .error e → LifeStep parse s (.refuse args) s
  | running {s : State} {args : StartArgs} {scheme : Scheme} :
      s.crashed = false → checkArgs parse args = .ok scheme → s.serviceMu = none → ¬ s.Stopped →
      LifeStep parse s (.running args) s
  -- `prepareECH` returned an error
  | echError {s : State} {args : StartArgs} :
      s.crashed = false → s.serviceMu = some (.awaitECH args) → LifeStep parse s .echError s.unlock

/-- How a call of `StartSocksProxy` returns. -/
inductive StartResult
  | started | refused | running | echError | listenError
deriving DecidableEq

/-- What a call returns with this step, if the step is one that releases the lock. -/
def CallAction.returns : CallAction → Option StartResult
  | .act .serve => some .started
  | .act .abandon => some .listenError
  | .echError => some .echError
  | _ => none

/-- The step keeps the lock where it is. -/
def CallAction.holds : CallAction → Bool
  | .act .serve | .act .abandon | .act .stopPool | .echError => false
  | _ => true

/-- A call of `StartSocksProxy` from the moment that it looks at the globals to its return, with any
steps of other goroutines in between. -/
inductive StartCall (parse : Text → Option Url) (s : State) (args : StartArgs) :
    StartResult → State → Prop
  | refused : LifeStep parse s (.refuse args) s → StartCall parse s args .refused s
  | running : LifeStep parse s (.running args) s → StartCall parse s args .running s
  | locked {xs : List CallAction} {a : CallAction} {r : StartResult} {t : State} :
      Run (LifeStep parse) s (.act (.start args) :: (xs ++ [a])) t → (∀ b ∈ xs, b.holds = true) →
      a.returns = some r → StartCall parse s args r t

/-- The states that the process can reach. -/
def LifeReachable (parse : Text → Option Url) : State → Prop :=
  Reachable (fun s => s = initial) (LifeStep parse)

/-- A call in progress that has made no pool lets go of the lock. -/
theorem serviceInv_unlock (hi : ServiceInv s) (hs : s.Stopped) (ho : s.owner = none) :
    ServiceInv s.unlock := by
  have hnone : s.unlock.globals.echPool = none := hs.2
  refine ⟨⟨hs.1.trans hs.2.symm, fun gen hg => by cases hnone.symm.trans hg⟩, ?_⟩
  intro k g hk _
  exact hi.closed k g hk (by rw [ho]; exact nofun)

theorem serviceInv_lifeStep {a : CallAction} (h : LifeStep parse s a t) (hs : ServiceInv s) :
    ServiceInv t := by
  cases h with
  | step h => exact serviceInv_step h hs
  | refuse => exact hs
  | running => exact hs
  | echError _ hm =>
    have hst := hs.stage
    simp only [State.Stage, hm] at hst
    exact serviceInv_unlock hs hst (by simp [State.owner, hm])

theorem serviceInv_lifeReachable (h : LifeReachable parse s) : ServiceInv s := by
  refine Reachable.invariant (fun _ _ _ => serviceInv_lifeStep) ?_ h
  rintro _ rfl
  exact serviceInv_initial

/-- Whoever holds the lock, one generation at most is not closed. -/
theorem owner_of_open (hi : ServiceInv s) (hk : s.generations[k]? = some g) (ho : ¬ g.Closed) :
    s.owner = some k := by
  by_cases he : s.owner = some k
  · exact he
  · exact (ho (hi.closed k g hk he)).elim

/-- The service is stopped and no call is in progress. -/
def State.Idle (s : State) : Prop := s.serviceMu = none ∧ s.Stopped

theorem idle_closed (hi : ServiceInv s) (hs : s.Idle) (hk : s.generations[k]? = some g) :
    g.Closed := by
  refine hi.closed k g hk ?_
  rw [State.owner, hs.1]
  simp [hs.2.2]

/-- The step that returns an error leaves the service stopped. -/
theorem idle_of_error {a : CallAction} {r : StartResult} (h : LifeStep parse s a t)
    (hi : ServiceInv s) (hr : a.returns = some r) (hne : r ≠ .started) :
    t.Idle ∧ t.crashed = false := by
  have hst := hi.stage
  cases h with
  | echError hc hm =>
    simp only [State.Stage, hm] at hst
    exact ⟨⟨rfl, hst⟩, hc⟩
  | step h =>
    cases h with
    | go _ h => cases h <;> cases hr
    | call hc h =>
      cases h with
      | serve => exact (hne (Option.some_inj.mp hr).symm).elim
      | abandon hm =>
        simp only [State.Stage, hm] at hst
        exact ⟨⟨rfl, hst.1, rfl⟩, hc⟩
      | _ => cases hr
  | _ => cases hr

theorem start_idle {a : CallAction} (h : LifeStep parse s a t) (ha : a = .act (.start args)) :
    s.Idle := by
  cases h with
  | step h =>
    cases ha
    cases h with
    | go _ h => cases h
    | call _ h =>
      cases h with
      | start hm _ hl hp => exact ⟨hm, hl, hp⟩
  | _ => cases ha

/-- A call that has the lock found the service stopped, and lets go in a reachable state. -/
theorem startCall_locked {xs : List CallAction} {a : CallAction} (hi : ServiceInv s)
    (h : Run (LifeStep parse) s (.act (.start args) :: (xs ++ [a])) t) :
    s.Idle ∧ ∃ u, ServiceInv u ∧ LifeStep parse u a t := by
  cases h with
  | stepL hs hr =>
    obtain ⟨u, hu, hlast⟩ := hr.split
    refine ⟨start_idle hs rfl, u, ?_, ?_⟩
    · exact hu.invariant (fun _ _ _ => serviceInv_lifeStep) (serviceInv_lifeStep hs hi)
    · cases hlast with
      | stepL ha hend =>
        cases hend
        exact ha

/-- A start succeeds from the stopped state only. -/
theorem startCall_started (hi : ServiceInv s) (h : StartCall parse s args .started t) : s.Idle := by
  cases h with
  | locked hr _ _ => exact (startCall_locked hi hr).1

/-- An error finds the service as it was, or leaves it stopped. -/
theorem startCall_error {r : StartResult} (hi : ServiceInv s) (h : StartCall parse s args r t)
    (hne : r ≠ .started) : ServiceInv t ∧ t.crashed = false ∧ (t = s ∨ t.Idle) := by
  cases h with
  | refused hs =>
    cases hs with
    | refuse hc _ => exact ⟨hi, hc, .inl rfl⟩
  | running hs =>
    cases hs with
    | running hc _ _ _ => exact ⟨hi, hc, .inl rfl⟩
  | locked hr _ ha =>
    obtain ⟨-, u, hu, hstep⟩ := startCall_locked hi hr
    obtain ⟨hidle, hc⟩ := idle_of_error hstep hu ha hne
    exact ⟨serviceInv_lifeStep hstep hu, hc, .inr hidle⟩

theorem holds_launching {xs : List Action} (hxs : xs ⊆ [.prepareECH, .awaitECH]) :
    ∀ b ∈ (launching args xs).map CallAction.act, b.holds = true := by
  intro b hb
  obtain ⟨a, ha, rfl⟩ := List.mem_map.mp hb
  rcases List.mem_append.mp ha with ha | ha
  · obtain ⟨setting, -, rfl⟩ := List.mem_map.mp ha
    rfl
  · rcases List.mem_append.mp ha with ha | ha
    · have ha := hxs ha
      simp only [List.mem_cons, List.not_mem_nil, or_false] at ha
      rcases ha with rfl | rfl <;> rfl
    · simp only [List.mem_cons, List.not_mem_nil, or_false] at ha
      rcases ha with rfl | rfl | rfl | rfl <;> rfl

theorem run_lifeStep {xs : List Action} (h : Run (Step parse) s xs t) :
    Run (LifeStep parse) s (xs.map .act) t := by
  induction h with
  | refl => exact .refl
  | stepL hs _ ih => exact .stepL (.step hs) ih

/-- A start of an idle service can succeed. -/
theorem startCall_idle {scheme : Scheme} (hc : s.crashed = false) (hs : s.Idle)
    (hargs : checkArgs parse args = .ok scheme) :
    ∃ t, StartCall parse s args .started t ∧ ¬ t.Stopped := by
  obtain ⟨xs, fetchers, hxs, hr⟩ := run_startCall (G := Unguarded) hc hs.1 hs.2 hargs []
    (fun _ _ _ => trivial) fun _ _ _ _ => trivial
  have hrun := run_lifeStep hr.of_guarded
  rw [List.map_cons, List.map_append] at hrun
  exact ⟨_, .locked hrun (holds_launching hxs) rfl, fun h => by cases h.1⟩

/-- One pool at most is not closed, and one listener at most is open. -/
structure OneService (s : State) : Prop where
  globals : s.serviceMu = none → (s.globals.proxyListener.isSome ↔ s.globals.echPool.isSome)
  pool : ∀ (i j : GenId) (g g' : Generation), s.generations[i]? = some g →
    s.generations[j]? = some g' → g.pool.cancelled = false → g'.pool.cancelled = false → i = j
  listener : ∀ (i j : GenId) (g g' : Generation), s.generations[i]? = some g →
    s.generations[j]? = some g' → g.listener.isOpen = true → g'.listener.isOpen = true → i = j

theorem oneService (hi : ServiceInv s) : OneService s := by
  have hpool : ∀ {k g}, s.generations[k]? = some g → g.pool.cancelled = false →
      s.owner = some k := by
    intro k g hk hg
    refine owner_of_open hi hk fun hc => ?_
    cases hg.symm.trans hc.1
  have hopen : ∀ {k g}, s.generations[k]? = some g → g.listener.isOpen = true →
      s.owner = some k := by
    intro k g hk hg
    refine owner_of_open hi hk fun hc => ?_
    cases hg.symm.trans hc.2
  constructor
  · intro hm
    have hst := hi.stage
    simp only [State.Stage, hm] at hst
    rw [hst.1]
  · intro i j g g' hk hk' hg hg'
    exact Option.some_inj.mp ((hpool hk hg).symm.trans (hpool hk' hg'))
  · intro i j g g' hk hk' hg hg'
    exact Option.some_inj.mp ((hopen hk hg).symm.trans (hopen hk' hg'))

/-- The service is stopped with nothing left open, and the next start can succeed. -/
structure LeftStopped (parse : Text → Option Url) (s : State) : Prop where
  idle : s.Idle
  closed : ∀ (k : GenId) (g : Generation), s.generations[k]? = some g → g.Closed
  next : ∀ args scheme, checkArgs parse args = .ok scheme →
    ∃ t, StartCall parse s args .started t ∧ ¬ t.Stopped

theorem leftStopped (hi : ServiceInv s) (hs : s.Idle) (hc : s.crashed = false) :
    LeftStopped parse s :=
  ⟨hs, fun _ _ hk => idle_closed hi hs hk, fun _ _ hargs => startCall_idle hc hs hargs⟩

/-- What a call of `StartSocksProxy` promises of the states that it begins and returns in. -/
structure CallLaw (parse : Text → Option Url) (s : State) (r : StartResult) (t : State) : Prop where
  started : r = .started → s.Idle
  stopped : r ≠ .started → s.Stopped → t.Stopped
  own : r ≠ .started → ∀ (k : GenId) (g : Generation), s.generations.length ≤ k →
    t.generations[k]? = some g → g.Closed
  left : r ≠ .started → s.Idle → LeftStopped parse t

theorem callLaw {r : StartResult} (hi : ServiceInv s) (h : StartCall parse s args r t) :
    CallLaw parse s r t := by
  refine ⟨?_, fun hne hs => ?_, fun hne k g hk hg => ?_, fun hne hs => ?_⟩
  · rintro rfl
    exact startCall_started hi h
  · obtain ⟨-, -, rfl | ht⟩ := startCall_error hi h hne
    · exact hs
    · exact ht.2
  · obtain ⟨hit, -, rfl | ht⟩ := startCall_error hi h hne
    · rw [List.getElem?_eq_none hk] at hg
      cases hg
    · exact idle_closed hit ht hg
  · obtain ⟨hit, hc, rfl | ht⟩ := startCall_error hi h hne
    · exact leftStopped hit hs hc
    · exact leftStopped hit ht hc

/-- The service is published as a whole or not at all, one at a time, and a start that fails leaves
a stopped service as it was. -/
theorem service_lifecycle (h : LifeReachable parse s) :
    OneService s ∧ ∀ args r t, StartCall parse s args r t → CallLaw parse s r t :=
  ⟨oneService (serviceInv_lifeReachable h), fun _ _ _ hcall =>
    callLaw (serviceInv_lifeReachable h) hcall⟩

/-- Node A runs, and a second start finds it running. -/
theorem service_lifecycle_running : ∃ fetchers,
    (OneService (servingA fetchers) ∧ ∀ args r t,
      StartCall parsePlain (servingA fetchers) args r t →
      CallLaw parsePlain (servingA fetchers) r t) ∧
    StartCall parsePlain (servingA fetchers) nodeB .running (servingA fetchers) := by
  obtain ⟨xs, fetchers, hr⟩ := run_servingA (G := Unguarded) (fun _ _ _ => trivial)
    fun _ _ _ => trivial
  have hB : checkArgs parsePlain nodeB = .ok .wss := rfl
  exact ⟨fetchers, service_lifecycle ⟨initial, _, rfl, run_lifeStep hr.of_guarded⟩,
    .running (.running rfl hB rfl nofun)⟩

end XTunnel.Service
