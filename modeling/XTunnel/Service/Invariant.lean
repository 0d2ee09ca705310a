import XTunnel.Service.System

/-! What `serviceMu` protects: the two globals and the pools and listeners of past starts. -/
namespace XTunnel.Service

open Net Socks5

variable {parse : Text → Option Url} {s t : State} {a : Action} {gen k : Nat} {g : Generation}

def Listener.isOpen : Listener → Bool
  | .bound | .accepting => true
  | _ => false

/-- Nothing of the generation is left running. -/
def Generation.Closed (g : Generation) : Prop := g.pool.cancelled = true ∧ g.listener.isOpen = false

namespace State

def ListenerIs (s : State) (gen : GenId) (l : Listener) : Prop :=
  ∃ g, s.generations[gen]? = some g ∧ g.listener = l

/-- No service is published. -/
def Stopped (s : State) : Prop := s.globals.proxyListener = none ∧ s.globals.echPool = none

/-- The generation that may still run: the published one, or the one of the call in progress. -/
def owner (s : State) : Option GenId :=
  match s.serviceMu with
  | none => s.globals.echPool
  | some (.startPool gen) | some (.listen gen) | some (.closePool gen) | some (.publish gen)
  | some (.serve gen) => some gen
  | some (.stopClear _ p) | some (.stopListener _ p) | some (.stopPool p) => p
  | _ => none

/-- The globals, and the listener of the owner, at each place of the call in progress. -/
def Stage (s : State) : Prop :=
  match s.serviceMu with
  | none =>
    s.globals.proxyListener = s.globals.echPool ∧
      ∀ gen, s.globals.echPool = some gen → s.ListenerIs gen .accepting
  | some (.configure ..) | some (.prepareECH ..) | some (.awaitECH _) | some (.newPool _) =>
    s.Stopped
  | some (.startPool gen) | some (.listen gen) | some (.closePool gen) | some (.abandon gen) =>
    s.globals.proxyListener = none ∧ s.globals.echPool = some gen ∧ s.ListenerIs gen .absent
  | some (.publish gen) =>
    s.globals.proxyListener = none ∧ s.globals.echPool = some gen ∧ s.ListenerIs gen .bound
  | some (.serve gen) =>
    s.globals.proxyListener = some gen ∧ s.globals.echPool = some gen ∧ s.ListenerIs gen .bound
  | some (.stopClear l p) =>
    l = p ∧ p = s.globals.echPool ∧ ∀ gen, p = some gen → s.ListenerIs gen .accepting
  | some (.stopListener l p) =>
    s.Stopped ∧ l = p ∧ ∀ gen, p = some gen → s.ListenerIs gen .accepting
  | some (.stopPool p) => s.Stopped ∧ ∀ gen, p = some gen → s.ListenerIs gen .closed

end State

structure ServiceInv (s : State) : Prop where
  stage : s.Stage
  closed : ∀ k g, s.generations[k]? = some g → s.owner ≠ some k → g.Closed

/-- A step outside the lock leaves the lock, the generations and the settings alone. -/
structure SameService (s t : State) : Prop where
  serviceMu : t.serviceMu = s.serviceMu
  generations : t.generations = s.generations
  globals : ∃ raw domain, t.globals =
    { s.globals with echList := raw, echDomainOf := domain }

/-- A step of the call leaves the clients, their streams and the dials alone. -/
structure SameClients (s t : State) : Prop where
  handlers : t.handlers = s.handlers
  calls : t.calls = s.calls
  dials : t.dials = s.dials
  crashed : t.crashed = s.crashed

theorem callStep_sameClients (h : CallStep parse s a t) : SameClients s t := by
  cases h with
  | @stopListener l p => cases l <;> exact ⟨rfl, rfl, rfl, rfl⟩
  | @stopPool p => cases p <;> exact ⟨rfl, rfl, rfl, rfl⟩
  | _ => exact ⟨rfl, rfl, rfl, rfl⟩

theorem forall_mem_set {α : Type*} {P : α → Prop} {l : List α} {x : α} (h : ∀ y ∈ l, P y)
    (hx : P x) : ∀ y ∈ l.set k x, P y := by
  intro y hy
  rcases List.mem_or_eq_of_mem_set hy with hy | rfl
  · exact h y hy
  · exact hx

theorem goStep_sameService (h : GoStep parse s a t) : SameService s t := by
  cases h with
  | storeRefresh => exact ⟨rfl, rfl, _, _, rfl⟩
  | storeFetched => exact ⟨rfl, rfl, _, _, rfl⟩
  | _ => exact ⟨rfl, rfl, s.globals.echList, s.globals.echDomainOf, rfl⟩

theorem setListener_get {l : Listener} : (s.setListener gen l).generations[k]? =
    (s.generations[k]?).map fun g => if gen = k then { g with listener := l } else g := by
  simp [State.setListener, List.getElem?_modify]

theorem cancelPool_get : (s.cancelPool gen).generations[k]? = (s.generations[k]?).map fun g =>
    if gen = k then { g with pool := { g.pool with cancelled := true } } else g := by
  simp [State.cancelPool, List.getElem?_modify]

theorem setListener_ne {l : Listener} (h : (s.setListener gen l).generations[k]? = some g)
    (hne : gen ≠ k) : s.generations[k]? = some g := by
  rw [setListener_get] at h
  obtain ⟨g', hg', rfl⟩ := Option.map_eq_some_iff.mp h
  rw [if_neg hne]
  exact hg'

/-- Closing the pool of a generation without a listener closes the generation. -/
theorem closed_cancelPool {l : Listener} (hl : s.ListenerIs gen l) (ho : l.isOpen = false)
    (hcl : ∀ g, s.generations[k]? = some g → gen ≠ k → g.Closed)
    (h : (s.cancelPool gen).generations[k]? = some g) : g.Closed := by
  rw [cancelPool_get] at h
  obtain ⟨g', hg', rfl⟩ := Option.map_eq_some_iff.mp h
  by_cases he : gen = k
  · subst he
    obtain ⟨g'', hg'', hl⟩ := hl
    obtain rfl : g'' = g' := Option.some_inj.mp (hg''.symm.trans hg')
    rw [if_pos rfl]
    exact ⟨rfl, by rw [hl, ho]⟩
  · rw [if_neg he]
    exact hcl g' hg' he

theorem addGeneration_get {args : StartArgs} {uuid : Text}
    (h : (s.addGeneration args uuid).generations[k]? = some g) :
    s.generations[k]? = some g ∨ k = s.generations.length ∧ g =
      ⟨args, newECHPool args.wsServer s.globals.connectionNum args.targetIPs uuid, .absent⟩ := by
  simp only [State.addGeneration, List.getElem?_append] at h
  split at h
  · exact Or.inl h
  · rename_i hk
    rw [List.getElem?_singleton] at h
    split at h
    · cases h
      exact Or.inr ⟨by omega, rfl⟩
    · cases h

theorem serviceInv_goStep (h : GoStep parse s a t) (hs : ServiceInv s) : ServiceInv t := by
  obtain ⟨hmu, hgen, raw, domain, hg⟩ := goStep_sameService h
  obtain ⟨hst, hcl⟩ := hs
  constructor
  · unfold State.Stage State.ListenerIs State.Stopped at *
    rw [hmu, hgen, hg]
    exact hst
  · intro k g hk ho
    rw [hgen] at hk
    refine hcl k g hk fun hc => ho ?_
    rw [← hc]
    simp only [State.owner, hmu, hg]

theorem addGeneration_last (s : State) (args : StartArgs) (uuid : Text) :
    (s.addGeneration args uuid).ListenerIs s.generations.length .absent :=
  ⟨_, List.getElem?_concat_length, rfl⟩

theorem State.ListenerIs.setListener {l l' : Listener} (h : s.ListenerIs gen l) :
    (s.setListener gen l').ListenerIs gen l' := by
  obtain ⟨g, hg, -⟩ := h
  exact ⟨{ g with listener := l' }, by rw [setListener_get, hg, Option.map_some, if_pos rfl], rfl⟩

theorem State.ListenerIs.cancelPool {l : Listener} (h : s.ListenerIs gen l) :
    (s.cancelPool k).ListenerIs gen l := by
  obtain ⟨g, hg, hl⟩ := h
  rw [State.ListenerIs, cancelPool_get, hg]
  refine ⟨_, rfl, ?_⟩
  split <;> exact hl

theorem stage_callStep (h : CallStep parse s a t) (hs : s.Stage) : t.Stage := by
  cases h with
  | start hm hc hl hp => exact ⟨hl, hp⟩
  | @configure args scheme setting hm =>
    simp only [State.Stage, hm] at hs
    cases setting <;> exact hs
  | newPool uuid hm =>
    simp only [State.Stage, hm] at hs
    exact ⟨hs.1, rfl, addGeneration_last s _ uuid⟩
  | listen hm =>
    simp only [State.Stage, hm] at hs
    exact ⟨hs.1, hs.2.1, hs.2.2.setListener⟩
  | closePool hm =>
    simp only [State.Stage, hm] at hs
    exact ⟨hs.1, hs.2.1, hs.2.2.cancelPool⟩
  | abandon hm =>
    simp only [State.Stage, hm] at hs
    exact ⟨hs.1, fun gen hg => by cases hg⟩
  | publish hm =>
    simp only [State.Stage, hm] at hs
    exact ⟨rfl, hs.2⟩
  | @serve gen hm =>
    simp only [State.Stage, hm] at hs
    obtain ⟨hl, hp, hb⟩ := hs
    refine ⟨hl.trans hp.symm, fun gen' hg => ?_⟩
    obtain rfl : gen = gen' := Option.some_inj.mp (hp.symm.trans hg)
    exact hb.setListener
  | stop hm =>
    simp only [State.Stage, hm] at hs
    exact ⟨hs.1, rfl, hs.2⟩
  | stopClear hm =>
    simp only [State.Stage, hm] at hs
    exact ⟨⟨rfl, rfl⟩, hs.1, hs.2.2⟩
  | @stopListener l p hm =>
    simp only [State.Stage, hm] at hs
    obtain ⟨hst, rfl, hacc⟩ := hs
    cases l with
    | none => exact ⟨hst, fun gen hg => by cases hg⟩
    | some gen =>
      refine ⟨hst, fun gen' hg => ?_⟩
      cases hg
      exact (hacc gen rfl).setListener
  | @stopPool p hm =>
    simp only [State.Stage, hm] at hs
    obtain ⟨⟨hl, hp⟩, -⟩ := hs
    cases p <;> exact ⟨hl.trans hp.symm, fun gen hg => by cases hp.symm.trans hg⟩
  | startPool hm hg =>
    simp only [State.Stage, hm] at hs
    exact hs
  | _ hm =>
    simp only [State.Stage, hm] at hs
    exact hs

/-- Every generation but the owner stays closed, and a call closes its own before it lets go. -/
theorem closed_callStep (h : CallStep parse s a t) (hs : ServiceInv s)
    (hk : t.generations[k]? = some g) (ho : t.owner ≠ some k) : g.Closed := by
  obtain ⟨hst, hcl⟩ := hs
  cases h with
  | start hm hc hl hp =>
    refine hcl k g hk fun hc => ?_
    simp only [State.owner, hm, hp] at hc
    cases hc
  | @configure args scheme setting hm => exact hcl k g hk (by simp [State.owner, hm])
  | newPool uuid hm =>
    rcases addGeneration_get hk with hk | ⟨rfl, -⟩
    · exact hcl k g hk (by simp [State.owner, hm])
    · exact (ho rfl).elim
  | @listen gen hm =>
    have hk := setListener_ne hk fun he => ho (congrArg some he)
    exact hcl k g hk (by simp only [State.owner, hm]; exact ho)
  | @closePool gen hm =>
    simp only [State.Stage, hm] at hst
    refine closed_cancelPool hst.2.2 rfl (fun g hg hne => hcl k g hg ?_) hk
    simpa [State.owner, hm] using hne
  | abandon hm => exact hcl k g hk (by simp [State.owner, hm])
  | @serve gen hm =>
    simp only [State.Stage, hm] at hst
    have hne : gen ≠ k := fun he => ho (hst.2.1.trans (congrArg some he))
    exact hcl k g (setListener_ne hk hne) (by simpa [State.owner, hm] using hne)
  | @stopListener l p hm =>
    simp only [State.Stage, hm] at hst
    obtain ⟨-, rfl, -⟩ := hst
    have hne : l ≠ some k := ho
    cases l with
    | none => exact hcl k g hk (by simp [State.owner, hm])
    | some gen =>
      have hk := setListener_ne hk fun he => hne (congrArg some he)
      exact hcl k g hk (by simp only [State.owner, hm]; exact hne)
  | @stopPool p hm =>
    simp only [State.Stage, hm] at hst
    cases p with
    | none => exact hcl k g hk (by simp [State.owner, hm])
    | some gen =>
      refine closed_cancelPool (hst.2 gen rfl) rfl (fun g hg hne => hcl k g hg ?_) hk
      simpa [State.owner, hm] using hne
  | startPool hm hg => exact hcl k g hk (by simp only [State.owner, hm]; exact ho)
  | _ hm => exact hcl k g hk (by simp only [State.owner, hm]; exact ho)

theorem serviceInv_step (h : Step parse s a t) (hs : ServiceInv s) : ServiceInv t := by
  cases h with
  | call _ h => exact ⟨stage_callStep h hs.stage, fun k g hk ho => closed_callStep h hs hk ho⟩
  | go _ h => exact serviceInv_goStep h hs

theorem serviceInv_initial : ServiceInv initial :=
  ⟨⟨rfl, fun gen hg => by cases hg⟩, fun k g hk => by cases hk⟩

theorem serviceInv_reachable (h : ReachableState parse s) : ServiceInv s := by
  refine Reachable.invariant (fun _ _ _ => serviceInv_step) ?_ h
  rintro _ rfl
  exact serviceInv_initial

/-- The generation keeps what it was started with. -/
structure Generation.Same (g g' : Generation) : Prop where
  args : g'.args = g.args
  pool : ∃ cancelled, g'.pool = { g.pool with cancelled := cancelled }

theorem Generation.Same.refl (g : Generation) : g.Same g := ⟨rfl, g.pool.cancelled, rfl⟩

theorem setListener_same {l : Listener} (h : s.generations[k]? = some g) :
    ∃ g', (s.setListener gen l).generations[k]? = some g' ∧ g.Same g' := by
  rw [setListener_get, h]
  refine ⟨_, rfl, ?_⟩
  split <;> exact ⟨rfl, _, rfl⟩

theorem cancelPool_same (h : s.generations[k]? = some g) :
    ∃ g', (s.cancelPool gen).generations[k]? = some g' ∧ g.Same g' := by
  rw [cancelPool_get, h]
  refine ⟨_, rfl, ?_⟩
  split <;> exact ⟨rfl, _, rfl⟩

theorem generation_step (h : Step parse s a t) (hk : s.generations[k]? = some g) :
    ∃ g', t.generations[k]? = some g' ∧ g.Same g' := by
  cases h with
  | go _ h => exact ⟨g, by rw [(goStep_sameService h).generations, hk], .refl g⟩
  | call _ h =>
    cases h with
    | newPool uuid hm =>
      obtain ⟨hlt, -⟩ := List.getElem?_eq_some_iff.mp hk
      exact ⟨g, (List.getElem?_append_left hlt).trans hk, .refl g⟩
    | listen hm | serve hm => exact setListener_same hk
    | closePool hm => exact cancelPool_same hk
    | @stopListener l p hm =>
      cases l with
      | none => exact ⟨g, hk, .refl g⟩
      | some gen => exact setListener_same hk
    | @stopPool p hm =>
      cases p with
      | none => exact ⟨g, hk, .refl g⟩
      | some gen => exact cancelPool_same hk
    | _ => exact ⟨g, hk, .refl g⟩

theorem setListener_back {l : Listener} (h : (s.setListener gen l).generations[k]? = some g) :
    ∃ g', s.generations[k]? = some g' ∧ g'.Same g ∧ g.pool = g'.pool := by
  rw [setListener_get] at h
  obtain ⟨g', hg', rfl⟩ := Option.map_eq_some_iff.mp h
  refine ⟨g', hg', ?_⟩
  split <;> exact ⟨⟨rfl, _, rfl⟩, rfl⟩

theorem cancelPool_back (h : (s.cancelPool gen).generations[k]? = some g) :
    ∃ g', s.generations[k]? = some g' ∧ g'.Same g ∧
      (g.pool.cancelled = false → g'.pool.cancelled = false) := by
  rw [cancelPool_get] at h
  obtain ⟨g', hg', rfl⟩ := Option.map_eq_some_iff.mp h
  refine ⟨g', hg', ?_⟩
  split
  · exact ⟨⟨rfl, true, rfl⟩, fun hc => by cases hc⟩
  · exact ⟨.refl g', id⟩

/-- A generation is an old one, or the one that the call has just made. -/
theorem generation_back (h : CallStep parse s a t) (hk : t.generations[k]? = some g) :
    (∃ g', s.generations[k]? = some g' ∧ g'.Same g ∧
      (g.pool.cancelled = false → g'.pool.cancelled = false)) ∨
    ∃ args uuid, s.serviceMu = some (.newPool args) ∧ a = .newPool ∧ g =
      ⟨args, newECHPool args.wsServer s.globals.connectionNum args.targetIPs uuid, .absent⟩ := by
  have hlistener : ∀ {gen l}, (s.setListener gen l).generations[k]? = some g →
      ∃ g', s.generations[k]? = some g' ∧ g'.Same g ∧
        (g.pool.cancelled = false → g'.pool.cancelled = false) := by
    intro gen l hk
    obtain ⟨g', hg', hsame, hp⟩ := setListener_back hk
    exact ⟨g', hg', hsame, fun hc => hp ▸ hc⟩
  cases h with
  | newPool uuid hm =>
    rcases addGeneration_get hk with hk | ⟨-, rfl⟩
    · exact Or.inl ⟨g, hk, .refl g, id⟩
    · exact Or.inr ⟨_, uuid, hm, rfl, rfl⟩
  | listen hm | serve hm => exact Or.inl (hlistener hk)
  | closePool hm => exact Or.inl (cancelPool_back hk)
  | @stopListener l p hm =>
    cases l with
    | none => exact Or.inl ⟨g, hk, .refl g, id⟩
    | some gen => exact Or.inl (hlistener hk)
  | @stopPool p hm =>
    cases p with
    | none => exact Or.inl ⟨g, hk, .refl g, id⟩
    | some gen => exact Or.inl (cancelPool_back hk)
  | _ => exact Or.inl ⟨g, hk, .refl g, id⟩

end XTunnel.Service
