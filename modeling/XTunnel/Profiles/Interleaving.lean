import XTunnel.Profiles.Registry

/-! `addProfile` and `removeProfile` of two threads over one store, one read or commit at a time. -/
namespace XTunnel.Profiles

open Preferences

namespace Preferences

variable (hash : HashOrder)

/-- The commit of `addProfile`, from the set that it has read. -/
def commitAdd (p : Preferences) (profiles : StringSet) (id name : String) : Preferences :=
  (p.put (.global .PROFILES) (.stringSet (profiles.add hash id))).put
    (.profile .PROFILE_NAME id) (.string name)

/-- The commit of `removeProfile`, from the set that it has read. -/
def commitRemove (p : Preferences) (profiles : StringSet) (id : String) : Preferences :=
  let p := p.put (.global .PROFILES) (.stringSet (profiles.remove hash id))
  let p := p.remove (.profile .PROFILE_NAME id)
  let p := settingKeys.foldl (fun p k => p.remove (.profile k id)) p
  let p := p.remove (.profile .PROFILE_IS_SUB id)
  p.remove (.profile .PROFILE_LATENCY id)

end Preferences

inductive Thread
  | sync | ui
deriving DecidableEq

/-- What a thread does to the store. Other writes leave the set of profiles alone. -/
inductive Call
  | addProfile (id name : String)
  | removeProfile (id : String)
  | write (k : Key) (v : Value) (h : k ≠ .global .PROFILES)

/-- Where a thread is, with what it has read. -/
inductive PC
  | idle
  | adding (id name : String) (profiles : StringSet)
  | removing (id : String) (profiles : StringSet)
  | erased (id : String)
  | ordering (id : String) (order : List String)

/-- The additions and removals that have completed. -/
inductive Event
  | added (id : String)
  | removed (id : String)
deriving DecidableEq

def Event.id : Event → String
  | added id | removed id => id

/-- The store, the threads, the calls they have still to make, and the newest event first. -/
structure State where
  store : Preferences
  pc : Thread → PC
  calls : Thread → List Call
  history : List Event

namespace State

def setPC (s : State) (th : Thread) (pc : PC) : State :=
  { s with pc := Function.update s.pc th pc }

def setCalls (s : State) (th : Thread) (calls : List Call) : State :=
  { s with calls := Function.update s.calls th calls }

def log (s : State) (e : Event) : State := { s with history := e :: s.history }

def ids (s : State) : List String := s.store.getProfileIds.elems

def Finished (s : State) : Prop := ∀ th, s.pc th = .idle ∧ s.calls th = []

end State

/-- Both threads before their first call. -/
def start (p : Preferences) (program : Thread → List Call) : State :=
  ⟨p, fun _ => .idle, program, []⟩

inductive Step (hash : HashOrder) : State → Thread → State → Prop
  | write {s : State} {th : Thread} {cs : List Call} {k : Key} {v : Value}
      {h : k ≠ .global .PROFILES} :
      s.pc th = .idle → s.calls th = .write k v h :: cs →
      Step hash s th { s.setCalls th cs with store := s.store.put k v }
  | readAdd {s : State} {th : Thread} {cs : List Call} {id name : String} :
      s.pc th = .idle → s.calls th = .addProfile id name :: cs →
      Step hash s th ((s.setCalls th cs).setPC th (.adding id name s.store.getProfileIds))
  | commitAdd {s : State} {th : Thread} {id name : String} {profiles : StringSet} :
      s.pc th = .adding id name profiles →
      Step hash s th
        { (s.setPC th .idle).log (.added id) with store := s.store.commitAdd hash profiles id name }
  | readRemove {s : State} {th : Thread} {cs : List Call} {id : String} :
      s.pc th = .idle → s.calls th = .removeProfile id :: cs → id ∈ s.ids →
      Step hash s th ((s.setCalls th cs).setPC th (.removing id s.store.getProfileIds))
  -- the early return of `removeProfile`
  | readAbsent {s : State} {th : Thread} {cs : List Call} {id : String} :
      s.pc th = .idle → s.calls th = .removeProfile id :: cs → id ∉ s.ids →
      Step hash s th ((s.setCalls th cs).log (.removed id))
  | commitRemove {s : State} {th : Thread} {id : String} {profiles : StringSet} :
      s.pc th = .removing id profiles →
      Step hash s th { (s.setPC th (.erased id)).log (.removed id) with
        store := s.store.commitRemove hash profiles id }
  | readOrder {s : State} {th : Thread} {id : String} :
      s.pc th = .erased id →
      Step hash s th (s.setPC th (.ordering id s.store.getProfileOrder))
  | writeOrder {s : State} {th : Thread} {id : String} {order : List String} :
      s.pc th = .ordering id order →
      Step hash s th { s.setPC th .idle with
        store := if order.contains id then s.store.setProfileOrder (order.erase id) else s.store }

/-- The set that a thread is about to write back a change of is still the stored one. -/
def CommitsFresh (s : State) (th : Thread) : Prop :=
  match s.pc th with
  | .adding _ _ profiles | .removing _ profiles => ∀ x, x ∈ profiles.elems ↔ x ∈ s.ids
  | _ => True

/-- The newest event of an id. -/
def lastEvent (history : List Event) (id : String) : Option Event :=
  history.find? (·.id = id)

/-- What the events make of the set that there was at the start. -/
def RegisteredAfter (p₀ : Preferences) (history : List Event) (id : String) : Prop :=
  match lastEvent history id with
  | none => id ∈ p₀.getProfileIds.elems
  | some (.added _) => True
  | some (.removed _) => False

/-- No addition is lost and no removal undone. -/
structure NothingLost (p₀ : Preferences) (program : Thread → List Call) (s : State) : Prop where
  added : ∀ th id name, .addProfile id name ∈ program th →
    (∀ th', .removeProfile id ∉ program th') → id ∈ s.ids
  removed : ∀ id, lastEvent s.history id = some (.removed id) → id ∉ s.ids
  kept : ∀ id ∈ p₀.getProfileIds.elems, (∀ th', .removeProfile id ∉ program th') → id ∈ s.ids

variable {hash : HashOrder} {p p₀ : Preferences} {program : Thread → List Call} {s t : State}
  {th th' : Thread} {xs : List Thread} {id name x : String} {profiles : StringSet}
  {history : List Event} {e : Event} {k : Key} {v : Value}

theorem commitAdd_self : p.commitAdd hash p.getProfileIds id name = p.addProfile hash id name := rfl

theorem commitRemove_self : p.commitRemove hash p.getProfileIds id = p.eraseProfile hash id := rfl

theorem getProfileIds_commitAdd :
    (p.commitAdd hash profiles id name).getProfileIds = profiles.add hash id := by
  apply SharedPreferences.getStringSet_of_get
  change (p.commitAdd hash profiles id name).get _ = _
  simp [commitAdd]

theorem getProfileIds_commitRemove :
    (p.commitRemove hash profiles id).getProfileIds = profiles.remove hash id := by
  apply SharedPreferences.getStringSet_of_get
  change (p.commitRemove hash profiles id).get _ = _
  simp [commitRemove, settingKeys]

theorem getProfileIds_put (h : k ≠ .global .PROFILES) :
    (p.put k v).getProfileIds = p.getProfileIds :=
  getProfileIds_congr (by rw [get_put, if_neg h.symm])

theorem lastEvent_cons : lastEvent (e :: history) id =
    if e.id = id then some e else lastEvent history id := by
  unfold lastEvent
  rw [List.find?_cons]
  split <;> simp_all

theorem lastEvent_mem (h : lastEvent history id = some e) : e ∈ history ∧ e.id = id :=
  ⟨List.mem_of_find?_eq_some h, by simpa using List.find?_some h⟩

theorem lastEvent_of_mem (h : e ∈ history) : ∃ e', lastEvent history e.id = some e' := by
  cases hl : lastEvent history e.id with
  | some e' => exact ⟨e', rfl⟩
  | none =>
    have := List.find?_eq_none.mp hl e h
    simp at this

theorem registeredAfter_added : RegisteredAfter p₀ (.added id :: history) x ↔
    x = id ∨ RegisteredAfter p₀ history x := by
  unfold RegisteredAfter
  rw [lastEvent_cons]
  by_cases hx : id = x
  · simp [Event.id, hx]
  · simp [Event.id, hx, Ne.symm hx]

theorem registeredAfter_removed : RegisteredAfter p₀ (.removed id :: history) x ↔
    x ≠ id ∧ RegisteredAfter p₀ history x := by
  unfold RegisteredAfter
  rw [lastEvent_cons]
  by_cases hx : id = x
  · simp [Event.id, hx]
  · simp [Event.id, hx, Ne.symm hx]

/-- The stored set is what the events make of the first one. -/
def Consistent (p₀ : Preferences) (s : State) : Prop :=
  ∀ x, x ∈ s.ids ↔ RegisteredAfter p₀ s.history x

theorem consistent_step :
    Preserves (Guarded (Step hash) CommitsFresh) (Consistent p₀) := by
  rintro s th t ⟨hfresh, hs⟩ hc x
  have hx := hc x
  cases hs with
  | @write cs k v h hp hcs =>
    change x ∈ (s.store.put k v).getProfileIds.elems ↔ RegisteredAfter p₀ s.history x
    rw [getProfileIds_put h]
    exact hx
  | readAdd hp hcs => exact hx
  | @commitAdd id name profiles hp =>
    unfold CommitsFresh at hfresh
    rw [hp] at hfresh
    change x ∈ (s.store.commitAdd hash profiles id name).getProfileIds.elems ↔
      RegisteredAfter p₀ (.added id :: s.history) x
    rw [getProfileIds_commitAdd, StringSet.mem_add, registeredAfter_added, hfresh x, hx]
  | readRemove hp hcs hm => exact hx
  | @readAbsent cs id hp hcs hm =>
    change x ∈ s.ids ↔ RegisteredAfter p₀ (.removed id :: s.history) x
    rw [registeredAfter_removed, ← hx]
    exact ⟨fun h => ⟨fun he => hm (he ▸ h), h⟩, fun h => h.2⟩
  | @commitRemove id profiles hp =>
    unfold CommitsFresh at hfresh
    rw [hp] at hfresh
    change x ∈ (s.store.commitRemove hash profiles id).getProfileIds.elems ↔
      RegisteredAfter p₀ (.removed id :: s.history) x
    rw [getProfileIds_commitRemove, StringSet.mem_remove, registeredAfter_removed, hfresh x, hx]
  | readOrder hp => exact hx
  | @writeOrder id order hp =>
    have hids : (if order.contains id then s.store.setProfileOrder (order.erase id)
        else s.store).getProfileIds = s.store.getProfileIds := by
      split
      · exact getProfileIds_setProfileOrder
      · rfl
    change x ∈ (if order.contains id then s.store.setProfileOrder (order.erase id)
      else s.store).getProfileIds.elems ↔ RegisteredAfter p₀ s.history x
    rw [hids]
    exact hx

/-- How far a thread has come with its program: what is left or under way is from it, and each of
its additions is left, under way or done. -/
structure Progress (program calls : List Call) (pc : PC) (history : List Event) : Prop where
  left : ∀ c ∈ calls, c ∈ program
  removing : ∀ id profiles, pc = .removing id profiles → .removeProfile id ∈ program
  adding : ∀ id name, .addProfile id name ∈ program →
    .addProfile id name ∈ calls ∨ (∃ profiles, pc = .adding id name profiles) ∨
      .added id ∈ history

/-- Every thread progresses, and only what a program removes is removed. -/
structure InProgress (program : Thread → List Call) (s : State) : Prop where
  thread : ∀ th, Progress (program th) (s.calls th) (s.pc th) s.history
  removed : ∀ id, .removed id ∈ s.history → ∃ th, .removeProfile id ∈ program th

theorem inProgress_start : InProgress program (start p program) where
  thread _ := ⟨fun _ hc => hc, fun _ _ h => (nomatch h), fun _ _ h => Or.inl h⟩
  removed _ h := nomatch h

theorem step_other (h : Step hash s th t) (hne : th' ≠ th) :
    t.pc th' = s.pc th' ∧ t.calls th' = s.calls th' := by
  cases h <;> simp [State.setPC, State.setCalls, State.log, hne]

theorem step_history (h : Step hash s th t) :
    t.history = s.history ∨ ∃ e, t.history = e :: s.history := by
  cases h with
  | commitAdd | readAbsent | commitRemove => exact Or.inr ⟨_, rfl⟩
  | write | readAdd | readRemove | readOrder | writeOrder => exact Or.inl rfl

theorem step_history_mem (h : Step hash s th t) (he : e ∈ s.history) : e ∈ t.history := by
  rcases step_history h with ht | ⟨e', ht⟩
  · rw [ht]
    exact he
  · rw [ht]
    exact List.mem_cons_of_mem _ he

theorem Progress.mono {calls prog : List Call} {pc : PC} {history' : List Event}
    (h : Progress prog calls pc history) (hsub : ∀ e ∈ history, e ∈ history') :
    Progress prog calls pc history' where
  left := h.left
  removing := h.removing
  adding id name hm := (h.adding id name hm).imp_right (Or.imp_right (hsub _))

/-- A thread that is between calls takes the next one. -/
theorem Progress.next {prog cs : List Call} {c : Call} {pc : PC}
    (h : Progress prog (c :: cs) .idle history)
    (hrem : ∀ id profiles, pc = .removing id profiles → c = .removeProfile id)
    (hadd : ∀ id name, c = .addProfile id name → ∃ profiles, pc = .adding id name profiles) :
    Progress prog cs pc history where
  left c' hc := h.left c' (List.mem_cons_of_mem _ hc)
  removing id profiles he := hrem id profiles he ▸ h.left c List.mem_cons_self
  adding id name hm := by
    rcases h.adding id name hm with hc | ⟨profiles, hp⟩ | hd
    · rcases List.mem_cons.mp hc with hc | hc
      · exact Or.inr (Or.inl (hadd id name hc.symm))
      · exact Or.inl hc
    · cases hp
    · exact Or.inr (Or.inr hd)

/-- A thread that is past its reads has nothing under way but the addition that it may log. -/
theorem Progress.advance {prog calls : List Call} {pc pc' : PC}
    (h : Progress prog calls pc history)
    (hrem : ∀ id profiles, pc' ≠ .removing id profiles)
    (hadd : ∀ id name profiles, pc = .adding id name profiles → .added id ∈ history) :
    Progress prog calls pc' history where
  left := h.left
  removing id profiles he := (hrem id profiles he).elim
  adding id name hm := by
    rcases h.adding id name hm with hc | ⟨profiles, hp⟩ | hd
    · exact Or.inl hc
    · exact Or.inr (Or.inr (hadd id name profiles hp))
    · exact Or.inr (Or.inr hd)

theorem progress_self (h : Step hash s th t) {prog : List Call}
    (hp : Progress prog (s.calls th) (s.pc th) s.history) :
    Progress prog (t.calls th) (t.pc th) t.history := by
  have hmono := hp.mono fun e he => step_history_mem h he
  cases h with
  | @write cs k v hk hidle hcs =>
    rw [hidle, hcs] at hp
    have hn : Progress prog cs .idle s.history := hp.next (by simp) (by simp)
    simpa [State.setCalls, hidle] using hn
  | @readAdd cs id name hidle hcs =>
    rw [hidle, hcs] at hp
    have hn : Progress prog cs (.adding id name s.store.getProfileIds) s.history :=
      hp.next (by simp) (by simp)
    simpa [State.setCalls, State.setPC] using hn
  | @commitAdd id name profiles hpc =>
    have ha : Progress prog (s.calls th) .idle (.added id :: s.history) := by
      refine hmono.advance (by simp) ?_
      intro id' name' profiles' he
      rw [hpc] at he
      cases he
      exact List.mem_cons_self
    simpa [State.setPC, State.log] using ha
  | @readRemove cs id hidle hcs hm =>
    rw [hidle, hcs] at hp
    have hn : Progress prog cs (.removing id s.store.getProfileIds) s.history :=
      hp.next (by simp) (by simp)
    simpa [State.setCalls, State.setPC] using hn
  | @readAbsent cs id hidle hcs hm =>
    rw [hidle, hcs] at hmono
    have hn : Progress prog cs .idle (.removed id :: s.history) := hmono.next (by simp) (by simp)
    simpa [State.setCalls, State.log, hidle] using hn
  | @commitRemove id profiles hpc =>
    have ha : Progress prog (s.calls th) (.erased id) (.removed id :: s.history) :=
      hmono.advance (by simp) (by simp [hpc])
    simpa [State.setPC, State.log] using ha
  | @readOrder id hpc =>
    have ha : Progress prog (s.calls th) (.ordering id s.store.getProfileOrder) s.history :=
      hp.advance (by simp) (by simp [hpc])
    simpa [State.setPC] using ha
  | @writeOrder id order hpc =>
    have ha : Progress prog (s.calls th) .idle s.history := hp.advance (by simp) (by simp [hpc])
    simpa [State.setPC] using ha

/-- A removal that is logged is from the program of the thread that logs it. -/
theorem removed_step (h : Step hash s th t) (hp : InProgress program s)
    (hr : .removed id ∈ t.history) : ∃ th, .removeProfile id ∈ program th := by
  have hth := hp.thread th
  cases h with
  | write | readAdd | readRemove | readOrder | writeOrder => exact hp.removed id hr
  | commitAdd hpc =>
    rcases List.mem_cons.mp hr with he | hr
    · cases he
    · exact hp.removed id hr
  | readAbsent hidle hcs hm =>
    rcases List.mem_cons.mp hr with he | hr
    · cases he
      exact ⟨th, hth.left _ (by rw [hcs]; exact List.mem_cons_self)⟩
    · exact hp.removed id hr
  | commitRemove hpc =>
    rcases List.mem_cons.mp hr with he | hr
    · cases he
      exact ⟨th, hth.removing _ _ hpc⟩
    · exact hp.removed id hr

theorem inProgress_step : Preserves (Step hash) (InProgress program) := by
  intro s th t h hp
  refine ⟨fun th' => ?_, fun id => removed_step h hp⟩
  by_cases hth : th' = th
  · subst hth
    exact progress_self h (hp.thread th')
  · obtain ⟨hpc, hcalls⟩ := step_other h hth
    rw [hpc, hcalls]
    exact (hp.thread th').mono fun e he => step_history_mem h he

/-- Where the events make up the set and no program removes an id, it stays. -/
theorem registered_of_not_removed (hc : Consistent p₀ s) (hp : InProgress program s)
    (hr : ∀ th, .removeProfile id ∉ program th)
    (h : .added id ∈ s.history ∨ id ∈ p₀.getProfileIds.elems) : id ∈ s.ids := by
  rw [hc id, RegisteredAfter]
  cases hl : lastEvent s.history id with
  | none =>
    rcases h with h | h
    · obtain ⟨e, he⟩ := lastEvent_of_mem h
      rw [Event.id, hl] at he
      cases he
    · exact h
  | some e =>
    cases e with
    | added x => trivial
    | removed x =>
      obtain ⟨hm, rfl⟩ := lastEvent_mem hl
      obtain ⟨th, hth⟩ := hp.removed _ hm
      exact (hr th hth).elim

theorem nothing_lost (h : Run (Guarded (Step hash) CommitsFresh) (start p₀ program) xs s)
    (hfin : s.Finished) : NothingLost p₀ program s := by
  have hc : Consistent p₀ s := h.invariant consistent_step fun _ => Iff.rfl
  have hp : InProgress program s := h.of_guarded.invariant inProgress_step inProgress_start
  constructor
  · intro th id name hm hr
    rcases (hp.thread th).adding id name hm with hcalls | ⟨profiles, hpc⟩ | hadded
    · rw [(hfin th).2] at hcalls
      cases hcalls
    · rw [(hfin th).1] at hpc
      cases hpc
    · exact registered_of_not_removed hc hp hr (Or.inl hadded)
  · intro id hl hm
    rw [hc id, RegisteredAfter, hl] at hm
    exact hm
  · intro id hm hr
    exact registered_of_not_removed hc hp hr (Or.inr hm)

section Alone

/-- A call that nothing comes between. -/
def Call.run (hash : HashOrder) (p : Preferences) : Call → Preferences
  | .addProfile id name => p.addProfile hash id name
  | .removeProfile id => p.removeProfile hash id
  | .write k v _ => p.put k v

/-- The states of a thread that runs alone: the others stand still. -/
structure Alone (th : Thread) (cs : List Call) (p : Preferences) (s t : State) : Prop where
  store : t.store = p
  pc : t.pc = s.pc
  calls : t.calls = Function.update s.calls th cs

theorem setPC_self {pc : PC} : (s.setPC th pc).pc th = pc := by simp [State.setPC]

theorem setPC_pc {pc : PC} : (s.setPC th pc).pc th' = if th' = th then pc else s.pc th' := by
  by_cases h : th' = th
  · rw [if_pos h, h, setPC_self]
  · simp [State.setPC, h]

theorem setPC_idle_pc (h : ∀ th', th' ≠ th → t.pc th' = s.pc th') (hp : s.pc th = .idle) :
    (t.setPC th .idle).pc = s.pc := by
  funext th'
  rw [setPC_pc]
  split
  · rename_i he
    rw [he, hp]
  · rename_i hne
    exact h th' hne

theorem commitsFresh_of_pc {pc : PC} (h : s.pc th = pc)
    (hpc : ∀ id name profiles, pc ≠ .adding id name profiles ∧ pc ≠ .removing id profiles) :
    CommitsFresh s th := by
  rw [CommitsFresh, h]
  cases pc with
  | adding id name profiles => exact ((hpc id name profiles).1 rfl).elim
  | removing id profiles => exact ((hpc id "" profiles).2 rfl).elim
  | idle | erased _ | ordering _ _ => trivial

/-- One call of a thread, with no step of another in between, has its sequential effect. -/
theorem call_alone (hash : HashOrder) {c : Call} {cs : List Call} (hp : s.pc th = .idle)
    (hc : s.calls th = c :: cs) :
    ∃ xs t, Run (Guarded (Step hash) CommitsFresh) s xs t ∧ Alone th cs (c.run hash s.store) s t := by
  have hidle : CommitsFresh s th := commitsFresh_of_pc hp (by simp)
  cases c with
  | write k v hk => exact ⟨_, _, .single ⟨hidle, .write hp hc⟩, rfl, rfl, rfl⟩
  | addProfile id name =>
    have hfresh : CommitsFresh ((s.setCalls th cs).setPC th
        (.adding id name s.store.getProfileIds)) th := by
      rw [CommitsFresh, setPC_self]
      exact fun x => Iff.rfl
    refine ⟨_, _, .stepL ⟨hidle, .readAdd hp hc⟩ (.single ⟨hfresh, .commitAdd setPC_self⟩), rfl,
      setPC_idle_pc (fun th' hne => ?_) hp, rfl⟩
    simp [State.setPC, State.setCalls, hne]
  | removeProfile id =>
    by_cases hm : id ∈ s.ids
    · have hfresh : CommitsFresh ((s.setCalls th cs).setPC th
          (.removing id s.store.getProfileIds)) th := by
        rw [CommitsFresh, setPC_self]
        exact fun x => Iff.rfl
      have hcontains : s.store.getProfileIds.contains id = true := List.contains_iff_mem.mpr hm
      refine ⟨_, _, .stepL ⟨hidle, .readRemove hp hc hm⟩ (.stepL ⟨hfresh, .commitRemove setPC_self⟩
        (.stepL ⟨commitsFresh_of_pc setPC_self (by simp), .readOrder setPC_self⟩
          (.single ⟨commitsFresh_of_pc setPC_self (by simp), .writeOrder setPC_self⟩))),
        ?_, ?_, rfl⟩
      · rw [Call.run, removeProfile, hcontains]
        rfl
      · refine setPC_idle_pc (fun th' hne => ?_) hp
        simp [State.setPC, State.setCalls, State.log, hne]
    · refine ⟨_, _, .single ⟨hidle, .readAbsent hp hc hm⟩, ?_, rfl, rfl⟩
      exact (removeProfile_of_notMem hm).symm

/-- A thread that runs alone leaves what its calls leave one after the other. -/
theorem calls_alone {cs : List Call} (hp : s.pc th = .idle) (hc : s.calls th = cs) :
    ∃ xs t, Run (Guarded (Step hash) CommitsFresh) s xs t ∧
      Alone th [] (cs.foldl (Call.run hash) s.store) s t := by
  induction cs generalizing s with
  | nil => exact ⟨[], s, .refl, rfl, rfl, by rw [← hc, Function.update_eq_self]⟩
  | cons c cs ih =>
    obtain ⟨xs, t, hrun, halone⟩ := call_alone hash hp hc
    obtain ⟨ys, u, hrun', halone'⟩ := ih (s := t) (by rw [halone.pc, hp])
      (by rw [halone.calls, Function.update_self])
    refine ⟨xs ++ ys, u, hrun.append hrun', ?_, halone'.pc.trans halone.pc, ?_⟩
    · rw [halone'.store, halone.store, List.foldl_cons]
    · rw [halone'.calls, halone.calls, Function.update_idem]

end Alone

section Sync

/-- The calls that store a node under its profile id. -/
def nodeCalls (p : Preferences) (id : String) (node : SubNode) : List Call :=
  [.addProfile id node.name,
    .write (.profile .PROFILE_IS_SUB id) (.boolean true) (by simp),
    .write (.profile .WSS_ADDR id) (.string node.server) (by simp),
    .write (.profile .TOKEN id) (.string node.token) (by simp),
    .write (.profile .PREF_IP id) (.string node.ip) (by simp),
    .write (.profile .WS_CONN id) (.int (effectiveConn p node)) (by simp),
    .write (.profile .UDP_BLOCK_PORTS id) (.string node.block) (by simp),
    .write (.profile .ECH_DNS id) (.string "https://doh.pub/dns-query") (by simp),
    .write (.profile .ECH_DOMAIN id) (.string "cloudflare-ech.com") (by simp),
    .write (.profile .DISABLE_ECH id) (.boolean node.fallback) (by simp),
    .write (.profile .INSECURE id) (.boolean node.insecure) (by simp)]

/-- The calls of the node loop. No node changes the global connection count. -/
def loopCalls (p : Preferences) (l : List (String × SubNode)) : List Call :=
  l.flatMap fun a => nodeCalls p a.1 a.2

/-- The removals of the stale nodes, each decided when its turn comes. -/
def staleCalls (hash : HashOrder) (p : Preferences) : List String → List String → List Call
  | [], _ => []
  | id :: ids, retained =>
    if p.isSubProfile id && !retained.contains id then
      .removeProfile id :: staleCalls hash (p.removeProfile hash id) ids retained
    else staleCalls hash p ids retained

/-- The calls of a whole sync. -/
def syncCalls (hash : HashOrder) (p : Preferences) (nodes : List SubNode) (uuid : Nat → String) :
    List Call :=
  loopCalls p (assigned p nodes uuid) ++
    staleCalls hash (writeNodes hash p (assigned p nodes uuid)) p.getProfileIds.elems
      (retained p nodes uuid) ++
    .write (.global .PROFILE_ORDER)
      (.jsonArray ((newOrder hash p nodes uuid).filter fun id => !isBlank id)) (by simp) ::
    if CurrentStillExists hash p nodes uuid then []
    else [.write (.global .CURRENT_PROFILE_ID) (.string (fallbackCurrent p.currentProfileId
      ((assigned p nodes uuid).map Prod.fst).head? (newOrder hash p nodes uuid)
      (swept hash p nodes uuid).getProfileIds.elems)) (by simp)]

variable {q : Preferences} {node : SubNode} {nodes : List SubNode} {uuid : Nat → String}

theorem nodeCalls_run
    (h : q.get (.global .GLOBAL_WS_CONN) = p.get (.global .GLOBAL_WS_CONN)) :
    (nodeCalls p id node).foldl (Call.run hash) q = writeNode hash q id node := by
  have he : effectiveConn (((((q.addProfile hash id node.name).setProfileIsSub id true).setWssAddr
      id node.server).setToken id node.token).setPrefIp id node.ip) node = effectiveConn p node := by
    apply effectiveConn_congr
    rw [← h]
    simp [setPrefIp, setToken, setWssAddr, setProfileIsSub, addProfile_get]
  unfold writeNode
  dsimp only
  rw [he]
  rfl

theorem loopCalls_run {l : List (String × SubNode)}
    (h : q.get (.global .GLOBAL_WS_CONN) = p.get (.global .GLOBAL_WS_CONN)) :
    (loopCalls p l).foldl (Call.run hash) q = writeNodes hash q l := by
  induction l generalizing q with
  | nil => rfl
  | cons a l ih =>
    rw [loopCalls, List.flatMap_cons, List.foldl_append, nodeCalls_run h]
    exact ih (by rw [writeNode_get_global, if_neg (by decide), h])

theorem staleCalls_run (ids retained : List String) :
    (staleCalls hash p ids retained).foldl (Call.run hash) p = removeStale hash p ids retained := by
  induction ids generalizing p with
  | nil => rfl
  | cons id ids ih =>
    rw [staleCalls, removeStale_cons]
    split
    · rw [List.foldl_cons]
      exact ih
    · exact ih

/-- One after the other, the calls of a sync leave the store that `applySubNodes` leaves. -/
theorem syncCalls_run : ((syncCalls hash p nodes uuid).foldl (Call.run hash) p).prefs =
    (applySubNodes hash p nodes uuid).1.prefs := by
  have hloop : (loopCalls p (assigned p nodes uuid)).foldl (Call.run hash) p =
      writeNodes hash p (assigned p nodes uuid) := loopCalls_run rfl
  rw [syncCalls, List.foldl_append, List.foldl_append, hloop, staleCalls_run, applySubNodes_eq]
  dsimp only
  split <;> rfl

theorem applySubNodes_alone (hp : s.pc .sync = .idle)
    (hc : s.calls .sync = syncCalls hash s.store nodes uuid) :
    ∃ xs t, Run (Guarded (Step hash) CommitsFresh) s xs t ∧ t.pc = s.pc ∧
      t.calls = Function.update s.calls .sync [] ∧
      t.store.prefs = (applySubNodes hash s.store nodes uuid).1.prefs := by
  obtain ⟨xs, t, hrun, halone⟩ := calls_alone hp hc
  exact ⟨xs, t, hrun, halone.pc, halone.calls, by rw [halone.store, syncCalls_run]⟩

end Sync
/-- The sync adds one node while the user makes one. -/
def oneEach : Thread → List Call
  | .sync => [.addProfile "sub_1" "n"]
  | .ui => [.addProfile "u" "b"]

/-- One after the other. -/
theorem sequential_run : ∃ t, Run (Guarded (Step newestFirst) CommitsFresh)
    (start freshInstall oneEach) [.sync, .sync, .ui, .ui] t ∧ t.Finished :=
  ⟨_, .stepL ⟨trivial, .readAdd rfl rfl⟩ (.stepL ⟨fun _ => Iff.rfl, .commitAdd rfl⟩
    (.stepL ⟨trivial, .readAdd rfl rfl⟩ (.single ⟨fun _ => Iff.rfl, .commitAdd rfl⟩))),
    fun th => by cases th <;> exact ⟨rfl, rfl⟩⟩

theorem nothing_lost_sequential : ∃ t, Run (Guarded (Step newestFirst) CommitsFresh)
    (start freshInstall oneEach) [.sync, .sync, .ui, .ui] t ∧
    NothingLost freshInstall oneEach t := by
  obtain ⟨t, hrun, hfin⟩ := sequential_run
  exact ⟨t, hrun, nothing_lost hrun hfin⟩

/-- The user's commit falls between the read and the commit of the sync, and is overwritten. -/
theorem addition_lost : ∃ t, Run (Step newestFirst) (start freshInstall oneEach)
    [.sync, .ui, .ui, .sync] t ∧ t.Finished ∧ "u" ∉ t.ids ∧
    ¬ NothingLost freshInstall oneEach t := by
  refine ⟨_, .stepL (.readAdd rfl rfl) (.stepL (.readAdd rfl rfl) (.stepL (.commitAdd rfl)
    (.single (.commitAdd rfl)))), fun th => by cases th <;> exact ⟨rfl, rfl⟩, by decide, ?_⟩
  intro h
  refine absurd (h.added .ui "u" "b" List.mem_cons_self ?_) (by decide)
  intro th
  cases th <;> simp [oneEach]

end XTunnel.Profiles
