import XTunnel.Udp.Association

/-! When a closed association has closed every stream that it opened. -/
namespace XTunnel.Udp

open Net Socks5

variable {cfg : Config} {s t : State} {a : Action} {xs : List Action} {i : StreamId}

/-- The loop is inside a call of `send`. -/
def LoopPc.inSend : LoopPc → Bool
  | .reading | .locking .. | .returned => false
  | _ => true

/-- `send` is between setting `receiving` and storing the stream. -/
def LoopPc.starting : LoopPc → Bool
  | .opening .. | .storing .. => true
  | _ => false

/-- The stream that was opened and is not stored yet. -/
def LoopPc.unstored : LoopPc → Option StreamId
  | .storing _ _ _ i _ => some i
  | _ => none

/-- The stream that the loop's own call of `Close` still has to close. -/
def LoopPc.closes : LoopPc → Option StreamId
  | .closeTail stream => stream
  | _ => none

/-- `Close` has run, and no `send` or `Close` is in progress. -/
structure Settled (s : State) : Prop where
  closed : s.closed = true
  closers : s.closers = []
  outside : s.pc.inSend = false

def Open (s : State) (i : StreamId) : Prop := ∃ st, s.streams i = some st ∧ st.closed = false

def AllClosed (s : State) : Prop := ∀ i, ¬ Open s i

/-- A stream is stored only while the association is not closed. -/
def StoreOpen (s : State) (a : Action) : Prop := a = .store → s.closed = false

/-- A stream is stored once, by the first `send`. -/
structure StoredOnce (s : State) : Prop where
  unstarted : s.receiving = false → s.stream = none ∧ s.pc.starting = false
  starting : s.pc.starting = true → s.stream = none

/-- Some goroutine knows the stream and will close it, or lets `Close` find it. -/
def Owned (s : State) (i : StreamId) : Prop :=
  s.stream = some i ∨ s.pc.unstored = some i ∨ some i ∈ s.closers ∨ s.pc.closes = some i

/-- What holds while no stream is stored after `Close`. -/
structure LeakFree (s : State) : Prop where
  once : StoredOnce s
  closed : s.closed = true → s.stream = none
  owned : ∀ i, Open s i → Owned s i

theorem storedOnce_step (h : Step cfg s a t) (hs : StoredOnce s) : StoredOnce t := by
  obtain ⟨hu, hst⟩ := hs
  cases h with
  | send hp hc =>
    constructor
    · intro hr
      cases hr
    · intro hp'
      cases hr : s.receiving
      · exact (hu hr).1
      · simp [State.sendEnter, hr, LoopPc.starting] at hp'
  | @lock addr b hp =>
    have hpc : (s.afterLock cfg addr b).pc.starting = false := by
      rcases afterLock_pc cfg s addr b with hr | ⟨_, _, hr, -⟩ <;> rw [hr] <;> rfl
    exact ⟨fun hr => ⟨(hu hr).1, hpc⟩, fun hp' => by rw [hpc] at hp'; cases hp'⟩
  | _ =>
    constructor <;> simp_all [LoopPc.starting, State.setPC, State.addStream, State.store,
      State.addWrite, State.closeEnter, State.updateTarget, State.callClose, State.closeRest]

theorem open_closeStream {stream : Option StreamId} (h : Open (s.closeRest stream) i) :
    Open s i ∧ stream ≠ some i := by
  obtain ⟨st, hi, ho⟩ := h
  simp only [State.closeRest, State.closeStream] at hi
  split at hi
  · obtain ⟨st', -, rfl⟩ := Option.map_eq_some_iff.mp hi
    cases ho
  · rename_i hne
    exact ⟨⟨st, hi, ho⟩, hne⟩

theorem open_addStream {target : Net.Text} {c : Bool} (h : Open (s.addStream target c) i) :
    Open s i ∨ (i = s.next ∧ c = false) := by
  obtain ⟨st, hi, ho⟩ := h
  simp only [State.addStream] at hi
  split at hi
  · rename_i he
    cases hi
    exact Or.inr ⟨he, ho⟩
  · exact Or.inl ⟨st, hi, ho⟩

theorem owned_callClose (h : Owned s i) : Owned s.callClose i := by
  unfold Owned State.callClose at *
  cases hc : s.closed
  · rcases h with h | h | h | h
    · exact Or.inr (Or.inr (Or.inl (by simp [h])))
    · exact Or.inr (Or.inl h)
    · exact Or.inr (Or.inr (Or.inl (by simp [h])))
    · exact Or.inr (Or.inr (Or.inr h))
  · simpa using h

theorem owned_step (h : Step cfg s a t) (hs : StoredOnce s) (hi : Open s i → Owned s i) :
    Open t i → Owned t i := by
  intro ho
  cases h with
  | openOk id hp =>
    rcases open_addStream ho with ho | ⟨rfl, -⟩
    · rcases hi ho with h | h | h | h
      · exact Or.inl h
      · rw [hp] at h
        cases h
      · exact Or.inr (Or.inr (Or.inl h))
      · rw [hp] at h
        cases h
    · exact Or.inr (Or.inl rfl)
  | headerFail hp =>
    rcases open_addStream ho with ho | ⟨-, hc⟩
    · have := hi ho
      simp_all [Owned, LoopPc.unstored, LoopPc.closes, State.setPC, State.addStream]
    · cases hc
  | store hp =>
    have hnone := hs.starting (by rw [hp]; rfl)
    have := hi ho
    simp_all [Owned, LoopPc.unstored, LoopPc.closes, State.setPC, State.store]
  | send hp hc =>
    have := hi ho
    cases hr : s.receiving <;>
      simp_all [Owned, LoopPc.unstored, LoopPc.closes, State.sendEnter]
  | @lock addr b hp =>
    have hpc : (s.afterLock cfg addr b).pc.unstored = none ∧
        (s.afterLock cfg addr b).pc.closes = none := by
      rcases afterLock_pc cfg s addr b with hr | ⟨_, _, hr, -⟩ <;> rw [hr] <;> exact ⟨rfl, rfl⟩
    have := hi ho
    simp_all [Owned, LoopPc.unstored, LoopPc.closes, State.afterLock]
  | loopClose hp hc =>
    rcases hi ho with h | h | h | h
    · exact Or.inr (Or.inr (Or.inr h))
    · rw [hp] at h
      cases h
    · exact Or.inr (Or.inr (Or.inl h))
    · rw [hp] at h
      cases h
  | controlEnd hc => exact owned_callClose (hi ho)
  | replyFail hc => exact owned_callClose (hi ho)
  | loopCloseRest hp =>
    obtain ⟨ho, hne⟩ := open_closeStream ho
    have := hi ho
    simp_all [Owned, LoopPc.unstored, LoopPc.closes, State.setPC, State.closeRest]
  | closeRest hc =>
    obtain ⟨ho, hne⟩ := open_closeStream ho
    rcases hi ho with h | h | h | h
    · exact Or.inl h
    · exact Or.inr (Or.inl h)
    · exact Or.inr (Or.inr (Or.inl ((List.mem_erase_of_ne hne.symm).mpr h)))
    · exact Or.inr (Or.inr (Or.inr h))
  | _ =>
    have := hi ho
    simp_all [Owned, LoopPc.unstored, LoopPc.closes, State.setPC, State.addWrite,
      State.updateTarget]

theorem leakFree_step (hg : StoreOpen s a) (h : Step cfg s a t) (hs : LeakFree s) :
    LeakFree t := by
  obtain ⟨ho, hc, hi⟩ := hs
  refine ⟨storedOnce_step h ho, ?_, fun i => owned_step h ho (hi i)⟩
  cases h with
  | store hp =>
    intro ht
    have := hg rfl
    rw [show s.closed = true from ht] at this
    cases this
  | _ => simp_all [State.setPC, State.addStream, State.addWrite, State.closeEnter,
      State.updateTarget, State.callClose, State.closeRest, State.sendEnter, State.afterLock]

theorem leakFree_initial : LeakFree initial := by
  refine ⟨⟨fun _ => ⟨rfl, rfl⟩, fun _ => rfl⟩, fun _ => rfl, ?_⟩
  rintro i ⟨st, hi, -⟩
  cases hi

theorem LeakFree.allClosed (h : LeakFree s) (hs : Settled s) : AllClosed s := by
  intro i ho
  have hout := hs.outside
  rcases h.owned i ho with hi | hi | hi | hi
  · rw [h.closed hs.closed] at hi
    cases hi
  · cases hp : s.pc <;> simp_all [LoopPc.unstored, LoopPc.inSend]
  · rw [hs.closers] at hi
    cases hi
  · cases hp : s.pc <;> simp_all [LoopPc.closes, LoopPc.inSend]

/-- The stream was stored after `Close`: nobody will close it. -/
structure Leaked (s : State) (i : StreamId) : Prop where
  started : s.receiving = true ∧ s.pc.starting = false
  closed : s.closed = true
  stored : s.stream = some i
  opened : Open s i
  unowned : some i ∉ s.closers ∧ s.pc.closes ≠ some i

theorem open_closeRest_of_ne {stream : Option StreamId} (h : Open s i) (hne : stream ≠ some i) :
    Open (s.closeRest stream) i := by
  obtain ⟨st, hst, ho⟩ := h
  exact ⟨st, (if_neg hne).trans hst, ho⟩

theorem leaked_step (h : Step cfg s a t) (hs : Leaked s i) : Leaked t i := by
  obtain ⟨⟨hr, hp'⟩, hc, hst, ho, hcl, hcs⟩ := hs
  cases h with
  | openOk id hp => rw [hp] at hp'; cases hp'
  | openFail hp => rw [hp] at hp'; cases hp'
  | headerFail hp => rw [hp] at hp'; cases hp'
  | store hp => rw [hp] at hp'; cases hp'
  | @lock addr b hp =>
    have hpc : (s.afterLock cfg addr b).pc.starting = false ∧
        (s.afterLock cfg addr b).pc.closes ≠ some i := by
      rcases afterLock_pc cfg s addr b with hr | ⟨_, _, hr, -⟩ <;> rw [hr] <;>
        simp [LoopPc.starting, LoopPc.closes]
    exact ⟨⟨hr, hpc.1⟩, hc, hst, ho, hcl, hpc.2⟩
  | loopCloseRest hp =>
    refine ⟨⟨hr, rfl⟩, hc, hst, ?_, hcl, fun he => by cases he⟩
    exact open_closeRest_of_ne ho fun he => hcs (by rw [hp]; exact he)
  | closeRest hm =>
    refine ⟨⟨hr, hp'⟩, hc, hst, ?_, fun he => hcl (List.mem_of_mem_erase he), hcs⟩
    exact open_closeRest_of_ne ho fun he => hcl (he ▸ hm)
  | send hp hc' =>
    rw [hc] at hc'
    cases hc'
  | loopClose hp hc' =>
    rw [hc] at hc'
    cases hc'
  | controlEnd hm => exact ⟨⟨hr, hp'⟩, rfl, by simp [State.callClose, hc, hst], ho,
      by simpa [State.callClose, hc] using hcl, hcs⟩
  | replyFail hm => exact ⟨⟨hr, hp'⟩, rfl, by simp [State.callClose, hc, hst], ho,
      by simpa [State.callClose, hc] using hcl, hcs⟩
  | _ => exact ⟨⟨hr, rfl⟩, hc, hst, ho, hcl, fun he => by cases he⟩

/-- Stream numbers in use are below the next one. -/
def KnownStreams (s : State) : Prop :=
  ∀ i, s.stream = some i ∨ s.pc.unstored = some i ∨ some i ∈ s.closers → i < s.next

/-- The stream that `send` is about to store is open, and only `send` knows it. -/
def UnstoredOpen (s : State) : Prop :=
  ∀ i, s.pc.unstored = some i → Open s i ∧ some i ∉ s.closers

theorem known_callClose (hs : KnownStreams s) : KnownStreams s.callClose := by
  intro i hi
  apply hs
  unfold State.callClose at hi
  cases hc : s.closed
  · simp only [hc, Bool.false_eq_true, if_false, List.mem_cons] at hi
    rcases hi with hi | hi | hi | hi
    · cases hi
    · exact Or.inr (Or.inl hi)
    · exact Or.inl hi.symm
    · exact Or.inr (Or.inr hi)
  · simpa [hc] using hi

theorem knownStreams_step (h : Step cfg s a t) (hs : KnownStreams s) : KnownStreams t := by
  cases h with
  | openOk id hp =>
    rintro i (hi | hi | hi)
    · exact Nat.lt_succ_of_lt (hs i (Or.inl hi))
    · cases hi
      exact Nat.lt_succ_self _
    · exact Nat.lt_succ_of_lt (hs i (Or.inr (Or.inr hi)))
  | headerFail hp =>
    rintro i (hi | hi | hi)
    · exact Nat.lt_succ_of_lt (hs i (Or.inl hi))
    · cases hi
    · exact Nat.lt_succ_of_lt (hs i (Or.inr (Or.inr hi)))
  | store hp =>
    rintro i (hi | hi | hi)
    · cases hi
      exact hs _ (Or.inr (Or.inl (by rw [hp]; rfl)))
    · cases hi
    · exact hs i (Or.inr (Or.inr hi))
  | @lock addr b hp =>
    rintro i (hi | hi | hi)
    · exact hs i (Or.inl hi)
    · rcases afterLock_pc cfg s addr b with hr | ⟨_, _, hr, -⟩ <;> rw [hr] at hi <;> cases hi
    · exact hs i (Or.inr (Or.inr hi))
  | send hp hc =>
    rintro i (hi | hi | hi)
    · exact hs i (Or.inl hi)
    · simp only [State.sendEnter] at hi
      split at hi <;> cases hi
    · exact hs i (Or.inr (Or.inr hi))
  | controlEnd hc => exact known_callClose hs
  | replyFail hc => exact known_callClose hs
  | closeRest hc =>
    rintro i (hi | hi | hi)
    · exact hs i (Or.inl hi)
    · exact hs i (Or.inr (Or.inl hi))
    · exact hs i (Or.inr (Or.inr (List.mem_of_mem_erase hi)))
  | loopClose hp hc =>
    rintro i (hi | hi | hi)
    · cases hi
    · cases hi
    · exact hs i (Or.inr (Or.inr hi))
  | _ =>
    rintro i (hi | hi | hi)
    · exact hs i (Or.inl hi)
    · first | exact hs i (Or.inr (Or.inl hi)) | cases hi
    · exact hs i (Or.inr (Or.inr hi))

theorem unstored_callClose (ho : StoredOnce s) (hs : UnstoredOpen s) : UnstoredOpen s.callClose := by
  intro i hi
  obtain ⟨hopen, hcl⟩ := hs i hi
  refine ⟨hopen, ?_⟩
  have hnone : s.stream = none := by
    apply ho.starting
    have hp : s.pc.unstored = some i := hi
    cases hpc : s.pc <;> simp_all [LoopPc.unstored, LoopPc.starting]
  unfold State.callClose
  cases hc : s.closed <;> simp [hnone, hcl]

theorem unstoredOpen_step (h : Step cfg s a t) (ho : StoredOnce s) (hk : KnownStreams s)
    (hs : UnstoredOpen s) : UnstoredOpen t := by
  cases h with
  | openOk id hp =>
    intro i hi
    cases hi
    refine ⟨⟨_, if_pos rfl, rfl⟩, fun hm => ?_⟩
    exact absurd (hk _ (Or.inr (Or.inr hm))) (Nat.lt_irrefl _)
  | @lock addr b hp =>
    intro i hi
    rcases afterLock_pc cfg s addr b with hr | ⟨_, _, hr, -⟩ <;> rw [hr] at hi <;> cases hi
  | send hp hc =>
    intro i hi
    simp only [State.sendEnter] at hi
    split at hi <;> cases hi
  | controlEnd hc => exact unstored_callClose ⟨ho.unstarted, ho.starting⟩ hs
  | replyFail hc => exact unstored_callClose ⟨ho.unstarted, ho.starting⟩ hs
  | closeRest hm =>
    intro i hi
    obtain ⟨hopen, hcl⟩ := hs i hi
    refine ⟨open_closeRest_of_ne hopen fun he => hcl (he ▸ hm), ?_⟩
    exact fun he => hcl (List.mem_of_mem_erase he)
  | _ =>
    intro i hi
    first | exact hs i hi | cases hi

/-- What every run preserves. -/
structure StreamInv (s : State) : Prop where
  once : StoredOnce s
  started : s.pc.starting = true → s.receiving = true
  known : KnownStreams s
  unstored : UnstoredOpen s

theorem streamInv_step (h : Step cfg s a t) (hs : StreamInv s) : StreamInv t := by
  have ho := storedOnce_step h hs.once
  refine ⟨ho, ?_, knownStreams_step h hs.known, unstoredOpen_step h hs.once hs.known hs.unstored⟩
  intro hp
  cases hr : t.receiving
  · rw [(ho.unstarted hr).2] at hp
    cases hp
  · rfl

theorem streamInv_initial : StreamInv initial := by
  refine ⟨⟨fun _ => ⟨rfl, rfl⟩, fun _ => rfl⟩, fun h => ?_, ?_, ?_⟩
  · cases h
  · rintro i (h | h | h) <;> cases h
  · intro i h
    cases h

/-- Storing a stream after `Close` leaks it. -/
theorem leaked_of_store (h : Step cfg s .store t) (hs : StreamInv s) (hc : s.closed = true) :
    ∃ i, Leaked t i := by
  cases h with
  | @store b target data i id hp =>
    obtain ⟨ho, hcl⟩ := hs.unstored i (by rw [hp]; rfl)
    have hr := hs.started (by rw [hp]; rfl)
    exact ⟨i, ⟨hr, rfl⟩, hc, rfl, ho, hcl, fun he => by cases he⟩

theorem guarded_or_leaked (h : Run (Step cfg) s xs t) (hs : StreamInv s) :
    Run (Guarded (Step cfg) StoreOpen) s xs t ∨ ∃ i, Leaked t i := by
  have hmark : Preserves (Step cfg) fun s => ∃ i, Leaked s i :=
    fun s a t hst ⟨i, hl⟩ => ⟨i, leaked_step hst hl⟩
  refine Run.guarded_or_marked (fun s a t hst hs => ?_) hmark h hs
  by_cases hg : StoreOpen s a
  · exact .inl ⟨hg, streamInv_step hst hs⟩
  · simp only [StoreOpen, Classical.not_imp, Bool.not_eq_false] at hg
    obtain ⟨rfl, hc⟩ := hg
    exact .inr (leaked_of_store hst hs hc)

theorem leakFree_run (h : Run (Guarded (Step cfg) StoreOpen) s xs t) (hs : LeakFree s) :
    LeakFree t :=
  h.invariant (fun _ _ _ hst hl => leakFree_step hst.1 hst.2 hl) hs

theorem streams_closed_iff (h : Run (Step cfg) initial xs t) (hs : Settled t) :
    AllClosed t ↔ Run (Guarded (Step cfg) StoreOpen) initial xs t := by
  constructor
  · intro hall
    rcases guarded_or_leaked h streamInv_initial with hr | ⟨i, hl⟩
    · exact hr
    · exact (hall i hl.opened).elim
  · intro hr
    exact (leakFree_run hr leakFree_initial).allClosed hs

def plainConfig : Config := ⟨.default, .empty⟩

/-- A datagram to `1.1.1.1`, port 53. -/
def query : Text := [0, 0, 0, 1, 1, 1, 1, 1, 0, 53]

def queryTarget : Text := [49, 46, 49, 46, 49, 46, 49, 58, 53, 51]

/-- The association while its first datagram opens the stream. -/
def opening : State :=
  { initial with
    pc := .opening query queryTarget [], receiving := true, target := queryTarget
    clientUDPAddr := some [99], received := [([99], query)] }

theorem run_opening :
    Run (Step plainConfig) initial [.receive [99] query, .lock, .send] opening :=
  .stepL (.receive [99] query rfl rfl) (.stepL (.lock rfl) (.single (.send rfl rfl)))

/-- The control connection ends after the datagram was written. -/
theorem run_orderly : ∃ t, Run (Step plainConfig) opening
    [.openOk, .store, .writeOk, .controlEnd, .closeRest] t ∧ Settled t :=
  ⟨_, .stepL (.openOk 1 rfl) (.stepL (.store rfl) (.stepL
    (@Step.writeOk _ _ query queryTarget [] 0 ⟨queryTarget, false⟩ rfl rfl rfl)
    (.stepL (.controlEnd rfl) (.single (@Step.closeRest _ _ (some 0) List.mem_cons_self))))),
    rfl, rfl, rfl⟩

theorem streams_closed_iff_orderly : ∃ xs t, Settled t ∧
    (AllClosed t ↔ Run (Guarded (Step plainConfig) StoreOpen) initial xs t) := by
  obtain ⟨t, hrun, hs⟩ := run_orderly
  exact ⟨_, t, hs, streams_closed_iff (run_opening.append hrun) hs⟩

/-- The control connection ends while the stream is being opened, and the stream stays open. -/
theorem stream_leaks : ∃ xs t, Run (Step plainConfig) initial xs t ∧ Settled t ∧
    ¬ AllClosed t := by
  have hrun : ∃ t, Run (Step plainConfig) opening
      [.controlEnd, .closeRest, .openOk, .store, .writeOk] t ∧ Settled t ∧ Open t 0 :=
    ⟨_, .stepL (.controlEnd rfl) (.stepL (@Step.closeRest _ _ none List.mem_cons_self)
      (.stepL (.openOk 1 rfl) (.stepL (.store rfl) (.single
        (@Step.writeOk _ _ query queryTarget [] 0 ⟨queryTarget, false⟩ rfl rfl rfl))))),
      ⟨rfl, rfl, rfl⟩, ⟨queryTarget, false⟩, rfl, rfl⟩
  obtain ⟨t, hrun, hs, ho⟩ := hrun
  exact ⟨_, t, run_opening.append hrun, hs, fun hall => hall 0 ho⟩

end XTunnel.Udp
