import XTunnel.Udp.Association

/-! When every payload goes onto a stream that was opened for its own target. -/
namespace XTunnel.Udp

open Net Socks5

variable {cfg : Config} {s t : State} {a : Action} {b target data tgt : Text} {addr : Addr}
  {ds : List (Addr × Text)} {i : StreamId}

/-- The source address of the first datagram is the client. -/
def client (ds : List (Addr × Text)) : Option Addr := ds.head?.map Prod.fst

/-- A datagram of the client that passes the filters of the loop. -/
def Forwarded (cfg : Config) (ds : List (Addr × Text)) (b target data : Text) : Prop :=
  ∃ addr, client ds = some addr ∧ (addr, b) ∈ ds ∧ loopVerdict cfg b = .send target data

/-- All forwarded datagrams have one target. -/
def OneTarget (cfg : Config) (ds : List (Addr × Text)) : Prop :=
  ∀ b target data b' target' data', Forwarded cfg ds b target data →
    Forwarded cfg ds b' target' data' → target = target'

/-- Every payload was written to a stream whose header has the target of its datagram. -/
def Faithful (s : State) : Prop :=
  ∀ w ∈ s.writes, ∃ st, s.streams w.stream = some st ∧
    parseSOCKS5UDPPacket w.datagram = .ok (st.target, w.data)

theorem client_append (h : client ds = some addr) (x : Addr × Text) :
    client (ds ++ [x]) = some addr := by
  cases ds with
  | nil => cases h
  | cons d ds => exact h

theorem Forwarded.append (h : Forwarded cfg ds b target data) (x : Addr × Text) :
    Forwarded cfg (ds ++ [x]) b target data := by
  obtain ⟨addr, hc, hm, hv⟩ := h
  exact ⟨addr, client_append hc x, List.mem_append_left _ hm, hv⟩

/-- The datagram, target and payload in the hands of `send`. -/
def LoopPc.inHand : LoopPc → Option (Text × Text × Text)
  | .sending b target data | .opening b target data | .storing b target data _ _
  | .updating b target data _ | .writing b target data _ => some (b, target, data)
  | _ => none

/-- The stream that `send` holds in a local variable. -/
def LoopPc.holds : LoopPc → Option StreamId
  | .storing _ _ _ i _ => some i
  | .updating _ _ _ stream | .writing _ _ _ stream => stream
  | _ => none

/-- The admitted client is the source of the first datagram. -/
structure ClientKnown (s : State) : Prop where
  locking : ∀ addr b, s.pc = .locking addr b → (addr, b) ∈ s.received
  known : ∀ addr, s.clientUDPAddr = some addr → client s.received = some addr
  unknown : s.clientUDPAddr = none →
    s.received = [] ∨ ∃ addr b, s.pc = .locking addr b ∧ s.received = [(addr, b)]

/-- Only forwarded datagrams come into the hands of `send`. -/
def Carries (cfg : Config) (s : State) : Prop :=
  ∀ b target data, s.pc.inHand = some (b, target, data) → Forwarded cfg s.received b target data

/-- Every stream, header and payload stems from a forwarded datagram. -/
structure Traced (cfg : Config) (s : State) : Prop where
  held : ∀ i, s.stream = some i ∨ s.pc.holds = some i → ∃ st, s.streams i = some st
  streams : ∀ i st, s.streams i = some st → ∃ b data, Forwarded cfg s.received b st.target data
  writes : ∀ w ∈ s.writes, (∃ st, s.streams w.stream = some st) ∧
    ∃ target, Forwarded cfg s.received w.datagram target w.data

/-- The address that the lock admits is the client's. -/
theorem ClientKnown.client_of_locking (hs : ClientKnown s) (hp : s.pc = .locking addr b) :
    client s.received = some (s.clientUDPAddr.getD addr) := by
  cases hcl : s.clientUDPAddr with
  | some c => exact hs.known c hcl
  | none =>
    rcases hs.unknown hcl with hr | ⟨addr', b', hp', hr⟩
    · have hm := hs.locking addr b hp
      rw [hr] at hm
      cases hm
    · rw [hp] at hp'
      cases hp'
      rw [hr]
      rfl

theorem clientKnown_step (h : Step cfg s a t) (hs : ClientKnown s) : ClientKnown t := by
  have hlock : ∀ {addr b}, s.pc = .locking addr b →
      client s.received = some (s.clientUDPAddr.getD addr) := hs.client_of_locking
  obtain ⟨hl, hk, hu⟩ := hs
  cases h with
  | receive addr b hp ho =>
    refine ⟨by simp, fun c hc => client_append (hk c hc) _, fun hc => ?_⟩
    rcases hu hc with hr | ⟨_, _, hp', -⟩
    · exact Or.inr ⟨addr, b, rfl, by simp [hr]⟩
    · rw [hp] at hp'
      cases hp'
  | @lock addr b hp =>
    refine ⟨?_, ?_, by simp [State.afterLock]⟩
    · intro addr' b' hp'
      rcases afterLock_pc cfg s addr b with hr | ⟨_, _, hr, -⟩ <;> rw [hr] at hp' <;> cases hp'
    · intro c hc
      exact (hlock hp).trans hc
  | send hp hc =>
    constructor
    · intro addr b hp'
      simp only [State.sendEnter] at hp'
      split at hp' <;> cases hp'
    · simpa [State.sendEnter] using hk
    · have hu' : s.clientUDPAddr = none → s.received = [] := by simpa [hp] using hu
      exact fun hc => Or.inl (hu' hc)
  | _ =>
    constructor <;> simp_all [State.setPC, State.addStream, State.store, State.addWrite,
      State.closeEnter, State.updateTarget, State.callClose, State.closeRest]

theorem carries_step (h : Step cfg s a t) (hk : ClientKnown s) (hs : Carries cfg s) :
    Carries cfg t := by
  intro b target data hb
  cases h with
  | @lock addr b' hp =>
    rcases afterLock_pc cfg s addr b' with hr | ⟨_, _, hr, hc, hv⟩
    · rw [hr] at hb
      cases hb
    · rw [hr] at hb
      cases hb
      have hcl := hk.client_of_locking hp
      rw [hc] at hcl
      exact ⟨addr, hcl, hk.locking addr b hp, hv⟩
  | send hp hc =>
    have hs' := hs _ _ _ (congrArg LoopPc.inHand hp)
    simp only [State.sendEnter] at hb
    split at hb <;> cases hb <;> exact hs'
  | openOk id hp =>
    apply hs
    rw [hp]
    exact hb
  | store hp =>
    apply hs
    rw [hp]
    exact hb
  | update hp =>
    apply hs
    rw [hp]
    exact hb
  | _ => first | exact hs _ _ _ hb | cases hb

/-- No step forgets a received datagram or the header of a stream. -/
theorem received_step (h : Step cfg s a t) :
    t.received = s.received ∨ ∃ x, t.received = s.received ++ [x] := by
  cases h with
  | receive addr b hp ho => exact Or.inr ⟨(addr, b), rfl⟩
  | _ => exact Or.inl rfl

theorem forwarded_step (h : Step cfg s a t) (hf : Forwarded cfg s.received b target data) :
    Forwarded cfg t.received b target data := by
  rcases received_step h with hr | ⟨x, hr⟩
  · rwa [hr]
  · rw [hr]
    exact hf.append x

/-- Stream numbers are given out in order. -/
def Fresh (s : State) : Prop := ∀ i st, s.streams i = some st → i < s.next

theorem fresh_addStream {c : Bool} (hs : Fresh s) : Fresh (s.addStream target c) := by
  intro i st hi
  simp only [State.addStream] at hi ⊢
  split at hi
  · rename_i he
    rw [he]
    exact Nat.lt_succ_self _
  · exact Nat.lt_succ_of_lt (hs i st hi)

theorem closeStream_some {stream : Option StreamId} {st : Stream}
    (h : s.closeStream stream i = some st) : ∃ st', s.streams i = some st' ∧
      st'.target = st.target := by
  simp only [State.closeStream] at h
  split at h
  · obtain ⟨st', hs, rfl⟩ := Option.map_eq_some_iff.mp h
    exact ⟨st', hs, rfl⟩
  · exact ⟨st, h, rfl⟩

theorem some_closeStream {stream : Option StreamId} {st : Stream} (h : s.streams i = some st) :
    ∃ st', s.closeStream stream i = some st' ∧ st'.target = st.target := by
  simp only [State.closeStream]
  split
  · exact ⟨_, congrArg _ h, rfl⟩
  · exact ⟨st, h, rfl⟩

/-- The streams after a step: the same ones, and perhaps one opened for the datagram in hand. -/
theorem streams_origin (h : Step cfg s a t) {st : Stream} (hi : t.streams i = some st) :
    (∃ st', s.streams i = some st' ∧ st'.target = st.target) ∨
      (i = s.next ∧ ∃ b data, s.pc.inHand = some (b, st.target, data)) := by
  cases h with
  | @openOk b target data id hp =>
    change (if i = s.next then some _ else s.streams i) = some st at hi
    split at hi
    · cases hi
      exact Or.inr ⟨‹_›, b, data, by rw [hp]; rfl⟩
    · exact Or.inl ⟨st, hi, rfl⟩
  | @headerFail b target data hp =>
    change (if i = s.next then some _ else s.streams i) = some st at hi
    split at hi
    · cases hi
      exact Or.inr ⟨‹_›, b, data, by rw [hp]; rfl⟩
    · exact Or.inl ⟨st, hi, rfl⟩
  | loopCloseRest hp => exact Or.inl (closeStream_some hi)
  | closeRest hc => exact Or.inl (closeStream_some hi)
  | _ => exact Or.inl ⟨st, hi, rfl⟩

theorem streams_step (h : Step cfg s a t) (hf : Fresh s) {st : Stream}
    (hi : s.streams i = some st) : ∃ st', t.streams i = some st' ∧ st'.target = st.target := by
  have hne : i ≠ s.next := Nat.ne_of_lt (hf i st hi)
  cases h with
  | openOk id hp => exact ⟨st, (if_neg hne).trans hi, rfl⟩
  | headerFail hp => exact ⟨st, (if_neg hne).trans hi, rfl⟩
  | loopCloseRest hp => exact some_closeStream hi
  | closeRest hc => exact some_closeStream hi
  | _ => exact ⟨st, hi, rfl⟩

theorem fresh_closeRest {stream : Option StreamId} (hs : Fresh s) : Fresh (s.closeRest stream) := by
  intro i st hi
  obtain ⟨st', hi', -⟩ := closeStream_some hi
  exact hs i st' hi'

theorem fresh_step (h : Step cfg s a t) (hs : Fresh s) : Fresh t := by
  cases h with
  | openOk id hp => exact fresh_addStream hs
  | headerFail hp => exact fresh_addStream hs
  | loopCloseRest hp => exact fresh_closeRest hs
  | closeRest hc => exact fresh_closeRest hs
  | _ => exact hs

/-- A call of `Close` brings no stream into anybody's hands. -/
theorem held_callClose (hi : s.callClose.stream = some i ∨ s.callClose.pc.holds = some i) :
    s.stream = some i ∨ s.pc.holds = some i := by
  rcases hi with hi | hi
  · simp only [State.callClose] at hi
    split at hi
    · exact Or.inl hi
    · cases hi
  · exact Or.inr hi

/-- A stream that is held was held before the step, or was opened in it. -/
theorem held_step (h : Step cfg s a t) (hi : t.stream = some i ∨ t.pc.holds = some i) :
    (s.stream = some i ∨ s.pc.holds = some i) ∨ ∃ st, t.streams i = some st := by
  cases h with
  | openOk id hp =>
    rcases hi with hi | hi
    · exact Or.inl (Or.inl hi)
    · cases hi
      exact Or.inr ⟨_, if_pos rfl⟩
  | store hp =>
    rcases hi with hi | hi <;> cases hi <;> exact Or.inl (Or.inr (by rw [hp]; rfl))
  | update hp =>
    rcases hi with hi | hi
    · exact Or.inl (Or.inl hi)
    · exact Or.inl (Or.inr (by rw [hp]; exact hi))
  | send hp hc =>
    rcases hi with hi | hi
    · exact Or.inl (Or.inl hi)
    · simp only [State.sendEnter] at hi
      split at hi
      · cases hi
      · exact Or.inl (Or.inl hi)
  | @lock addr b hp =>
    rcases hi with hi | hi
    · exact Or.inl (Or.inl hi)
    · rcases afterLock_pc cfg s addr b with hr | ⟨_, _, hr, -⟩ <;> rw [hr] at hi <;> cases hi
  | controlEnd hc => exact Or.inl (held_callClose (s := { s with control := false }) hi)
  | @replyFail j hc =>
    exact Or.inl (held_callClose (s := { s with replies := s.replies.erase j }) hi)
  | loopClose hp hc => rcases hi with hi | hi <;> cases hi
  | closeRest hc => exact Or.inl hi
  | _ =>
    rcases hi with hi | hi
    · exact Or.inl (Or.inl hi)
    · cases hi

/-- A payload is written from the hands of `send` onto the stream that it holds. -/
theorem writes_step (h : Step cfg s a t) : t.writes = s.writes ∨
    ∃ b target data i, s.pc.inHand = some (b, target, data) ∧ s.pc.holds = some i ∧
      t.writes = ⟨i, b, data⟩ :: s.writes := by
  cases h with
  | @writeOk b target data i st hp hi hc =>
    exact Or.inr ⟨b, target, data, i, by rw [hp]; rfl, by rw [hp]; rfl, rfl⟩
  | @writeFail b target data i hp =>
    exact Or.inr ⟨b, target, data, i, by rw [hp]; rfl, by rw [hp]; rfl, rfl⟩
  | _ => exact Or.inl rfl

theorem traced_step (h : Step cfg s a t) (hf : Fresh s) (hc : Carries cfg s)
    (hs : Traced cfg s) : Traced cfg t := by
  constructor
  · intro i hi
    rcases held_step h hi with hi | hi
    · obtain ⟨st, hst⟩ := hs.held i hi
      obtain ⟨st', hst', -⟩ := streams_step h hf hst
      exact ⟨st', hst'⟩
    · exact hi
  · intro i st hi
    rcases streams_origin h hi with ⟨st', hi', he⟩ | ⟨-, b, data, hb⟩
    · obtain ⟨b, data, hfw⟩ := hs.streams i st' hi'
      rw [he] at hfw
      exact ⟨b, data, forwarded_step h hfw⟩
    · exact ⟨b, data, forwarded_step h (hc _ _ _ hb)⟩
  · intro w hw
    have hold : w ∈ s.writes → (∃ st, t.streams w.stream = some st) ∧
        ∃ target, Forwarded cfg t.received w.datagram target w.data := by
      intro hw
      obtain ⟨⟨st, hst⟩, target, hfw⟩ := hs.writes w hw
      obtain ⟨st', hst', -⟩ := streams_step h hf hst
      exact ⟨⟨st', hst'⟩, target, forwarded_step h hfw⟩
    rcases writes_step h with hws | ⟨b, target, data, i, hb, hi, hws⟩
    · rw [hws] at hw
      exact hold hw
    · rw [hws] at hw
      rcases List.mem_cons.mp hw with rfl | hw
      · obtain ⟨st, hst⟩ := hs.held i (Or.inr hi)
        obtain ⟨st', hst', -⟩ := streams_step h hf hst
        exact ⟨⟨st', hst'⟩, target, forwarded_step h (hc _ _ _ hb)⟩
      · exact hold hw

/-- What holds in every state that an association can reach. -/
structure AssocInv (cfg : Config) (s : State) : Prop where
  known : ClientKnown s
  carries : Carries cfg s
  fresh : Fresh s
  traced : Traced cfg s

theorem assocInv_initial : AssocInv cfg initial := by
  refine ⟨⟨?_, ?_, fun _ => Or.inl rfl⟩, ?_, ?_, ⟨?_, ?_, ?_⟩⟩
  · intro addr b h
    cases h
  · intro addr h
    cases h
  · intro b target data h
    cases h
  · intro i st h
    cases h
  · rintro i (h | h) <;> cases h
  · intro i st h
    cases h
  · intro w h
    cases h

theorem assocInv_step (h : Step cfg s a t) (hs : AssocInv cfg s) : AssocInv cfg t :=
  ⟨clientKnown_step h hs.known, carries_step h hs.known hs.carries, fresh_step h hs.fresh,
    traced_step h hs.fresh hs.carries hs.traced⟩

theorem assocInv_reachable (h : ReachableState cfg s) : AssocInv cfg s :=
  h.invariant (fun _ _ _ hst => assocInv_step hst) (by
    rintro _ rfl
    exact assocInv_initial)

theorem faithful_of_oneTarget (h : ReachableState cfg s) (hone : OneTarget cfg s.received) :
    Faithful s := by
  have hi := assocInv_reachable h
  intro w hw
  obtain ⟨⟨st, hst⟩, target, hfw⟩ := hi.traced.writes w hw
  obtain ⟨b, data, hfs⟩ := hi.traced.streams _ st hst
  have he : st.target = target := hone _ _ _ _ _ _ hfs hfw
  obtain ⟨addr, -, -, hv⟩ := hfw
  exact ⟨st, hst, he ▸ parse_of_send hv⟩

end XTunnel.Udp
