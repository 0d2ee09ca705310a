import Mathlib.Data.List.Induction
import XTunnel.Udp.Fidelity

/-! An undisturbed association serves every datagram on the stream of the first one. -/
namespace XTunnel.Udp

open Net Socks5

variable {cfg : Config} {s : State} {b target data : Text} {addr : Addr}
  {ds : List (Addr × Text)}

/-- The association has served `ds` on one stream, and waits for the next datagram. -/
structure Served (cfg : Config) (ds : List (Addr × Text)) (s : State) : Prop where
  pc : s.pc = .reading
  listening : s.udpListener = true
  running : s.closed = false
  received : s.received = ds
  client : s.clientUDPAddr = client ds
  idle : s.receiving = false → ∀ b target data, ¬ Forwarded cfg ds b target data
  serving : s.receiving = true → ∃ i st, s.stream = some i ∧ s.streams i = some st ∧
    st.closed = false ∧ ∀ b target data, Forwarded cfg ds b target data →
      ⟨i, b, data⟩ ∈ s.writes

theorem served_initial : Served cfg [] initial := by
  refine ⟨rfl, rfl, rfl, rfl, rfl, ?_, ?_⟩
  · rintro - b target data ⟨addr, hc, -⟩
    cases hc
  · intro h
    cases h

theorem client_getD (addr : Addr) (b : Text) :
    client (ds ++ [(addr, b)]) = some ((client ds).getD addr) := by
  cases ds <;> rfl

/-- The last datagram is forwarded if it is the client's and passes the filters. -/
theorem forwarded_append_iff {b' : Text} : Forwarded cfg (ds ++ [(addr, b')]) b target data ↔
    Forwarded cfg ds b target data ∨
      (client ds).getD addr = addr ∧ b = b' ∧ loopVerdict cfg b = .send target data := by
  unfold Forwarded
  rw [client_getD]
  constructor
  · rintro ⟨c, hc, hm, hv⟩
    cases hc
    rcases List.mem_append.mp hm with hm | hm
    · left
      cases ds with
      | nil => cases hm
      | cons d ds => exact ⟨_, rfl, hm, hv⟩
    · obtain ⟨he, rfl⟩ := Prod.mk.inj (List.mem_singleton.mp hm)
      exact Or.inr ⟨he, rfl, hv⟩
  · rintro (⟨c, hc, hm, hv⟩ | ⟨he, rfl, hv⟩)
    · exact ⟨c, by rw [hc]; rfl, List.mem_append_left _ hm, hv⟩
    · exact ⟨_, rfl, by rw [he]; simp, hv⟩

/-- A datagram that is not forwarded leaves the streams and payloads alone. -/
theorem serve_dropped (h : Served cfg ds s)
    (hno : ¬ ((client ds).getD addr = addr ∧ ∃ target data, loopVerdict cfg b = .send target data)) :
    ∃ xs s', Run (Step cfg) s xs s' ∧ Served cfg (ds ++ [(addr, b)]) s' := by
  let s₁ : State := { s with pc := .locking addr b, received := s.received ++ [(addr, b)] }
  have hpc : (s₁.afterLock cfg addr b).pc = .reading := by
    simp only [State.afterLock]
    split
    · rename_i hc
      split
      · rename_i hv
        refine absurd ⟨?_, _, _, hv⟩ hno
        rw [← h.client]
        exact hc
      · rfl
    · rfl
  have hfw : ∀ b' target data, Forwarded cfg (ds ++ [(addr, b)]) b' target data →
      Forwarded cfg ds b' target data := by
    intro b' target data hf
    rcases forwarded_append_iff.mp hf with hf | ⟨hc, rfl, hv⟩
    · exact hf
    · exact (hno ⟨hc, target, data, hv⟩).elim
  refine ⟨_, s₁.afterLock cfg addr b,
    .stepL (.receive addr b h.pc h.listening) (.single (.lock rfl)), hpc, h.listening, h.running,
    ?_, ?_, ?_, ?_⟩
  · change s.received ++ _ = _
    rw [h.received]
  · rw [client_getD, ← h.client]
    rfl
  · exact fun hr b' target data hf => h.idle hr _ _ _ (hfw _ _ _ hf)
  · intro hr
    obtain ⟨i, st, hi, hst, ho, hw⟩ := h.serving hr
    exact ⟨i, st, hi, hst, ho, fun b' target data hf => hw _ _ _ (hfw _ _ _ hf)⟩

/-- A forwarded datagram is written to the one stream, which the first of them opens. -/
theorem serve_forwarded (h : Served cfg ds s) (hc : (client ds).getD addr = addr)
    (hv : loopVerdict cfg b = .send target data) :
    ∃ xs s', Run (Step cfg) s xs s' ∧ Served cfg (ds ++ [(addr, b)]) s' := by
  let s₁ : State := { s with pc := .locking addr b, received := s.received ++ [(addr, b)] }
  let s₂ := s₁.afterLock cfg addr b
  have hpc : s₂.pc = .sending b target data := by
    have hc' : s₁.clientUDPAddr.getD addr = addr := by
      rw [← h.client] at hc
      exact hc
    simp only [s₂, State.afterLock, hc', hv, if_true]
  have hrun : Run (Step cfg) s [.receive addr b, .lock, .send] (s₂.sendEnter b target data) :=
    .stepL (.receive addr b h.pc h.listening)
      (.stepL (.lock rfl) (.single (.send hpc h.running)))
  have hreceived : s₂.received = ds ++ [(addr, b)] := by
    change s.received ++ _ = _
    rw [h.received]
  have hclient : s₂.clientUDPAddr = client (ds ++ [(addr, b)]) := by
    rw [client_getD, ← h.client]
    rfl
  cases hr : s.receiving with
  | false =>
    -- the first forwarded datagram opens the stream
    have hr' : s₂.receiving = false := hr
    let s₃ := s₂.sendEnter b target data
    let s₄ := (s₃.addStream target false).setPC (.storing b target data s₃.next 1)
    let s₅ := (s₄.store s₃.next 1).setPC (.writing b target data (some s₃.next))
    have hpc₃ : s₃.pc = .opening b target data := by simp [s₃, State.sendEnter, hr']
    have hst : s₅.streams s₃.next = some ⟨target, false⟩ := if_pos rfl
    have hrun' : Run (Step cfg) s₃ [.openOk, .store, .writeOk]
        ((s₅.addWrite s₃.next b data).setPC .reading) :=
      .stepL (.openOk 1 hpc₃) (.stepL (.store rfl) (.single (.writeOk rfl hst rfl)))
    refine ⟨_, _, hrun.append hrun', rfl, h.listening, h.running, hreceived, hclient, ?_, ?_⟩
    · intro hr
      cases hr
    · refine fun _ => ⟨s₃.next, _, rfl, hst, rfl, ?_⟩
      intro b' target' data' hf
      rcases forwarded_append_iff.mp hf with hf | ⟨-, rfl, hv'⟩
      · exact (h.idle hr _ _ _ hf).elim
      · rw [hv] at hv'
        cases hv'
        exact List.mem_cons_self
  | true =>
    have hr' : s₂.receiving = true := hr
    obtain ⟨i, st, hi, hst, ho, hw⟩ := h.serving hr
    let s₃ := s₂.sendEnter b target data
    let s₄ := (s₃.updateTarget target).setPC (.writing b target data (some i))
    have hpc₃ : s₃.pc = .updating b target data (some i) := by
      have hi' : s₂.stream = some i := hi
      simp [s₃, State.sendEnter, hr', hi']
    have hrun' : Run (Step cfg) s₃ [.update, .writeOk] ((s₄.addWrite i b data).setPC .reading) :=
      .stepL (.update hpc₃) (.single (.writeOk rfl hst ho))
    refine ⟨_, _, hrun.append hrun', rfl, h.listening, h.running, hreceived, hclient, ?_, ?_⟩
    · intro hr
      cases hr
    · refine fun _ => ⟨i, st, hi, hst, ho, ?_⟩
      intro b' target' data' hf
      rcases forwarded_append_iff.mp hf with hf | ⟨-, rfl, hv'⟩
      · exact List.mem_cons_of_mem _ (hw _ _ _ hf)
      · rw [hv] at hv'
        cases hv'
        exact List.mem_cons_self

/-- Every sequence of datagrams can be served in full. -/
theorem exists_served (cfg : Config) (ds : List (Addr × Text)) :
    ∃ xs s, Run (Step cfg) initial xs s ∧ Served cfg ds s := by
  induction ds using List.reverseRecOn with
  | nil => exact ⟨[], initial, .refl, served_initial⟩
  | append_singleton ds d ih =>
    obtain ⟨addr, b⟩ := d
    obtain ⟨xs, s, hrun, hs⟩ := ih
    have hstep : ∃ ys s', Run (Step cfg) s ys s' ∧ Served cfg (ds ++ [(addr, b)]) s' := by
      by_cases hf : (client ds).getD addr = addr ∧ ∃ target data, loopVerdict cfg b = .send target data
      · obtain ⟨hc, target, data, hv⟩ := hf
        exact serve_forwarded hs hc hv
      · exact serve_dropped hs hf
    obtain ⟨ys, s', hrun', hs'⟩ := hstep
    exact ⟨xs ++ ys, s', hrun.append hrun', hs'⟩

theorem Served.oneTarget (h : Served cfg ds s) (hf : Faithful s) : OneTarget cfg ds := by
  intro b target data b' target' data' hb hb'
  cases hr : s.receiving with
  | false => exact (h.idle hr _ _ _ hb).elim
  | true =>
    obtain ⟨i, st, -, hst, -, hw⟩ := h.serving hr
    have htarget : ∀ b target data, Forwarded cfg ds b target data → st.target = target := by
      intro b target data hb
      obtain ⟨st', hst', hp⟩ := hf _ (hw _ _ _ hb)
      obtain ⟨-, -, -, hv⟩ := hb
      rw [hst] at hst'
      cases hst'
      rw [parse_of_send hv] at hp
      cases hp
      rfl
    exact (htarget _ _ _ hb).symm.trans (htarget _ _ _ hb')

theorem destination_fidelity_iff (cfg : Config) (ds : List (Addr × Text)) :
    (∀ s, ReachableState cfg s → s.received = ds → Faithful s) ↔ OneTarget cfg ds := by
  constructor
  · intro h
    obtain ⟨xs, s, hrun, hs⟩ := exists_served cfg ds
    exact hs.oneTarget (h s ⟨initial, xs, rfl, hrun⟩ hs.received)
  · rintro hone s hs rfl
    exact faithful_of_oneTarget hs hone

/-- A client that asks two resolvers from one port. -/
def twoResolvers : List (Addr × Text) :=
  [([99], [0, 0, 0, 1, 1, 1, 1, 1, 0, 53]), ([99], [0, 0, 0, 1, 8, 8, 8, 8, 0, 53])]

/-- The payload for the second resolver goes onto the stream of the first. -/
theorem second_target_misrouted : ∃ s, ReachableState ⟨.default, .empty⟩ s ∧
    s.received = twoResolvers ∧ ¬ Faithful s := by
  obtain ⟨xs, s, hrun, hs⟩ := exists_served ⟨.default, .empty⟩ twoResolvers
  refine ⟨s, ⟨initial, xs, rfl, hrun⟩, hs.received, fun hf => ?_⟩
  have hone := hs.oneTarget hf
  have hfirst : Forwarded ⟨.default, .empty⟩ twoResolvers [0, 0, 0, 1, 1, 1, 1, 1, 0, 53]
      [49, 46, 49, 46, 49, 46, 49, 58, 53, 51] [] := ⟨[99], rfl, by decide, by decide⟩
  have hsecond : Forwarded ⟨.default, .empty⟩ twoResolvers [0, 0, 0, 1, 8, 8, 8, 8, 0, 53]
      [56, 46, 56, 46, 56, 46, 56, 58, 53, 51] [] := ⟨[99], rfl, by decide, by decide⟩
  exact absurd (hone _ _ _ _ _ _ hfirst hsecond) (by decide)

end XTunnel.Udp
