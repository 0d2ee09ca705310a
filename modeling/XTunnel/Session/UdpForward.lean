import XTunnel.Session.UdpSource
import XTunnel.Transition

/-! Datagrams of the application on their way to the relay: `udp_recv_handler` queues them, and
`hev_socks5_session_udp_fwd_f` sends them in batches. -/
namespace XTunnel.UdpForward

open Net MappedDns

/-- A chain of buffers: the payload of the first one, and of those linked behind it. -/
structure Pbuf where
  payload : Text
  next : List Text

def Pbuf.contents (p : Pbuf) : Text := p.payload ++ p.next.flatten

structure Frame where
  addr : Option SocksAddr
  data : Pbuf

structure Msg where
  addr : Option SocksAddr
  buf : Text
deriving DecidableEq

/-- `buf->payload` and `buf->len`, which are those of the first buffer. -/
def Frame.msg (f : Frame) : Msg := ⟨f.addr, f.data.payload⟩

/-- The message with all of the datagram. -/
def Frame.whole (f : Frame) : Msg := ⟨f.addr, f.data.contents⟩

/-- `res_f` tells whether the splicer still calls the forwarder, and `msgv` is the batch of a call
that is sending. `sent` and `accepted` are histories. -/
structure State where
  frames : Int
  frame_list : List Frame
  res_f : Bool
  msgv : Option (List Msg)
  sent : List Msg
  accepted : List Frame

def initial : State := ⟨0, [], true, none, [], []⟩

abbrev UDP_POOL_SIZE : Int := 512

/-- `alloc` tells whether there is memory for the frame. -/
def udp_recv_handler (s : State) (f : Frame) (alloc : Bool) : State :=
  if UDP_POOL_SIZE < s.frames ∨ alloc = false then s
  else
    { s with
      frames := s.frames + 1
      frame_list := s.frame_list ++ [f]
      accepted := s.accepted ++ [f] }

/-- `hev_socks5_session_udp_fwd_f` up to the send. -/
def fwd_f_prepare (s : State) (num : Nat) : State :=
  if s.frames ≤ 0 then s
  else
    let res : Int := if num < s.frames then num else s.frames
    { s with msgv := some ((s.frame_list.take res.toNat).map Frame.msg) }

/-- `hev_socks5_session_udp_fwd_f` behind the send of `msgv`, with its result. -/
def fwd_f_finish (s : State) (msgv : List Msg) (res : Int) : State :=
  if res ≤ 0 then { s with msgv := none, res_f := false }
  else
    { s with
      frames := s.frames - res
      frame_list := s.frame_list.drop res.toNat
      msgv := none
      sent := s.sent ++ msgv.take res.toNat }

inductive Action
  | recv (f : Frame) (alloc : Bool)
  | prepare (num : Nat)
  | finish (res : Int)

/-- Datagrams arrive at any time, also while a batch is being sent. -/
inductive Step : State → Action → State → Prop
  | recv {s : State} {f : Frame} {alloc : Bool} :
      Step s (.recv f alloc) (udp_recv_handler s f alloc)
  | prepare {s : State} {num : Nat} :
      s.res_f = true → s.msgv = none → Step s (.prepare num) (fwd_f_prepare s num)
  | finish {s : State} {msgv : List Msg} {res : Int} :
      s.msgv = some msgv → res ≤ msgv.length → Step s (.finish res) (fwd_f_finish s msgv res)

/-- The counter is the length of the list, and the batch is from its front. -/
structure Queued (s : State) : Prop where
  counted : s.frames = s.frame_list.length
  front : ∀ msgv, s.msgv = some msgv → msgv = (s.frame_list.take msgv.length).map Frame.msg

/-- What is sent, followed by what is queued, is what was accepted, each datagram as a whole. -/
structure Forwarded (s : State) : Prop extends Queued s where
  whole : s.sent ++ s.frame_list.map Frame.whole = s.accepted.map Frame.whole

/-- The datagrams that are reported as sent lie in their first buffers. -/
def Unchained (s : State) : Action → Prop
  | .finish res => ∀ f ∈ s.frame_list.take res.toNat, f.data.next.flatten = []
  | _ => True

variable {s t : State} {a : Action} {xs : List Action} {f : Frame} {fs : List Frame}

theorem msg_eq_whole_iff : f.msg = f.whole ↔ f.data.next.flatten = [] := by
  rw [Frame.msg, Frame.whole, Msg.mk.injEq, and_iff_right rfl, Pbuf.contents]
  exact List.self_eq_append_right

theorem map_msg_eq_iff : fs.map Frame.msg = fs.map Frame.whole ↔
    ∀ f ∈ fs, f.data.next.flatten = [] := by
  rw [List.map_inj_left]
  exact forall₂_congr fun f _ => msg_eq_whole_iff

theorem queued_initial : Queued initial := ⟨rfl, nofun⟩

/-- The frame as the model of the session's sources has it. -/
def Frame.kept (f : Frame) : UdpSource.Frame := ⟨f.addr, f.data.contents⟩

/-- The two models of `udp_recv_handler` queue the same frames. -/
theorem recv_frames {u : UdpSource.State} {ip : IpAddr} {port : BitVec 16} (alloc : Bool) (hs : Queued s)
    (hu : u.frames = s.frame_list.map Frame.kept) (hf : f.addr = (addrFromLwip u.dns ip port).2) :
    (UdpSource.udp_recv_handler u ip port f.data.contents alloc).frames =
      (udp_recv_handler s f alloc).frame_list.map Frame.kept := by
  have hlen : UdpSource.UDP_POOL_SIZE < u.frames.length ∨ alloc = false ↔
      UDP_POOL_SIZE < s.frames ∨ alloc = false := by
    rw [hu, List.length_map, hs.counted]
    exact or_congr_left Int.ofNat_lt.symm
  rw [UdpSource.udp_recv_handler, udp_recv_handler]
  dsimp only
  by_cases hfull : UDP_POOL_SIZE < s.frames ∨ alloc = false
  · rw [if_pos (hlen.mpr hfull), if_pos hfull]
    exact hu
  · rw [if_neg fun h => hfull (hlen.mp h), if_neg hfull, List.map_append, ← hu]
    have hkept : [f].map Frame.kept = [⟨(addrFromLwip u.dns ip port).2, f.data.contents⟩] := by
      rw [← hf]
      rfl
    rw [hkept]
    split <;> rfl

theorem length_front (hs : Queued s) {msgv : List Msg} (hm : s.msgv = some msgv) :
    msgv.length ≤ s.frame_list.length := by
  have hlen := congrArg List.length (hs.front msgv hm)
  rw [List.length_map, List.length_take] at hlen
  omega

theorem queued_step (h : Step s a t) (hs : Queued s) : Queued t := by
  cases h with
  | recv =>
    rw [udp_recv_handler]
    split
    · exact hs
    · refine ⟨?_, ?_⟩
      · simp [hs.counted]
      · intro msgv hm
        have hlen := length_front hs hm
        dsimp only
        rw [List.take_append_of_le_length hlen]
        exact hs.front msgv hm
  | prepare =>
    rw [fwd_f_prepare]
    split
    · exact hs
    · refine ⟨hs.counted, ?_⟩
      intro msgv hm
      cases hm
      simp
  | @finish msgv res hm hres =>
    have hlen := length_front hs hm
    rw [fwd_f_finish]
    split
    · exact ⟨hs.counted, nofun⟩
    · refine ⟨?_, nofun⟩
      have hcount := hs.counted
      simp only [List.length_drop]
      omega

/-- The counter never leaves the length of the list. -/
theorem queued_run (h : Run Step initial xs s) : Queued s :=
  h.invariant (fun _ _ _ => queued_step) queued_initial

theorem forwarded_initial : Forwarded initial := ⟨queued_initial, rfl⟩

/-- The messages that are reported as sent are those of the first frames. -/
theorem take_msgv (hs : Queued s) {msgv : List Msg} (hm : s.msgv = some msgv) {n : Nat}
    (hn : n ≤ msgv.length) : msgv.take n = (s.frame_list.take n).map Frame.msg := by
  have hfront := congrArg (List.take n) (hs.front msgv hm)
  rw [← List.map_take, List.take_take, Nat.min_eq_left hn] at hfront
  exact hfront

/-- Only a batch that is reported as sent can lose a part of a datagram. -/
theorem forwarded_step (h : Step s a t) (hs : Forwarded s) : Forwarded t ↔ Unchained s a := by
  have hq := queued_step h hs.toQueued
  have hw := hs.whole
  have hiff : Forwarded t ↔ t.sent ++ t.frame_list.map Frame.whole = t.accepted.map Frame.whole :=
    ⟨fun ht => ht.whole, fun ht => ⟨hq, ht⟩⟩
  rw [hiff]
  cases h with
  | recv =>
    refine iff_of_true ?_ trivial
    rw [udp_recv_handler]
    split
    · exact hw
    · dsimp only
      rw [List.map_append, List.map_append, ← List.append_assoc, hw]
  | prepare =>
    refine iff_of_true ?_ trivial
    rw [fwd_f_prepare]
    split
    · exact hw
    · exact hw
  | @finish msgv res hm hres =>
    rw [fwd_f_finish, Unchained]
    split
    · rename_i hneg
      rw [Int.toNat_of_nonpos hneg, List.take_zero]
      exact iff_of_true hw (List.forall_mem_nil _)
    · have hsplit : s.frame_list.map Frame.whole =
          (s.frame_list.take res.toNat).map Frame.whole ++
            (s.frame_list.drop res.toNat).map Frame.whole := by
        rw [← List.map_append, List.take_append_drop]
      dsimp only
      rw [take_msgv hs.toQueued hm (by omega), ← hw, hsplit, List.append_assoc,
        List.append_cancel_left_eq, List.append_cancel_right_eq, map_msg_eq_iff]

/-- Every datagram is forwarded as a whole, in order and once, exactly in the runs in which those
that are sent lie in their first buffers. -/
theorem forwarded_iff : Run (Into Step Forwarded) initial xs s ↔
    Run (Guarded Step Unchained) initial xs s :=
  Run.into_iff_guarded (fun _ _ _ => forwarded_step) forwarded_initial

/-- A datagram in two buffers. -/
def twoLinks : Frame := ⟨none, ⟨[1], [[2]]⟩⟩

/-- The second buffer is not sent. -/
theorem chain_truncated : ¬ ∀ xs s, Run Step initial xs s → Forwarded s := by
  intro h
  have hf := h [.recv twoLinks true, .prepare 1, .finish 1] _
    (.stepL .recv (.stepL (.prepare rfl rfl) (.single (.finish rfl (by decide)))))
  exact absurd hf.whole (by decide)

end XTunnel.UdpForward
