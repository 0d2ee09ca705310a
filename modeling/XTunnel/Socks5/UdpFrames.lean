import XTunnel.Socks5.UdpStream

/-! What `hev_socks5_udp_recvmmsg_tcp` takes for a message: the two lengths that a frame states for
its address. -/
namespace XTunnel.Socks5

open Net Fragments

/-- A frame with its address as far as the header length reaches, and its payload. -/
structure Frame where
  addr : Text
  payload : Text
  addr_ge : 2 ≤ addr.length
  addr_le : addr.length ≤ 252
  payload_le : payload.length ≤ 65535

variable {f g : Frame} {frames : List Frame} {buf : Text} {msgv bufs : List Text}
  {s s' : Arrivals UInt8} {r : Received} {done : List Received} {nonblock : Bool}
  {stream rest xs ys : Text}

namespace Frame

def hdrlen (f : Frame) : Nat := 3 + f.addr.length

def bytes (f : Frame) : Text :=
  portBytes f.payload.length ++ UInt8.ofNat f.hdrlen :: (f.addr ++ f.payload)

/-- The header states the length that the address has by its type and its name. -/
def Consistent (f : Frame) : Prop :=
  (f.hdrlen : Int) = 3 + hev_socks5_addr_len (HevSocks5Addr.ofMem f.addr)

/-- The memory has room for the address and the payload. -/
def Fits (f : Frame) (buf : Text) : Prop := f.addr.length + f.payload.length ≤ buf.length

end Frame

/-- The message is the frame: what is interpreted of its memory are the bytes of the frame. -/
structure Received.From (r : Received) (f : Frame) : Prop where
  hdrlen : (f.hdrlen : Int) = 3 + hev_socks5_addr_len (HevSocks5Addr.ofMem r.mem)
  datagram : r.datagram = ⟨f.addr, f.payload⟩

/-- The frames of the stream are consistent as far as there are memories, and it does not end within
what follows a header. -/
structure SoundFrames (msgv : List Text) (stream : Text) : Prop where
  consistent : ∀ bufs frames rest, bufs <+: msgv → stream = frames.flatMap Frame.bytes ++ rest →
    List.Forall₂ Frame.Fits frames bufs → ∀ f ∈ frames, f.Consistent
  whole : ∀ bufs buf frames (f : Frame) torn, bufs ++ [buf] <+: msgv →
    stream = frames.flatMap Frame.bytes ++ torn → List.Forall₂ Frame.Fits frames bufs →
    f.Fits buf → torn <+: f.bytes → 5 < torn.length → torn = f.bytes

namespace Frame

/-- The message that a frame becomes in a memory. -/
def received (f : Frame) (buf : Text) : Received :=
  ⟨fill buf f.addr.length (f.addr.drop 2 ++ f.payload) (f.addr.getD 0 0) (f.addr.getD 1 0),
    f.addr.length, f.payload.length⟩

end Frame

section Read

variable {d1 d0 hdrlen atype len : UInt8}

end Read

theorem SoundFrames.tail (h : SoundFrames (buf :: msgv) (f.bytes ++ rest)) (hf : f.Fits buf) :
    SoundFrames msgv rest := by
  constructor
  · intro bufs frames rest' hpre hrest hfits g hg
    refine h.consistent (buf :: bufs) (f :: frames) rest' ((List.cons_prefix_cons).mpr ⟨rfl, hpre⟩)
      ?_ (.cons hf hfits) g (List.mem_cons_of_mem f hg)
    rw [hrest, List.flatMap_cons, List.append_assoc]
  · intro bufs buf' frames g torn hpre hrest hfits hg htorn hlen
    refine h.whole (buf :: bufs) buf' (f :: frames) g torn ((List.cons_prefix_cons).mpr ⟨rfl, hpre⟩)
      ?_ (.cons hf hfits) hg htorn hlen
    rw [hrest, List.flatMap_cons, List.append_assoc]

/-- The frames that a call takes off the stream `s`, behind the messages that are `done`. -/
def Takes (s s' : Arrivals UInt8) (done : List Received) (r : RecvResult) : Prop :=
  r.ret = r.msgs.length ∧ ∃ new frames rest, r.msgs = done ++ new ∧
    contents s = frames.flatMap Frame.bytes ++ rest ∧
    (contents s' = rest ∨ rest.length < 5 ∧ contents s' = []) ∧
    List.Forall₂ Received.From new frames

theorem Takes.cons {s₁ : Arrivals UInt8} {r : RecvResult} {x : Received}
    (h : Takes s₁ s' (done ++ [x]) r) (hx : x.From f) (hc : contents s = f.bytes ++ contents s₁) :
    Takes s s' done r := by
  obtain ⟨hret, new, frames, rest, hmsgs, hs, hrest, hall⟩ := h
  refine ⟨hret, x :: new, f :: frames, rest, ?_, ?_, hrest, .cons hx hall⟩
  · rw [hmsgs, List.append_assoc]
    rfl
  · rw [hc, hs, List.flatMap_cons, List.append_assoc]

end XTunnel.Socks5
