import XTunnel.Framing
import XTunnel.Socks5.Packet

/-! The frames of UDP replies on a tunnel stream. -/
namespace XTunnel.Udp

open Net Socks5 Framing

inductive ReadError
  | EOF
  | ErrUnexpectedEOF
deriving DecidableEq

/-- `io.ReadFull` into a buffer of `n` bytes, from the bytes that a stream still has. -/
def ioReadFull (n : Nat) (s : Text) : Except ReadError (Text × Text) :=
  if n = 0 then .ok ([], s)
  else if s = [] then .error .EOF
  else if s.length < n then .error .ErrUnexpectedEOF
  else .ok (s.take n, s.drop n)

/-- `binary.BigEndian.PutUint16` of a length, which is cut to 16 bits. -/
def putUint16 (n : Nat) : Text := [UInt8.ofNat (n / 256), UInt8.ofNat n]

/-- The writes of `writeUDPReply`, together. -/
def replyBytes (addr payload : Text) : Text :=
  putUint16 addr.length ++ putUint16 payload.length ++ addr ++ payload

/-- `writeUDPReply` on a stream that takes every write. -/
def writeUDPReply (addr payload : Text) : Except String Text :=
  if addr.length > 65535 then .error "地址过长" else .ok (replyBytes addr payload)

def readUDPReply (s : Text) : Except ReadError ((Text × Text) × Text) :=
  match ioReadFull 4 s with
  | .error e => .error e
  | .ok (head, s) =>
    let addrLen := be16 (head.getD 0 0) (head.getD 1 0)
    let dataLen := be16 (head.getD 2 0) (head.getD 3 0)
    match ioReadFull addrLen s with
    | .error e => .error e
    | .ok (addrRaw, s) =>
      match ioReadFull dataLen s with
      | .error e => .error e
      | .ok (data, s) => .ok ((addrRaw, data), s)

/-- The output of one `writeUDPReply` after the other, if none returns an error. -/
def writeUDPReplies : List (Text × Text) → Except String Text
  | [] => .ok []
  | f :: fs =>
    match writeUDPReply f.1 f.2 with
    | .error e => .error e
    | .ok b =>
      match writeUDPReplies fs with
      | .error e => .error e
      | .ok s => .ok (b ++ s)

abbrev frameBytes (f : Text × Text) : Text := replyBytes f.1 f.2

/-- The stream `s` is read back as `frames`, and each prefix of it as the frames wholly in it. -/
structure RoundTrips (frames : List (Text × Text)) (s : Text) : Prop where
  whole : Reads readUDPReply s frames .EOF
  truncated : ∀ q, q <+: s →
    ∃ e, Reads readUDPReply q (frames.take (Framing.whole frameBytes frames q.length)) e

variable {a s q addr payload : Text} {n : Nat} {frames : List (Text × Text)}

theorem ioReadFull_append (h : a.length = n) : ioReadFull n (a ++ s) = .ok (a, s) := by
  subst h
  unfold ioReadFull
  by_cases ha : a = []
  · subst ha
    rfl
  · have hpos := List.length_pos_of_ne_nil ha
    rw [if_neg (by omega), if_neg (by simp [ha]), if_neg (by simp), List.take_left, List.drop_left]

theorem ioReadFull_short (h : s.length < n) : ∃ e, ioReadFull n s = .error e := by
  unfold ioReadFull
  rw [if_neg (by omega)]
  rw [if_pos h]
  split
  · exact ⟨_, rfl⟩
  · exact ⟨_, rfl⟩

/-- The reader after the header of a frame. -/
theorem readUDPReply_head (s : Text) : readUDPReply (putUint16 addr.length ++
    putUint16 payload.length ++ s) =
      match ioReadFull (addr.length % 65536) s with
      | .error e => .error e
      | .ok (addrRaw, s) =>
        match ioReadFull (payload.length % 65536) s with
        | .error e => .error e
        | .ok (data, s) => .ok ((addrRaw, data), s) := by
  have h4 : ioReadFull 4 (putUint16 addr.length ++ putUint16 payload.length ++ s) = .ok (_, s) :=
    ioReadFull_append rfl
  unfold readUDPReply
  rw [h4]
  simp only [putUint16, List.cons_append, List.nil_append, List.getD_cons_zero,
    List.getD_cons_succ, be16_ofNat]

/-- What the reader makes of a frame, whatever the length of its payload. -/
theorem readUDPReply_frame (ha : addr.length ≤ 65535) (s : Text) :
    readUDPReply (replyBytes addr payload ++ s) =
      .ok ((addr, payload.take (payload.length % 65536)),
        payload.drop (payload.length % 65536) ++ s) := by
  have haddr : ioReadFull (addr.length % 65536) (addr ++ (payload ++ s)) = .ok (addr, payload ++ s) :=
    ioReadFull_append (Nat.mod_eq_of_lt (by omega)).symm
  have hdata : ioReadFull (payload.length % 65536) (payload ++ s) =
      .ok (payload.take (payload.length % 65536),
        payload.drop (payload.length % 65536) ++ s) := by
    conv_lhs => rw [← List.take_append_drop (payload.length % 65536) payload, List.append_assoc]
    have hle : payload.length % 65536 ≤ payload.length := Nat.mod_le _ _
    exact ioReadFull_append (by rw [List.take_append_drop, List.length_take, Nat.min_eq_left hle])
  rw [replyBytes, List.append_assoc, List.append_assoc, readUDPReply_head, haddr]
  simp only [hdata]

theorem readUDPReply_nil : readUDPReply [] = .error .EOF := rfl

/-- A frame whose lengths both fit is read back, and no part of it is. -/
theorem framed_reply (ha : addr.length ≤ 65535) (hp : payload.length ≤ 65535) :
    Framed frameBytes readUDPReply (addr, payload) where
  read_append s := by
    have hmod : payload.length % 65536 = payload.length := Nat.mod_eq_of_lt (by omega)
    rw [frameBytes, readUDPReply_frame ha, hmod, List.take_length, List.drop_length,
      List.nil_append]
  truncated q hq hne := by
    have hlen : q.length < (replyBytes addr payload).length := by
      refine lt_of_le_of_ne hq.length_le fun he => hne (hq.eq_of_length he)
    simp only [replyBytes, putUint16, List.length_append, List.length_cons, List.length_nil]
      at hlen
    by_cases h4 : q.length < 4
    · obtain ⟨e, he⟩ := ioReadFull_short h4
      exact ⟨e, by rw [readUDPReply, he]⟩
    · -- the header is there, so a field is cut off
      have hhead : putUint16 addr.length ++ putUint16 payload.length <+: q := by
        refine List.prefix_of_prefix_length_le ?_ hq (by simp [putUint16]; omega)
        rw [frameBytes, replyBytes, List.append_assoc]
        exact List.prefix_append _ _
      obtain ⟨r, rfl⟩ := hhead
      have hfields : r <+: addr ++ payload := by
        refine (List.prefix_append_right_inj (putUint16 addr.length ++
          putUint16 payload.length)).mp ?_
        rwa [← List.append_assoc _ addr payload]
      rw [readUDPReply_head, Nat.mod_eq_of_lt (by omega), Nat.mod_eq_of_lt (by omega)]
      simp only [putUint16, List.length_append, List.length_cons, List.length_nil] at hlen
      by_cases hr : r.length < addr.length
      · obtain ⟨e, he⟩ := ioReadFull_short hr
        exact ⟨e, by rw [he]⟩
      · have haddr : addr <+: r :=
          List.prefix_of_prefix_length_le (List.prefix_append _ _) hfields (by omega)
        obtain ⟨d, rfl⟩ := haddr
        rw [ioReadFull_append rfl]
        rw [List.length_append] at hlen
        obtain ⟨e, he⟩ := ioReadFull_short (s := d) (n := payload.length) (by omega)
        exact ⟨e, by simp only [he]⟩

theorem writeUDPReplies_ok (h : writeUDPReplies frames = .ok s) :
    s = frames.flatMap frameBytes ∧ ∀ f ∈ frames, f.1.length ≤ 65535 := by
  induction frames generalizing s with
  | nil =>
    cases h
    exact ⟨rfl, by simp⟩
  | cons f fs ih =>
    unfold writeUDPReplies at h
    split at h
    · cases h
    · rename_i b hb
      unfold writeUDPReply at hb
      split at hb
      · cases hb
      · cases hb
        split at h
        · cases h
        · rename_i t ht
          cases h
          obtain ⟨rfl, hall⟩ := ih ht
          refine ⟨by rw [List.flatMap_cons], ?_⟩
          intro g hg
          rcases List.mem_cons.mp hg with rfl | hg
          · omega
          · exact hall g hg

/-- Frames that read back as written have payloads that fit. -/
theorem payload_of_reads {bs : List (Text × Text)} {e : ReadError}
    (ha : ∀ f ∈ frames, f.1.length ≤ 65535)
    (h : Reads readUDPReply (frames.flatMap frameBytes ++ s) (frames ++ bs) e) :
    ∀ f ∈ frames, f.2.length ≤ 65535 := by
  induction frames with
  | nil => simp
  | cons f fs ih =>
    rw [List.flatMap_cons, List.append_assoc, List.cons_append] at h
    obtain ⟨t, ht, hr⟩ := h.head
    rw [frameBytes, readUDPReply_frame (ha f List.mem_cons_self)] at ht
    obtain ⟨hf, ht⟩ := Prod.mk.inj (Except.ok.inj ht)
    have hdata : (f.2.take (f.2.length % 65536)).length = f.2.length :=
      congrArg (fun g => g.2.length) hf
    rw [List.length_take, Nat.min_eq_left (Nat.mod_le _ _)] at hdata
    have hlt : f.2.length % 65536 < 65536 := Nat.mod_lt _ (by omega)
    rw [hdata, List.drop_length, List.nil_append] at ht
    subst ht
    intro g hg
    rcases List.mem_cons.mp hg with rfl | hg
    · omega
    · exact ih (fun x hx => ha x (List.mem_cons_of_mem f hx)) hr g hg

theorem replies_round_trip_iff (h : writeUDPReplies frames = .ok s) :
    RoundTrips frames s ↔ ∀ f ∈ frames, f.2.length ≤ 65535 := by
  obtain ⟨rfl, ha⟩ := writeUDPReplies_ok h
  constructor
  · intro hr
    have hreads : Reads readUDPReply (frames.flatMap frameBytes ++ []) (frames ++ []) .EOF := by
      simpa using hr.whole
    exact payload_of_reads ha hreads
  · intro hp
    have hframed : ∀ f ∈ frames, Framed frameBytes readUDPReply f := fun f hf =>
      framed_reply (ha f hf) (hp f hf)
    exact ⟨reads_all hframed readUDPReply_nil, fun q hq => reads_prefix hframed readUDPReply_nil hq⟩

theorem replies_round_trip_iff_empty : RoundTrips [([0x61], []), ([], [1, 2])]
    [0, 1, 0, 0, 0x61, 0, 0, 0, 2, 1, 2] ↔
      ∀ f ∈ [(([0x61] : Text), ([] : Text)), ([], [1, 2])], f.2.length ≤ 65535 :=
  replies_round_trip_iff (by decide)

/-- A payload of 65536 bytes is announced as empty: its bytes are read as frames. -/
theorem large_payload_desynchronises : ∃ s,
    writeUDPReplies [([], List.replicate 65536 0)] = .ok s ∧
      ¬ RoundTrips [([], List.replicate 65536 0)] s := by
  refine ⟨replyBytes [] (List.replicate 65536 0) ++ [], rfl, ?_⟩
  rw [replies_round_trip_iff rfl]
  intro h
  have hle := h _ List.mem_cons_self
  rw [List.length_replicate] at hle
  omega

end XTunnel.Udp
