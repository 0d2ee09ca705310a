import XTunnel.Fragments
import XTunnel.Udp.Reply

/-! The chunks of the uplink, written on a tunnel stream and read from its pieces. -/
namespace XTunnel.Udp

open Net Socks5 Framing Fragments

/-- `io.ReadFull` into `n` zero bytes, from a reader that hands out its bytes in pieces: the buffer,
the error and what is left to read. -/
def ioReadFullFrom (n : Nat) (r : Arrivals UInt8) : Text × Option ReadError × Arrivals UInt8 :=
  let (b, r) := takeAll n r
  (b ++ List.replicate (n - b.length) 0,
    if n ≤ b.length then none else if b = [] then some .EOF else some .ErrUnexpectedEOF, r)

/-- The bytes that are written to `w` after one call, and its error. The writer takes every write. -/
def writeChunk (w b : Text) : Text × Option String :=
  if b.length > 65535 then (w, some "数据块过大")
  else
    let w := w ++ putUint16 b.length
    if b.length = 0 then (w, none) else (w ++ b, none)

/-- The slice, which is `none` for nil, and the error of one call, and what is left to read. -/
def readChunk (r : Arrivals UInt8) : Option Text × Option ReadError × Arrivals UInt8 :=
  match ioReadFullFrom 2 r with
  | (_, some e, r) => (none, some e, r)
  | (h, none, r) =>
    let n := be16 (h.getD 0 0) (h.getD 1 0)
    if n = 0 then (none, none, r)
    else
      let (b, err, r) := ioReadFullFrom n r
      (some b, err, r)

/-- What one call of `writeChunk` after the other has written. -/
def writeChunks : Text → List Text → Text
  | w, [] => w
  | w, b :: bs => writeChunks (writeChunk w b).1 bs

/-- Repeated calls of `readChunk` return `bs` without an error and then the error `e`. -/
inductive ReadsChunks : Arrivals UInt8 → List (Option Text) → ReadError → Prop
  | stop {r : Arrivals UInt8} {e : ReadError} : (readChunk r).2.1 = some e → ReadsChunks r [] e
  | more {r r' : Arrivals UInt8} {b : Option Text} {bs : List (Option Text)} {e : ReadError} :
      readChunk r = (b, none, r') → ReadsChunks r' bs e → ReadsChunks r (b :: bs) e

/-- The strings that fit into a chunk. -/
def accepted (bs : List Text) : List Text := bs.filter (·.length ≤ 65535)

/-- A byte string as a slice that comes out of a chunk: nil when it is empty. -/
def asSlice (b : Text) : Option Text := if b = [] then none else some b

/-- The chunk of a slice. -/
def chunkBytes (b : Option Text) : Text := putUint16 (b.getD []).length ++ b.getD []

/-- Repeated reads return the accepted strings in order and then an error; over a proper prefix of
the output they return those that lie wholly in it and then an error. -/
structure ChunksRoundTrip (bs : List Text) : Prop where
  whole : ∀ r, contents r = writeChunks [] bs → ReadsChunks r ((accepted bs).map asSlice) .EOF
  truncated : ∀ r, contents r <+: writeChunks [] bs → ∃ e, ReadsChunks r
    (((accepted bs).map asSlice).take
      (Framing.whole chunkBytes ((accepted bs).map asSlice) (contents r).length)) e

/-- What `readChunk` makes of the bytes that are left, if they are all there. -/
def chunkAt (s : Text) : Except ReadError (Option Text × Text) :=
  match ioReadFull 2 s with
  | .error e => .error e
  | .ok (h, s) =>
    let n := be16 (h.getD 0 0) (h.getD 1 0)
    if n = 0 then .ok (none, s)
    else
      match ioReadFull n s with
      | .error e => .error e
      | .ok (b, s) => .ok (some b, s)

variable {r r' : Arrivals UInt8} {b s w : Text} {n : Nat} {e : ReadError} {c : Option Text}
  {bs : List Text} {cs : List (Option Text)}

theorem ioReadFullFrom_ok (h : ioReadFull n (contents r) = .ok (b, s)) :
    ∃ r', ioReadFullFrom n r = (b, none, r') ∧ contents r' = s := by
  have hlen : (takeAll n r).1 = (contents r).take n := takeAll_fst
  have hrest : contents (takeAll n r).2 = (contents r).drop n := contents_takeAll
  have hok : n ≤ (contents r).length ∧ b = (contents r).take n ∧ s = (contents r).drop n := by
    unfold ioReadFull at h
    split at h
    · cases h
      rename_i hn
      subst hn
      exact ⟨Nat.zero_le _, rfl, rfl⟩
    · split at h
      · cases h
      · split at h
        · cases h
        · cases h
          exact ⟨by omega, rfl, rfl⟩
  obtain ⟨hn, rfl, rfl⟩ := hok
  refine ⟨(takeAll n r).2, ?_, hrest⟩
  rw [ioReadFullFrom]
  simp only [hlen, List.length_take, Nat.min_eq_left hn, Nat.sub_self, List.replicate_zero,
    List.append_nil, le_refl, if_true]

theorem ioReadFullFrom_error (h : ioReadFull n (contents r) = .error e) :
    (ioReadFullFrom n r).2.1 = some e := by
  have hlen : (takeAll n r).1 = (contents r).take n := takeAll_fst
  unfold ioReadFull at h
  split at h
  · cases h
  · rename_i hn
    have hempty : (contents r).take n = [] ↔ contents r = [] := by
      rw [List.take_eq_nil_iff, or_iff_right hn]
    split at h
    · rename_i hnil
      cases h
      simp only [ioReadFullFrom, hlen, hnil, List.take_nil, List.length_nil, if_true]
      rw [if_neg (by omega)]
    · rename_i hnil
      split at h
      · cases h
        simp only [ioReadFullFrom, hlen, List.length_take, hempty]
        rw [if_neg (by omega), if_neg hnil]
      · cases h

theorem readChunk_ok (h : chunkAt (contents r) = .ok (c, s)) :
    ∃ r', readChunk r = (c, none, r') ∧ contents r' = s := by
  unfold chunkAt at h
  split at h
  · cases h
  · rename_i head s₁ h₁
    obtain ⟨r₁, hr₁, rfl⟩ := ioReadFullFrom_ok h₁
    rw [readChunk, hr₁]
    simp only at h ⊢
    split at h
    · rename_i hn
      cases h
      exact ⟨r₁, if_pos hn, rfl⟩
    · rename_i hn
      split at h
      · cases h
      · rename_i b s₂ h₂
        cases h
        obtain ⟨r₂, hr₂, rfl⟩ := ioReadFullFrom_ok h₂
        refine ⟨r₂, ?_, rfl⟩
        rw [if_neg hn, hr₂]

theorem readChunk_error (h : chunkAt (contents r) = .error e) : (readChunk r).2.1 = some e := by
  unfold chunkAt at h
  split at h
  · rename_i e' h₁
    cases h
    have he := ioReadFullFrom_error h₁
    obtain ⟨b, err, r₁, hr⟩ : ∃ b err r₁, ioReadFullFrom 2 r = (b, err, r₁) := ⟨_, _, _, rfl⟩
    rw [hr] at he
    subst he
    rw [readChunk, hr]
  · rename_i head s₁ h₁
    obtain ⟨r₁, hr₁, rfl⟩ := ioReadFullFrom_ok h₁
    rw [readChunk, hr₁]
    simp only at h ⊢
    split at h
    · cases h
    · rename_i hn
      split at h
      · rename_i e' h₂
        cases h
        rw [if_neg hn]
        exact ioReadFullFrom_error h₂
      · cases h

/-- The pieces make no difference: what the bytes yield, every reader of them yields. -/
theorem readsChunks_of_reads (h : Reads chunkAt s cs e) (hr : contents r = s) :
    ReadsChunks r cs e := by
  induction h generalizing r with
  | stop hs =>
    subst hr
    exact .stop (readChunk_error hs)
  | more hs _ ih =>
    subst hr
    obtain ⟨r', hr', hc⟩ := readChunk_ok hs
    exact .more hr' (ih hc)

/-- The reader after the two bytes of a length. -/
theorem chunkAt_head (hb : b.length ≤ 65535) (hne : b ≠ []) (s : Text) :
    chunkAt (putUint16 b.length ++ s) =
      match ioReadFull b.length s with
      | .error e => .error e
      | .ok (b, s) => .ok (some b, s) := by
  have h2 : ioReadFull 2 (putUint16 b.length ++ s) = .ok (putUint16 b.length, s) :=
    ioReadFull_append rfl
  have hpos := List.length_pos_of_ne_nil hne
  have hn : be16 (UInt8.ofNat (b.length / 256)) (UInt8.ofNat b.length) = b.length := by
    rw [be16_ofNat, Nat.mod_eq_of_lt (by omega)]
  unfold chunkAt
  rw [h2]
  simp only [putUint16, List.getD_cons_zero, List.getD_cons_succ, hn]
  rw [if_neg (by omega)]

/-- The chunk of an accepted string is read back, and no part of it is. -/
theorem framed_chunk (hb : b.length ≤ 65535) : Framed chunkBytes chunkAt (asSlice b) := by
  by_cases hne : b = []
  · subst hne
    refine ⟨fun s => ?_, fun q hq hqe => ?_⟩
    · have h2 : ioReadFull 2 ([0, 0] ++ s) = .ok ([0, 0], s) := ioReadFull_append rfl
      have hc : chunkBytes (asSlice []) = [0, 0] := rfl
      have hn : be16 0 0 = 0 := by decide
      rw [hc, chunkAt, h2]
      simp only [List.getD_cons_zero, List.getD_cons_succ, hn, if_true]
      rfl
    · have hlt : q.length < (chunkBytes (asSlice [])).length :=
        lt_of_le_of_ne hq.length_le fun he => hqe (hq.eq_of_length he)
      obtain ⟨e, he⟩ := ioReadFull_short (n := 2) hlt
      exact ⟨e, by rw [chunkAt, he]⟩
  · have hs : asSlice b = some b := if_neg hne
    have hc : chunkBytes (some b) = putUint16 b.length ++ b := rfl
    rw [hs]
    refine ⟨fun s => ?_, fun q hq hqe => ?_⟩
    · rw [hc, List.append_assoc, chunkAt_head hb hne, ioReadFull_append rfl]
    · have hlt : q.length < (chunkBytes (some b)).length :=
        lt_of_le_of_ne hq.length_le fun he => hqe (hq.eq_of_length he)
      rw [hc] at hq hlt
      by_cases h2 : q.length < 2
      · obtain ⟨e, he⟩ := ioReadFull_short h2
        exact ⟨e, by rw [chunkAt, he]⟩
      · -- the length is there, so the data is cut off
        have hhead : putUint16 b.length <+: q :=
          List.prefix_of_prefix_length_le (List.prefix_append _ _) hq (by simp [putUint16]; omega)
        obtain ⟨d, rfl⟩ := hhead
        rw [List.length_append, List.length_append] at hlt
        obtain ⟨e, he⟩ := ioReadFull_short (s := d) (n := b.length) (by omega)
        exact ⟨e, by rw [chunkAt_head hb hne, he]⟩

theorem writeChunk_rejects : (writeChunk w b).2 ≠ none ↔ 65535 < b.length := by
  unfold writeChunk
  split
  · rename_i h
    exact ⟨fun _ => h, fun _ => by simp⟩
  · rename_i h
    refine ⟨fun hne => absurd ?_ hne, fun hlt => absurd hlt h⟩
    dsimp only
    split <;> rfl

theorem writeChunk_accepts (h : b.length ≤ 65535) :
    writeChunk w b = (w ++ chunkBytes (asSlice b), none) := by
  unfold writeChunk
  rw [if_neg (by omega)]
  dsimp only
  split
  · rename_i hb
    obtain rfl := List.eq_nil_of_length_eq_zero hb
    rfl
  · rename_i hb
    have hs : asSlice b = some b := if_neg fun he => hb (by rw [he, List.length_nil])
    rw [hs, List.append_assoc]
    rfl

theorem writeChunk_skips (h : 65535 < b.length) : (writeChunk w b).1 = w := by
  rw [writeChunk, if_pos h]

/-- The output is made of the chunks of the accepted strings. -/
theorem writeChunks_eq :
    writeChunks w bs = w ++ ((accepted bs).map asSlice).flatMap chunkBytes := by
  induction bs generalizing w with
  | nil => simp [writeChunks, accepted]
  | cons b bs ih =>
    rw [writeChunks, ih]
    by_cases hb : b.length ≤ 65535
    · have ha : accepted (b :: bs) = b :: accepted bs := List.filter_cons_of_pos (by simpa using hb)
      rw [writeChunk_accepts hb, ha, List.map_cons, List.flatMap_cons, List.append_assoc]
    · have ha : accepted (b :: bs) = accepted bs := List.filter_cons_of_neg (by simpa using hb)
      rw [writeChunk_skips (by omega), ha]

/-- `writeChunk` turns away the strings over 65535 bytes, and the others survive every way of
splitting and cutting the stream. -/
theorem chunks_round_trip (bs : List Text) :
    (∀ w b, ((writeChunk w b).2 ≠ none ↔ 65535 < b.length) ∧
      ((writeChunk w b).2 ≠ none → (writeChunk w b).1 = w)) ∧ ChunksRoundTrip bs := by
  have hframed : ∀ c ∈ (accepted bs).map asSlice, Framed chunkBytes chunkAt c := by
    intro c hc
    obtain ⟨b, hb, rfl⟩ := List.mem_map.mp hc
    exact framed_chunk (by simpa using (List.mem_filter.mp hb).2)
  have hout : writeChunks [] bs = ((accepted bs).map asSlice).flatMap chunkBytes := writeChunks_eq
  refine ⟨fun w b => ⟨writeChunk_rejects, fun h => writeChunk_skips (writeChunk_rejects.mp h)⟩, ?_⟩
  constructor
  · intro r hr
    exact readsChunks_of_reads (reads_all hframed rfl) (hr.trans hout)
  · intro r hr
    rw [hout] at hr
    obtain ⟨e, he⟩ := reads_prefix hframed rfl hr
    exact ⟨e, readsChunks_of_reads he rfl⟩

end XTunnel.Udp
