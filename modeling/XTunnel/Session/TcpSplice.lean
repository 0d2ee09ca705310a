import XTunnel.Session.RingBuffer

/-! `tcp_splice_b` in the splice loop of a TCP session: what reaches lwIP of the bytes that were read
from the SOCKS5 socket. -/
namespace XTunnel.TcpSplice

open Net XTunnel.Ring

/-- What `readv` yields: bytes, `EAGAIN`, or the end of the stream or an error. -/
inductive Readv
  | data (xs : Text)
  | again
  | closed

def Readv.res : Readv → Int
  | .data _ => 1
  | .again => 0
  | .closed => -1

/-- Where the task stands. Behind its read `tcp_splice_b` waits for the lock, with its `res`. -/
inductive Pc
  | looping
  | locking (res : Int)
  | left

/-- `writes` are the calls of `tcp_write`, each with its block and whether it was queued. -/
structure State where
  ring : Ring.State
  pc : Pc
  res_b : Int
  pcb : Bool
  writes : List (Text × Bool)

/-- The bytes that lwIP has queued. -/
def State.queued (s : State) : Text := s.writes.flatMap fun w => if w.2 then w.1 else []

/-- The blocks that `reading` offers. -/
def blocks (buf : HevRingBuffer) : List Text :=
  (hev_ring_buffer_reading buf).map fun v => gather buf.data (cells [v])

inductive Action
  | full
  | readv (r : Readv)
  | write (oks : List Bool) (output : Bool)
  | nothing
  | noPcb
  | sent (len : Nat)
  | err
  | leave

/-- A call of `tcp_splice_b` is a read and then, with the lock, the writes; only `tcp_sent_handler`
and `tcp_err_handler` run between the two. -/
inductive Step : State → Action → State → Prop
  | full {s : State} : s.pc = .looping → 0 ≤ s.res_b → hev_ring_buffer_writing s.ring.buf = [] →
      Step s .full { s with pc := .locking 1 }
  | readv {s : State} {r : Readv} {ring : Ring.State} : s.pc = .looping → 0 ≤ s.res_b →
      hev_ring_buffer_writing s.ring.buf ≠ [] →
      (match r with
        | .data xs => xs ≠ [] ∧ Ring.Step s.ring (.write xs) ring
        | .again | .closed => ring = s.ring) →
      Step s (.readv r) { s with ring := ring, pc := .locking r.res }
  | write {s : State} {res : Int} {oks : List Bool} {output : Bool} {ring : Ring.State} :
      s.pc = .locking res → s.pcb = true → hev_ring_buffer_reading s.ring.buf ≠ [] →
      oks.length = (hev_ring_buffer_reading s.ring.buf).length →
      Ring.Step s.ring (.read (totalLen (hev_ring_buffer_reading s.ring.buf))) ring →
      Step s (.write oks output)
        { s with
          ring := ring
          pc := .looping
          res_b := if oks.all id && output then 1 else -1
          writes := s.writes ++ (blocks s.ring.buf).zip oks }
  | nothing {s : State} {res : Int} : s.pc = .locking res → s.pcb = true →
      hev_ring_buffer_reading s.ring.buf = [] →
      Step s .nothing { s with pc := .looping, res_b := res }
  | noPcb {s : State} {res : Int} : s.pc = .locking res → s.pcb = false →
      Step s .noPcb { s with pc := .looping, res_b := -1 }
  | sent {s : State} {len : Nat} {ring : Ring.State} : s.pcb = true →
      len ≤ s.queued.length - s.ring.released → Ring.Step s.ring (.release len) ring →
      Step s (.sent len) { s with ring := ring }
  | err {s : State} : Step s .err { s with pcb := false }
  | leave {s : State} : s.pc = .looping → Step s .leave { s with pc := .left }

/-- The start of `hev_socks5_session_tcp_splice`, with a buffer of `max` bytes. -/
def Initial (max : Nat) (s : State) : Prop :=
  Ring.Initial max s.ring ∧ s.pc = .looping ∧ s.res_b = 1 ∧ s.pcb = true ∧ s.writes = []

/-- No write of the call succeeds behind one that failed. -/
def Action.Ordered : Action → Prop
  | .write oks _ => oks.Pairwise fun ok ok' => ok' = true → ok = true
  | _ => True

/-- What is queued begins the bytes that were read from the socket, and nothing is queued behind a
write that failed. -/
structure Unaltered (s : State) : Prop where
  queued : s.queued <+: s.ring.written
  order : s.writes.Pairwise fun w w' => w'.2 = true → w.2 = true

/-- The blocks are all that was handed out. Where one failed, no call follows. -/
structure Inv (max : Nat) (s : State) : Prop where
  ring : Reachable (Ring.Initial max) Ring.Step s.ring
  handed : s.writes.flatMap Prod.fst = s.ring.handed
  order : s.writes.Pairwise fun w w' => w'.2 = true → w.2 = true
  failed : ∀ w ∈ s.writes, w.2 = false → s.res_b < 0 ∧ ∀ res, s.pc ≠ .locking res

variable {s t : State} {a : Action} {max : Nat} {buf : HevRingBuffer} {oks : List Bool}

theorem flatten_blocks (buf : HevRingBuffer) :
    (blocks buf).flatten = gather buf.data (cells (hev_ring_buffer_reading buf)) := by
  unfold blocks
  induction hev_ring_buffer_reading buf with
  | nil => rfl
  | cons v iov ih =>
    have hcells : cells (v :: iov) = cells [v] ++ cells iov := by simp [cells]
    rw [List.map_cons, List.flatten_cons, ih, hcells, gather, gather, gather, List.filterMap_append]

theorem zip_blocks (h : oks.length = (hev_ring_buffer_reading buf).length) :
    ((blocks buf).zip oks).flatMap Prod.fst =
      (gather buf.data (cells (hev_ring_buffer_reading buf))).take
        (totalLen (hev_ring_buffer_reading buf)) := by
  have hlen : (blocks buf).length ≤ oks.length := by
    rw [blocks, List.length_map, h]
  have hall : (gather buf.data (cells (hev_ring_buffer_reading buf))).length ≤
      totalLen (hev_ring_buffer_reading buf) := by
    rw [← length_cells]
    exact List.length_filterMap_le _ _
  rw [List.take_of_length_le hall, ← flatten_blocks, List.flatMap_def, List.map_fst_zip hlen]

/-- The writes of a call come from its outcomes. -/
theorem zip_pairwise (h : oks.length = (hev_ring_buffer_reading buf).length)
    (ho : oks.Pairwise fun ok ok' => ok' = true → ok = true) :
    ((blocks buf).zip oks).Pairwise fun w w' => w'.2 = true → w.2 = true := by
  have hlen : oks.length ≤ (blocks buf).length := by
    rw [blocks, List.length_map, h]
  rw [← List.map_snd_zip hlen, List.pairwise_map] at ho
  exact ho

theorem inv_initial (h : Initial max s) : Inv max s := by
  obtain ⟨hring, hpc, hres, -, hwrites⟩ := h
  refine ⟨⟨s.ring, [], hring, .refl⟩, ?_, ?_, ?_⟩
  · obtain ⟨data, -, hr⟩ := hring
    rw [hwrites, hr]
    rfl
  · rw [hwrites]
    exact .nil
  · intro w hw
    rw [hwrites] at hw
    cases hw

theorem Inv.running (h : Inv max s) (hres : 0 ≤ s.res_b) : ∀ w ∈ s.writes, w.2 = true := by
  intro w hw
  by_cases hf : w.2 = true
  · exact hf
  · have hneg := (h.failed w hw (Bool.not_eq_true _ ▸ hf)).1
    omega

theorem Inv.locked (h : Inv max s) {res : Int} (hpc : s.pc = .locking res) :
    ∀ w ∈ s.writes, w.2 = true := by
  intro w hw
  by_cases hf : w.2 = true
  · exact hf
  · exact absurd hpc ((h.failed w hw (Bool.not_eq_true _ ▸ hf)).2 res)

/-- A step that leaves the writes alone, where the ring still hands out what it did. -/
theorem Inv.quiet (h : Inv max s) (hwrites : t.writes = s.writes)
    (hring : Reachable (Ring.Initial max) Ring.Step t.ring)
    (hhanded : t.ring.handed = s.ring.handed)
    (hfailed : ∀ w ∈ s.writes, w.2 = false → t.res_b < 0 ∧ ∀ res, t.pc ≠ .locking res) :
    Inv max t := by
  refine ⟨hring, ?_, ?_, ?_⟩
  · rw [hwrites, hhanded]
    exact h.handed
  · rw [hwrites]
    exact h.order
  · rw [hwrites]
    exact hfailed

/-- The first half of a call starts while every write so far was queued. -/
theorem Inv.start (h : Inv max s) (hres : 0 ≤ s.res_b) (hwrites : t.writes = s.writes)
    (hring : Reachable (Ring.Initial max) Ring.Step t.ring)
    (hhanded : t.ring.handed = s.ring.handed) : Inv max t := by
  refine h.quiet hwrites hring hhanded fun w hw hf => ?_
  rw [h.running hres w hw] at hf
  cases hf

/-- The second half ends, without a write, while every write so far was queued. -/
theorem Inv.unlock (h : Inv max s) {res : Int} (hpc : s.pc = .locking res)
    (hwrites : t.writes = s.writes) (hring : t.ring = s.ring) : Inv max t := by
  refine h.quiet hwrites (hring ▸ h.ring) (congrArg _ hring) fun w hw hf => ?_
  rw [h.locked hpc w hw] at hf
  cases hf

theorem inv_write {res : Int} {output : Bool} {ring : Ring.State} (hs : Inv max s)
    (hpc : s.pc = .locking res) (hlen : oks.length = (hev_ring_buffer_reading s.ring.buf).length)
    (hread : Ring.Step s.ring (.read (totalLen (hev_ring_buffer_reading s.ring.buf))) ring)
    (ho : oks.Pairwise fun ok ok' => ok' = true → ok = true) :
    Inv max { s with
      ring := ring
      pc := .looping
      res_b := if oks.all id && output then 1 else -1
      writes := s.writes ++ (blocks s.ring.buf).zip oks } := by
  have hold := hs.locked hpc
  refine ⟨hs.ring.step hread, ?_, ?_, ?_⟩
  · cases hread with
    | read _ _ => rw [List.flatMap_append, hs.handed, zip_blocks hlen]
  · refine List.pairwise_append.mpr ⟨hs.order, zip_pairwise hlen ho, ?_⟩
    intro w hw _ _ _
    exact hold w hw
  · intro w hw hf
    rcases List.mem_append.mp hw with hw | hw
    · rw [hold w hw] at hf
      cases hf
    · -- the write that failed is one of this call, which is the last one
      have hok : w.2 ∈ oks := (List.of_mem_zip hw).2
      have hall : oks.all id = false := by
        rw [List.all_eq_false]
        exact ⟨w.2, hok, by simp [hf]⟩
      refine ⟨?_, fun _ h => by cases h⟩
      simp [hall]

/-- A call starts and goes on only while every write so far was queued. -/
theorem inv_step (h : Step s a t) (ho : a.Ordered) (hs : Inv max s) : Inv max t := by
  cases h with
  | full hpc hres hfull => exact hs.start hres rfl hs.ring rfl
  | readv hpc hres hroom hr =>
    rename_i r ring
    cases r with
    | data xs =>
      obtain ⟨-, hw⟩ := hr
      refine hs.start hres rfl (hs.ring.step hw) ?_
      cases hw
      rfl
    | again | closed =>
      subst hr
      exact hs.start hres rfl hs.ring rfl
  | write hpc _ _ hlen hread => exact inv_write hs hpc hlen hread ho
  | nothing hpc => exact hs.unlock hpc rfl rfl
  | noPcb hpc => exact hs.unlock hpc rfl rfl
  | sent hpcb hlen hr =>
    refine hs.quiet rfl (hs.ring.step hr) ?_ hs.failed
    cases hr
    rfl
  | err => exact hs.quiet rfl hs.ring rfl hs.failed
  | leave hpc =>
    exact hs.quiet rfl hs.ring rfl fun w hw hf => ⟨(hs.failed w hw hf).1, fun _ h => by cases h⟩

/-- What was queued up to the first failure begins the blocks. -/
theorem prefix_of_ordered {writes : List (Text × Bool)}
    (h : writes.Pairwise fun w w' => w'.2 = true → w.2 = true) :
    (writes.flatMap fun w => if w.2 then w.1 else []) <+: writes.flatMap Prod.fst := by
  induction writes with
  | nil => exact List.prefix_rfl
  | cons w writes ih =>
    obtain ⟨hw, htail⟩ := List.pairwise_cons.mp h
    rw [List.flatMap_cons, List.flatMap_cons]
    by_cases hok : w.2 = true
    · rw [if_pos hok]
      exact (List.prefix_append_right_inj w.1).mpr (ih htail)
    · have hnone : (writes.flatMap fun w => if w.2 then w.1 else []) = [] := by
        rw [List.flatMap_eq_nil_iff]
        intro w' hw'
        rw [if_neg fun hok' => hok (hw w' hw' hok')]
      rw [if_neg hok, hnone]
      exact List.nil_prefix

theorem Inv.unaltered (h : Inv max s) : Unaltered s := by
  refine ⟨?_, h.order⟩
  have hfifo := (ring_buffer_fifo h.ring).fifo
  have hhanded : s.ring.handed <+: s.ring.written := ⟨_, hfifo⟩
  rw [← h.handed] at hhanded
  exact (prefix_of_ordered h.order).trans hhanded

/-- In every run without a write that succeeds behind a failed one of the same call, the application
gets the bytes of the socket unaltered, in every state. -/
theorem unaltered_of_ordered
    (h : Reachable (Initial max) (Guarded Step fun _ a => a.Ordered) s) : Unaltered s := by
  have hinv : Inv max s := h.invariant (fun _ _ _ hst hs => inv_step hst.2 hst.1 hs)
    fun _ h => inv_initial h
  exact hinv.unaltered

/-- The start with a buffer of three bytes. -/
def three : State :=
  ⟨⟨hev_ring_buffer_alloca 3 [0, 0, 0], [], [], [], 0⟩, .looping, 1, true, []⟩

theorem three_initial : Initial 3 three := ⟨⟨[0, 0, 0], rfl, rfl⟩, rfl, rfl, rfl, rfl⟩

theorem ordered_step (h : Step s a t) (ho : a.Ordered) :
    Guarded Step (fun _ a => a.Ordered) s a t := ⟨ho, h⟩

/-- Two bytes are queued and the first of them is acknowledged, then two bytes are read across the
end of the buffer. -/
theorem three_wraps :
    ∃ s, Reachable (Initial 3) (Guarded Step fun _ a => a.Ordered) s ∧ s.pc = .locking 1 ∧
      s.pcb = true ∧ s.writes = [([1, 2], true)] ∧ blocks s.ring.buf = [[3], [4]] ∧
      hev_ring_buffer_reading s.ring.buf = [⟨2, 1⟩, ⟨0, 1⟩] ∧ 0 < s.ring.buf.max_size := by
  have h0 : Reachable (Initial 3) (Guarded Step fun _ a => a.Ordered) three :=
    ⟨three, [], three_initial, .refl⟩
  have h1 := h0.step (ordered_step (@Step.readv _ (.data [1, 2]) _ rfl (by decide) (by decide)
    ⟨by decide, .write (by decide) (by decide)⟩) trivial)
  have h2 := h1.step (ordered_step (@Step.write _ _ [true] true _ rfl rfl (by decide) rfl
    (.read (by decide) (by decide))) (List.pairwise_singleton _ true))
  have h3 := h2.step (ordered_step (@Step.sent _ 1 _ rfl (by decide) (.release (by decide))) trivial)
  have h4 := h3.step (ordered_step (@Step.readv _ (.data [3, 4]) _ rfl (by decide) (by decide)
    ⟨by decide, .write (by decide) (by decide)⟩) trivial)
  exact ⟨_, h4, rfl, rfl, rfl, rfl, rfl, by decide⟩

/-- Both blocks of a wrapped buffer are queued. -/
theorem unaltered_wrapped : ∃ s, s.queued = [1, 2, 3, 4] ∧ Unaltered s := by
  obtain ⟨s, hs, hpc, hpcb, hwrites, hblocks, hread, hpos⟩ := three_wraps
  have h := hs.step (ordered_step (@Step.write _ _ [true, true] true _ hpc hpcb
    (by rw [hread]; decide) (by rw [hread]; rfl) (.read hpos (Nat.le_refl _)))
    (by rw [Action.Ordered]; decide))
  refine ⟨_, ?_, unaltered_of_ordered h⟩
  rw [State.queued, hwrites, hblocks]
  rfl

/-- The second block is queued where the first one was not. -/
theorem later_block_queued : ¬ ∀ max s, Reachable (Initial max) Step s → Unaltered s := by
  intro hall
  obtain ⟨s, ⟨s₀, xs, h0, hrun⟩, hpc, hpcb, hwrites, hblocks, hread, hpos⟩ := three_wraps
  have hs : Reachable (Initial 3) Step s := ⟨s₀, xs, h0, hrun.of_guarded⟩
  have h := hs.step (@Step.write _ _ [false, true] true _ hpc hpcb (by rw [hread]; decide)
    (by rw [hread]; rfl) (.read hpos (Nat.le_refl _)))
  have horder := (hall 3 _ h).order
  rw [hwrites, hblocks] at horder
  dsimp only at horder
  revert horder
  decide

end XTunnel.TcpSplice
