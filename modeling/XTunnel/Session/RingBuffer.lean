import XTunnel.Circular
import XTunnel.Transition
import XTunnel.Net.Text

/-! `HevRingBuffer`, through which a TCP session hands bytes to lwIP without a copy. -/
namespace XTunnel.Ring

open Net

/-- `struct iovec`, with its base as an offset into `data`. -/
structure Iovec where
  iov_base : Nat
  iov_len : Nat
deriving DecidableEq

/-- The cells of `data` that the iovecs name, in order. -/
def cells (iov : List Iovec) : List Nat := iov.flatMap fun v => List.range' v.iov_base v.iov_len

def totalLen (iov : List Iovec) : Nat := (iov.map Iovec.iov_len).sum

structure HevRingBuffer where
  rp : Nat
  wp : Nat
  rda_size : Nat
  use_size : Nat
  max_size : Nat
  data : Text

def hev_ring_buffer_alloca (s : Nat) (data : Text) : HevRingBuffer :=
  { rp := 0, wp := 0, rda_size := 0, use_size := 0, max_size := s, data := data }

def hev_ring_buffer_reading (self : HevRingBuffer) : List Iovec :=
  if self.rda_size = 0 then []
  else
    let upper_size := self.max_size - self.rp
    if self.rda_size ≤ upper_size then [⟨self.rp, self.rda_size⟩]
    else [⟨self.rp, upper_size⟩, ⟨0, self.rda_size - upper_size⟩]

def hev_ring_buffer_read_finish (self : HevRingBuffer) (size : Nat) : HevRingBuffer :=
  { self with rp := (self.rp + size) % self.max_size, rda_size := self.rda_size - size }

def hev_ring_buffer_read_release (self : HevRingBuffer) (size : Nat) : HevRingBuffer :=
  let use_size := self.use_size - size
  if use_size = 0 then { self with use_size := use_size, rp := 0, wp := 0 }
  else { self with use_size := use_size }

def hev_ring_buffer_writing (self : HevRingBuffer) : List Iovec :=
  if self.use_size = self.max_size then []
  else
    let upper_size := self.max_size - self.wp
    let spc_size := self.max_size - self.use_size
    if spc_size ≤ upper_size then [⟨self.wp, spc_size⟩]
    else [⟨self.wp, upper_size⟩, ⟨0, spc_size - upper_size⟩]

def hev_ring_buffer_write_finish (self : HevRingBuffer) (size : Nat) : HevRingBuffer :=
  { self with
    wp := (self.wp + size) % self.max_size
    use_size := self.use_size + size
    rda_size := self.rda_size + size }

/-- A buffer with its history: the bytes that were written, the cell that each was written to, the
bytes that were read, and how many of these were released. -/
structure State where
  buf : HevRingBuffer
  written : Text
  places : List Nat
  handed : Text
  released : Nat

inductive Action
  | write (xs : Text)
  | read (size : Nat)
  | release (size : Nat)

/-- `tcp_splice_b` lets nothing run between `writing` and `write_finish`, nor between `reading` and
`read_finish`. A buffer without cells offers nothing, and nothing is finished on it. -/
inductive Step : State → Action → State → Prop
  | write {s : State} {xs : Text} :
      0 < s.buf.max_size → xs.length ≤ totalLen (hev_ring_buffer_writing s.buf) →
      Step s (.write xs)
        { s with
          buf := hev_ring_buffer_write_finish
            { s.buf with data := scatter s.buf.data (cells (hev_ring_buffer_writing s.buf)) xs }
            xs.length
          written := s.written ++ xs
          places := s.places ++ (cells (hev_ring_buffer_writing s.buf)).take xs.length }
  | read {s : State} {size : Nat} :
      0 < s.buf.max_size → size ≤ totalLen (hev_ring_buffer_reading s.buf) →
      Step s (.read size)
        { s with
          buf := hev_ring_buffer_read_finish s.buf size
          handed := s.handed ++
            (gather s.buf.data (cells (hev_ring_buffer_reading s.buf))).take size }
  | release {s : State} {size : Nat} :
      size ≤ s.handed.length - s.released →
      Step s (.release size)
        { s with
          buf := hev_ring_buffer_read_release s.buf size
          released := s.released + size }

/-- A fresh buffer, whatever its cells hold. -/
def Initial (max : Nat) (s : State) : Prop :=
  ∃ data : Text, data.length = max ∧ s = ⟨hev_ring_buffer_alloca max data, [], [], [], 0⟩

variable {s t : State} {a : Action} {b : HevRingBuffer} {size max start pos len : Nat} {xs : Text}
  {iov : List Iovec}

theorem length_cells (iov : List Iovec) : (cells iov).length = totalLen iov := by
  simp [cells, totalLen, List.length_flatMap]

/-- `len` cells from `pos` on, as one iovec or two. -/
def spans (max pos len : Nat) : List Iovec :=
  if len ≤ max - pos then [⟨pos, len⟩] else [⟨pos, max - pos⟩, ⟨0, len - (max - pos)⟩]

theorem cells_spans (hp : pos ≤ max) (hl : len ≤ max) : cells (spans max pos len) = ring max pos len := by
  unfold spans
  split
  · rw [ring_of_le (by omega)]
    simp [cells]
  · rw [ring_of_gt hp (by omega) hl]
    simp [cells]

theorem spans_inside (hp : pos ≤ max) (hl : len ≤ max) :
    ∀ v ∈ spans max pos len, v.iov_base + v.iov_len ≤ max := by
  intro v hv
  unfold spans at hv
  split at hv
  · obtain rfl := List.mem_singleton.mp hv
    show pos + len ≤ max
    omega
  · simp only [List.mem_cons, List.not_mem_nil, or_false] at hv
    rcases hv with rfl | rfl
    · show pos + (max - pos) ≤ max
      omega
    · show 0 + (len - (max - pos)) ≤ max
      omega

theorem reading_spans (h : b.rda_size ≠ 0) :
    hev_ring_buffer_reading b = spans b.max_size b.rp b.rda_size := if_neg h

theorem writing_spans (h : b.use_size ≠ b.max_size) :
    hev_ring_buffer_writing b = spans b.max_size b.wp (b.max_size - b.use_size) := if_neg h

/-- `start` is the cell of the first byte that is not released, which the buffer does not store. -/
structure Layout (s : State) (start : Nat) : Prop where
  data : s.buf.data.length = s.buf.max_size
  base : start % s.buf.max_size = start
  use : s.written.length = s.released + s.buf.use_size
  rda : s.written.length = s.handed.length + s.buf.rda_size
  order : s.released ≤ s.handed.length
  fits : s.buf.use_size ≤ s.buf.max_size
  wp : s.buf.wp = (start + s.buf.use_size) % s.buf.max_size
  rp : s.buf.rp = (start + (s.buf.use_size - s.buf.rda_size)) % s.buf.max_size
  places : s.places.length = s.written.length
  live : s.places.drop s.released = ring s.buf.max_size start s.buf.use_size
  content : (s.places.drop s.released).map (fun c => s.buf.data[c]?) =
    (s.written.drop s.released).map some
  handed : s.handed = s.written.take s.handed.length

theorem layout_initial (h : Initial max s) : Layout s 0 := by
  obtain ⟨data, rfl, rfl⟩ := h
  constructor <;> first | rfl | exact Nat.zero_mod _ | exact (Nat.zero_mod _).symm | exact Nat.zero_le _

namespace Layout

theorem rda_le (h : Layout s start) : s.buf.rda_size ≤ s.buf.use_size := by
  have hu := h.use
  have hr := h.rda
  have ho := h.order
  omega

theorem wp_le (h : Layout s start) (hpos : 0 < s.buf.max_size) : s.buf.wp ≤ s.buf.max_size := by
  rw [h.wp]
  exact (Nat.mod_lt _ hpos).le

theorem rp_le (h : Layout s start) (hpos : 0 < s.buf.max_size) : s.buf.rp ≤ s.buf.max_size := by
  rw [h.rp]
  exact (Nat.mod_lt _ hpos).le

/-- `writing` offers the cells behind the last byte. -/
theorem cells_writing (h : Layout s start) : cells (hev_ring_buffer_writing s.buf) =
    ring s.buf.max_size s.buf.wp (s.buf.max_size - s.buf.use_size) := by
  by_cases hu : s.buf.use_size = s.buf.max_size
  · rw [hev_ring_buffer_writing, if_pos hu, hu, Nat.sub_self]
    rfl
  · have hfits := h.fits
    rw [writing_spans hu, cells_spans (h.wp_le (by omega)) (Nat.sub_le _ _)]

/-- `reading` offers the cells of the bytes that were not read. -/
theorem cells_reading (h : Layout s start) : cells (hev_ring_buffer_reading s.buf) =
    (s.places.drop s.released).drop (s.buf.use_size - s.buf.rda_size) := by
  have hle := h.rda_le
  rw [h.live, drop_ring (Nat.sub_le _ _), ← h.rp, Nat.sub_sub_self hle]
  by_cases hr : s.buf.rda_size = 0
  · rw [hev_ring_buffer_reading, if_pos hr, hr]
    rfl
  · have hfits := h.fits
    rw [reading_spans hr, cells_spans (h.rp_le (by omega)) (by omega)]

/-- The bytes that `reading` offers are the ones that come next. -/
theorem gather_reading (h : Layout s start) :
    gather s.buf.data (cells (hev_ring_buffer_reading s.buf)) =
      s.written.drop s.handed.length := by
  have hnext : s.released + (s.buf.use_size - s.buf.rda_size) = s.handed.length := by
    have hu := h.use
    have hr := h.rda
    have hle := h.rda_le
    omega
  rw [h.cells_reading]
  refine gather_eq ?_
  rw [List.map_drop, h.content, ← List.map_drop, List.drop_drop, hnext]

/-- No cell on offer holds a byte that is not released. -/
theorem free (h : Layout s start) :
    (s.places.drop s.released).Disjoint (cells (hev_ring_buffer_writing s.buf)) := by
  rw [h.live, h.cells_writing, h.wp]
  have hfits := h.fits
  exact ring_disjoint (by omega)

theorem write (h : Layout s start) (hpos : 0 < s.buf.max_size)
    (hx : xs.length ≤ totalLen (hev_ring_buffer_writing s.buf)) :
    Layout { s with
      buf := hev_ring_buffer_write_finish
        { s.buf with data := scatter s.buf.data (cells (hev_ring_buffer_writing s.buf)) xs }
        xs.length
      written := s.written ++ xs
      places := s.places ++ (cells (hev_ring_buffer_writing s.buf)).take xs.length } start := by
  rw [← length_cells, h.cells_writing, length_ring] at hx
  have hfits := h.fits
  have huse := h.use
  have hrda := h.rda
  have hle := h.rda_le
  have hplaces := h.places
  have hdrop : (s.places ++ (cells (hev_ring_buffer_writing s.buf)).take xs.length).drop s.released =
      s.places.drop s.released ++ (cells (hev_ring_buffer_writing s.buf)).take xs.length :=
    List.drop_append_of_le_length (by omega)
  constructor
  · exact length_scatter.trans h.data
  · exact h.base
  · simp only [List.length_append, hev_ring_buffer_write_finish]
    omega
  · simp only [List.length_append, hev_ring_buffer_write_finish]
    omega
  · exact h.order
  · simp only [hev_ring_buffer_write_finish]
    omega
  · simp only [hev_ring_buffer_write_finish]
    rw [h.wp, Nat.mod_add_mod, Nat.add_assoc]
  · simp only [hev_ring_buffer_write_finish]
    rw [h.rp, Nat.add_sub_add_right]
  · simp only [List.length_append, List.length_take, h.cells_writing, length_ring]
    omega
  · simp only [hev_ring_buffer_write_finish]
    rw [hdrop, h.live, h.cells_writing, take_ring hx, h.wp, ring_add]
  · simp only [hev_ring_buffer_write_finish]
    rw [hdrop, List.map_append, List.drop_append_of_le_length (by omega), List.map_append]
    congr 1
    · rw [← h.content]
      refine List.map_congr_left fun c hc => ?_
      exact scatter_of_not_mem fun hm => h.free hc (List.mem_of_mem_take hm)
    · rw [h.cells_writing]
      refine scatter_get (nodup_ring (Nat.sub_le _ _)) (fun c hc => ?_) (by rw [length_ring]; exact hx)
      rw [h.data]
      exact ring_lt hpos hc
  · have hlen : s.handed.length ≤ s.written.length := by omega
    exact h.handed.trans (List.take_append_of_le_length hlen).symm

theorem read (h : Layout s start) (hx : size ≤ totalLen (hev_ring_buffer_reading s.buf)) :
    Layout { s with
      buf := hev_ring_buffer_read_finish s.buf size
      handed := s.handed ++
        (gather s.buf.data (cells (hev_ring_buffer_reading s.buf))).take size } start := by
  have huse := h.use
  have hrda := h.rda
  have hle := h.rda_le
  have horder := h.order
  have hplaces := h.places
  have hlen : (cells (hev_ring_buffer_reading s.buf)).length = s.buf.rda_size := by
    rw [h.cells_reading]
    simp only [List.length_drop]
    omega
  rw [← length_cells, hlen] at hx
  have htake : ((s.written.drop s.handed.length).take size).length = size := by
    rw [List.length_take, List.length_drop]
    omega
  rw [h.gather_reading]
  constructor
  · exact h.data
  · exact h.base
  · exact h.use
  · simp only [hev_ring_buffer_read_finish, List.length_append, htake]
    omega
  · simp only [List.length_append]
    omega
  · exact h.fits
  · exact h.wp
  · simp only [hev_ring_buffer_read_finish]
    rw [h.rp, Nat.mod_add_mod]
    congr 1
    omega
  · exact h.places
  · exact h.live
  · exact h.content
  · simp only [List.length_append, htake]
    rw [List.take_add, ← h.handed]

/-- A release moves the start, or puts it back to the first cell. -/
theorem release (h : Layout s start) (hx : size ≤ s.handed.length - s.released) :
    ∃ start', Layout { s with
      buf := hev_ring_buffer_read_release s.buf size
      released := s.released + size } start' := by
  have huse := h.use
  have hrda := h.rda
  have hle := h.rda_le
  have horder := h.order
  have hdata := h.data
  have hfits := h.fits
  have hsplit : s.buf.use_size = size + (s.buf.use_size - size) := by omega
  have hcontent : ((s.places.drop (s.released + size)).map fun c => s.buf.data[c]?) =
      (s.written.drop (s.released + size)).map some := by
    rw [← List.drop_drop, ← List.drop_drop, List.map_drop, h.content, ← List.map_drop]
  by_cases hz : s.buf.use_size - size = 0
  · have hempty : s.places.drop (s.released + size) = [] :=
      List.drop_eq_nil_of_le (by have := h.places; omega)
    refine ⟨0, ?_⟩
    rw [hev_ring_buffer_read_release, if_pos hz]
    constructor <;> dsimp only
    · exact h.data
    · exact Nat.zero_mod _
    · omega
    · exact h.rda
    · omega
    · omega
    · rw [hz, Nat.zero_mod]
    · rw [hz, Nat.zero_sub, Nat.zero_mod]
    · exact h.places
    · rw [hempty, hz]
      rfl
    · exact hcontent
    · exact h.handed
  · refine ⟨(start + size) % s.buf.max_size, ?_⟩
    rw [hev_ring_buffer_read_release, if_neg hz]
    constructor <;> dsimp only
    · exact h.data
    · exact Nat.mod_mod _ _
    · omega
    · exact h.rda
    · omega
    · omega
    · rw [h.wp, Nat.mod_add_mod, Nat.add_assoc, ← hsplit]
    · rw [h.rp, Nat.mod_add_mod]
      congr 1
      omega
    · exact h.places
    · rw [← List.drop_drop, h.live, drop_ring (by omega)]
    · exact hcontent
    · exact h.handed

end Layout

theorem layout_step (h : Step s a t) (hs : ∃ start, Layout s start) : ∃ start, Layout t start := by
  obtain ⟨start, hs⟩ := hs
  cases h with
  | write hpos hx => exact ⟨start, hs.write hpos hx⟩
  | read _ hx => exact ⟨start, hs.read hx⟩
  | release hx => exact hs.release hx

theorem max_size_step (h : Step s a t) : t.buf.max_size = s.buf.max_size := by
  cases h with
  | write | read => rfl
  | release =>
    simp only [hev_ring_buffer_read_release]
    split <;> rfl

theorem layout_reachable (h : Reachable (Initial max) Step s) :
    (∃ start, Layout s start) ∧ s.buf.max_size = max := by
  have hp : Preserves Step fun s => (∃ start, Layout s start) ∧ s.buf.max_size = max :=
    fun s a t hst hs => ⟨layout_step hst hs.1, (max_size_step hst).trans hs.2⟩
  have hi : ∀ s, Initial max s → (∃ start, Layout s start) ∧ s.buf.max_size = max := by
    rintro s ⟨data, hdata, rfl⟩
    exact ⟨⟨0, layout_initial ⟨data, hdata, rfl⟩⟩, rfl⟩
  have hall := h.invariant hp hi
  exact hall

/-- The buffer hands out what was written, once and in order, and keeps each byte until it is
released. -/
structure RingLaw (max : Nat) (s : State) : Prop where
  max_size : s.buf.max_size = max ∧ s.buf.data.length = max
  fifo : s.handed ++ gather s.buf.data (cells (hev_ring_buffer_reading s.buf)) = s.written
  sizes : s.buf.rda_size ≤ s.buf.use_size ∧ s.buf.use_size ≤ max
  use_size : s.buf.use_size = s.written.length - s.released
  kept : (s.places.drop s.released).map (fun c => s.buf.data[c]?) =
    (s.written.drop s.released).map some
  free : (s.places.drop s.released).Disjoint (cells (hev_ring_buffer_writing s.buf))
  offer : totalLen (hev_ring_buffer_writing s.buf) = max - s.buf.use_size
  inside : ∀ v ∈ hev_ring_buffer_reading s.buf ++ hev_ring_buffer_writing s.buf,
    v.iov_base + v.iov_len ≤ max

theorem Layout.inside (h : Layout s start) :
    ∀ v ∈ hev_ring_buffer_reading s.buf ++ hev_ring_buffer_writing s.buf,
      v.iov_base + v.iov_len ≤ s.buf.max_size := by
  have hfits := h.fits
  have hle := h.rda_le
  intro v hv
  rcases List.mem_append.mp hv with hv | hv
  · by_cases hr : s.buf.rda_size = 0
    · rw [hev_ring_buffer_reading, if_pos hr] at hv
      cases hv
    · rw [reading_spans hr] at hv
      exact spans_inside (h.rp_le (by omega)) (by omega) v hv
  · by_cases hu : s.buf.use_size = s.buf.max_size
    · rw [hev_ring_buffer_writing, if_pos hu] at hv
      cases hv
    · rw [writing_spans hu] at hv
      exact spans_inside (h.wp_le (by omega)) (Nat.sub_le _ _) v hv

/-- Whatever is written, read and released, in any order, the ring buffer is a queue of bytes that
overwrites none that lwIP may still send. -/
theorem ring_buffer_fifo (h : Reachable (Initial max) Step s) : RingLaw max s := by
  obtain ⟨⟨start, hs⟩, hmax⟩ := layout_reachable h
  subst hmax
  constructor
  · exact ⟨rfl, hs.data⟩
  · rw [hs.gather_reading]
    nth_rewrite 1 [hs.handed]
    exact List.take_append_drop _ _
  · exact ⟨hs.rda_le, hs.fits⟩
  · rw [hs.use, Nat.add_sub_cancel_left]
  · exact hs.content
  · exact hs.free
  · rw [← length_cells, hs.cells_writing, length_ring]
  · exact hs.inside

/-- Three bytes go through a buffer of two, across its end. -/
theorem ring_buffer_fifo_wraps : ∃ s, s.written = [1, 2, 3] ∧ s.handed = [1, 2] ∧
    s.places = [0, 1, 0] ∧ hev_ring_buffer_reading s.buf = [⟨0, 1⟩] ∧ RingLaw 2 s := by
  have h0 : Reachable (Initial 2) Step ⟨hev_ring_buffer_alloca 2 [7, 7], [], [], [], 0⟩ :=
    ⟨_, [], ⟨[7, 7], rfl, rfl⟩, .refl⟩
  have h1 := h0.step (@Step.write _ [1, 2] (by decide) (by decide))
  have h2 := h1.step (@Step.read _ 2 (by decide) (by decide))
  have h3 := h2.step (@Step.release _ 1 (by decide))
  have h4 := h3.step (@Step.write _ [3] (by decide) (by decide))
  exact ⟨_, rfl, rfl, rfl, rfl, ring_buffer_fifo h4⟩

end XTunnel.Ring
