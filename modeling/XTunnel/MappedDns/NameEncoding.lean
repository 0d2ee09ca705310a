import XTunnel.MappedDns.Answer
import XTunnel.MappedDns.Bounds
import XTunnel.Socks5.UdpStream

/-! `hev_socks5_addr_from_name` on the names of the mapped DNS, with every byte of the name field that
it reads and writes. -/
namespace XTunnel.MappedDns

open Dns (Bytes)
open Socks5 (HevSocks5Addr hev_socks5_addr_len)
open Checked (write hostU16 index_panic write_eq length_store)
open Loop Outcome

/-- At most `n` bytes of a string, filled up with zero bytes to so many. -/
def strncpy (dst : Bytes) (src : Name) (n : Nat) : Outcome Bytes :=
  write dst 0 ((src ++ List.replicate n 0).take n)

/-- The length of a string that has to end inside. -/
def strlen (s : Bytes) : Outcome Nat :=
  if 0 ∈ s then pure (s.takeWhile (· ≠ 0)).length else panic

/-- The result and the record; the name field is the record behind its type and its length byte. -/
def hev_socks5_addr_from_name (addr : HevSocks5Addr) (name : Name) (port : BitVec 16) :
    Outcome (Int × HevSocks5Addr) := do
  let field ← strncpy (addr.body.drop 1) name 256
  let n ← strlen field
  let len := UInt8.ofNat n
  let field ← write field len.toNat (hostU16 port.toNat)
  pure (4 + len.toNat, HevSocks5Addr.ofMem (3 :: len :: field))

/-- The record holds the name and the port, and has the length that is returned. -/
structure Encodes (name : Name) (port : BitVec 16) (r : Int × HevSocks5Addr) : Prop where
  len : r.2.domainLen.toNat = name.length
  bytes : (r.2.body.drop 1).take name.length = name
  port : (r.2.body.drop (1 + name.length)).take 2 = hostU16 port.toNat
  ret : hev_socks5_addr_len r.2 = r.1

/-- The store that a call of the handler leaves. -/
def stored : Except HevMappedDNS Response → HevMappedDNS
  | .error dns => dns
  | .ok r => r.dns

/-- What a program does to its store: calls of the handler that stay inside their buffers, and
lookups. -/
inductive ServerStep : HevMappedDNS → Unit → HevMappedDNS → Prop
  | handle {self : HevMappedDNS} {r : Except HevMappedDNS Response} {alloc : Nat → Bool}
      {req res : Bytes} : req.length ≤ 1500 →
      Checked.hev_mapped_dns_handle self alloc req res = done r → ServerStep self () (stored r)
  | lookup (self : HevMappedDNS) (ip : BitVec 32) : ServerStep self () (self.lookup ip).1

/-- A node of the mapped DNS of some program has the name. -/
def Storable (name : Name) : Prop := ∃ net mask max self,
  Reachable (fun s => HevMappedDNS.construct net mask max = some s) ServerStep self ∧
    ∃ p node, self.heap p = some node ∧ node.name = name

variable {self dns : HevMappedDNS} {alloc : Nat → Bool} {req res : Bytes} {name : Name} {w : Walk}
  {addr : HevSocks5Addr} {port : BitVec 16}

theorem cstring_plain (rb : Bytes) (off : Nat) : 0 ∉ cstring rb off := by
  intro h
  have := List.mem_takeWhile_imp h
  simp at this

theorem cNames_find (ok : Bool) (h : CNames dns) (h0 : 0 ∉ name) : CNames (dns.find name ok).1 :=
  cNames_step _ (.find name ok) _ ⟨h0, .find dns name ok⟩ h

/-- The store after questions, or at the error. -/
def walked : Except HevMappedDNS Walk → HevMappedDNS
  | .error dns => dns
  | .ok w => w.dns

theorem cNames_handleQuestion (qlen : Nat) (ok : Bool) (h : CNames w.dns) :
    CNames (walked (handleQuestion qlen ok w)) := by
  rw [handleQuestion]
  rcases skipName qlen qlen w.rb w.off with _ | ⟨rb, off⟩
  · exact h
  · dsimp only
    split
    · exact h
    · split
      · have hfind := cNames_find ok h (cstring_plain rb (w.off + 1))
        rcases hf : w.dns.find (cstring rb (w.off + 1)) ok with ⟨dns, _ | idx⟩ <;>
          · rw [hf] at hfind
            exact hfind
      · exact h

theorem cNames_handleQuestions (qlen : Nat) (alloc : Nat → Bool) (n i : Nat) (h : CNames w.dns) :
    CNames (walked (handleQuestions qlen alloc n i w)) := by
  induction n generalizing i w with
  | zero => exact h
  | succ n ih =>
    have hq := cNames_handleQuestion qlen (alloc i) h
    rw [handleQuestions]
    rcases hr : handleQuestion qlen (alloc i) w with dns | w' <;> rw [hr] at hq
    · exact hq
    · exact ih (i + 1) hq

theorem cNames_handle (h : CNames self) : CNames (stored (handle self alloc req res)) := by
  have hq : CNames (walked (handleQuestions req.length alloc (readU16 req 4) 0
      ⟨self, req, 12, []⟩)) := cNames_handleQuestions _ _ _ _ h
  rw [handle]
  split
  · exact h
  · dsimp only
    split
    · exact h
    · rcases hr : handleQuestions req.length alloc (readU16 req 4) 0 ⟨self, req, 12, []⟩ with
        dns | w <;> rw [hr] at hq
      · exact hq
      · dsimp only
        split <;> exact hq

theorem cNames_server : Preserves ServerStep CNames := by
  rintro s a t hst hs
  cases hst with
  | @handle r alloc req res _ hr =>
    by_cases hc : Checked.Contained req res
    · rw [Checked.hev_mapped_dns_handle_eq hc] at hr
      cases hr
      exact cNames_handle hs
    · rw [Checked.hev_mapped_dns_handle_panic hc] at hr
      cases hr
  | lookup ip => exact cNames_step s (.lookup ip) _ ⟨trivial, .lookup s ip⟩ hs

/-- The names of the mapped DNS are C strings. -/
theorem Storable.plain (h : Storable name) : 0 ∉ name := by
  obtain ⟨net, mask, max, self, ⟨s, xs, hc, hrun⟩, p, node, hp, rfl⟩ := h
  refine hrun.invariant cNames_server (fun p n hp => ?_) p node hp
  unfold HevMappedDNS.construct at hc
  split at hc <;> cases hc
  cases hp

theorem length_field (addr : HevSocks5Addr) : (addr.body.drop 1).length = 258 := by
  rw [List.length_drop, addr.size]

/-- The field after the copy. -/
theorem strncpy_field (addr : HevSocks5Addr) (name : Name) :
    strncpy (addr.body.drop 1) name 256 =
      done ((name ++ List.replicate 256 0).take 256 ++ addr.body.drop 257) := by
  have hlen : ((name ++ List.replicate 256 (0 : UInt8)).take 256).length = 256 := by
    rw [List.length_take, List.length_append, List.length_replicate]
    omega
  rw [strncpy, write_eq (by rw [hlen, length_field]; decide), store, hlen, List.take_zero,
    List.nil_append, List.drop_drop]

theorem strlen_plain {s : Bytes} (h0 : 0 ∉ name) : strlen (name ++ 0 :: s) = done name.length := by
  have htake : (name ++ 0 :: s).takeWhile (· ≠ 0) = name := by
    rw [List.takeWhile_append_of_pos]
    · simp
    · intro c hc
      simpa using fun h : c = 0 => h0 (h ▸ hc)
  rw [strlen, if_pos (by simp), htake]
  rfl

theorem ofMem_body {mem : Bytes} (h : mem.length = 259) (a : UInt8) :
    (HevSocks5Addr.ofMem (a :: mem)).body = mem := by
  change (mem ++ List.replicate 259 0).take 259 = mem
  rw [List.take_left' h]

/-- A name of at most 255 bytes is terminated by the copy. -/
theorem addr_from_name_short (addr : HevSocks5Addr) (port : BitVec 16) (h0 : 0 ∉ name)
    (hl : name.length ≤ 255) :
    (hev_socks5_addr_from_name addr name port).Returns (Encodes name port) := by
  have hcopy : (name ++ List.replicate 256 0).take 256 ++ addr.body.drop 257 =
      name ++ 0 :: (List.replicate (255 - name.length) 0 ++ addr.body.drop 257) := by
    rw [List.take_append, List.take_of_length_le (by omega), List.take_replicate,
      Nat.min_eq_left (by omega), List.append_assoc,
      show 256 - name.length = (255 - name.length) + 1 by omega, List.replicate_succ,
      List.cons_append]
  have hn : (UInt8.ofNat name.length).toNat = name.length := by
    rw [UInt8.toNat_ofNat']
    omega
  have hport : (hostU16 port.toNat).length = 2 := rfl
  have hfield : (name ++ 0 :: (List.replicate (255 - name.length) 0 ++ addr.body.drop 257)).length =
      258 := by
    rw [← hcopy, List.length_append, List.length_take, List.length_append, List.length_replicate,
      List.length_drop, addr.size]
    omega
  rw [hev_socks5_addr_from_name, strncpy_field, done_bind, hcopy, strlen_plain h0, done_bind]
  simp only [hn]
  rw [write_eq (by omega), done_bind]
  have hstore : store (name ++ 0 :: (List.replicate (255 - name.length) 0 ++ addr.body.drop 257))
      name.length (hostU16 port.toNat) = name ++ (hostU16 port.toNat ++
        (List.replicate (255 - name.length) 0 ++ addr.body.drop 257).drop 1) := by
    rw [store, List.take_left, hport, ← List.drop_drop, List.drop_left, List.append_assoc]
    rfl
  have hmem : (UInt8.ofNat name.length :: store (name ++ 0 ::
      (List.replicate (255 - name.length) 0 ++ addr.body.drop 257)) name.length
        (hostU16 port.toNat)).length = 259 := by
    rw [List.length_cons, length_store (by omega), hfield]
  have hbody := ofMem_body hmem 3
  constructor
  · change ((HevSocks5Addr.ofMem _).body.getD 0 0).toNat = _
    rw [hbody]
    exact hn
  · change ((HevSocks5Addr.ofMem _).body.drop 1).take _ = _
    rw [hbody, List.drop_one, List.tail_cons, hstore, List.take_left]
  · change ((HevSocks5Addr.ofMem _).body.drop _).take _ = _
    rw [hbody, Nat.add_comm, List.drop_succ_cons, hstore, List.drop_left, List.take_left' hport]
  · have htype : ∀ mem : Bytes, hev_socks5_addr_len (HevSocks5Addr.ofMem (3 :: mem)) =
        4 + ((HevSocks5Addr.ofMem (3 :: mem)).body.getD 0 0).toNat := fun _ => rfl
    rw [htype, hbody]
    exact congrArg (fun k : Nat => (4 + k : Int)) hn

theorem addr_from_name_nonneg {r : Int × HevSocks5Addr}
    (h : hev_socks5_addr_from_name addr name port = done r) : 0 ≤ r.1 := by
  rw [hev_socks5_addr_from_name, strncpy_field, done_bind] at h
  cases hs : strlen ((name ++ List.replicate 256 0).take 256 ++ addr.body.drop 257) with
  | panic | outOfFuel =>
    rw [hs] at h
    cases h
  | done n =>
    rw [hs, done_bind] at h
    cases hw : write ((name ++ List.replicate 256 0).take 256 ++ addr.body.drop 257)
        (UInt8.ofNat n).toNat (hostU16 port.toNat) with
    | panic | outOfFuel =>
      simp only [hw] at h
      cases h
    | done field =>
      simp only [hw] at h
      cases h
      change (0 : Int) ≤ 4 + (UInt8.ofNat n).toNat
      omega

/-- The length byte of a longer name is another number. -/
theorem addr_from_name_long (addr : HevSocks5Addr) (port : BitVec 16) (hl : 256 ≤ name.length) :
    ¬ (hev_socks5_addr_from_name addr name port).Returns fun r => r.1 < 0 ∨ Encodes name port r := by
  intro h
  obtain ⟨r, hr, hout⟩ := h.exists
  rcases hout with hneg | henc
  · exact absurd (addr_from_name_nonneg hr) (by omega)
  · have hlt := r.2.domainLen.toNat_lt
    have hlen := henc.len
    omega

/-- A name that the mapped DNS can hold is encoded exactly when it has at most 255 bytes. -/
theorem addr_from_name_iff (addr : HevSocks5Addr) (port : BitVec 16) (h : Storable name) :
    ((hev_socks5_addr_from_name addr name port).Returns fun r => r.1 < 0 ∨ Encodes name port r) ↔
      name.length ≤ 255 := by
  constructor
  · intro hr
    by_cases hl : name.length ≤ 255
    · exact hl
    · exact absurd hr (addr_from_name_long addr port (by omega))
  · intro hl
    exact (addr_from_name_short addr port h.plain hl).mono fun _ => .inr

/-- A query for the address of a name. -/
def addressQuery (labels : List Bytes) : Bytes :=
  [0, 0, 1, 0, 0, 1, 0, 0, 0, 0, 0, 0] ++
    (labels.flatMap fun l => UInt8.ofNat l.length :: l) ++ [0, 0, 1, 0, 1]

/-- The name that a fresh store holds after a query. -/
def firstStored (req res : Bytes) : Option Name :=
  (HevMappedDNS.construct 0xc6120000 0xffff0000 10000).bind fun self =>
    ((stored (handle self (fun _ => true) req res)).heap 0).map HevMappedDNSNode.name

theorem contained_addressQuery {labels : List Bytes} (h : (addressQuery labels).length ≤ 1500)
    (hres : res.length = 1500) : Checked.Contained (addressQuery labels) res := by
  have hlen : 17 ≤ (addressQuery labels).length := by
    simp only [addressQuery, List.length_append, List.length_cons, List.length_nil]
    omega
  have hqd : readU16 (addressQuery labels) 4 = 1 := by simp [readU16, addressQuery]
  refine .inr ⟨by omega, by omega, fun _ hover => ?_⟩
  rw [hqd] at hover
  cases hover with
  | here h => omega
  | later _ _ h => cases h

theorem storable_of_first (labels : List Bytes) (res : Bytes)
    (h : (addressQuery labels).length ≤ 1500) (hres : res.length = 1500)
    (hf : firstStored (addressQuery labels) res = some name) : Storable name := by
  rw [firstStored, Option.bind_eq_some_iff] at hf
  obtain ⟨self, hc, hf⟩ := hf
  obtain ⟨node, hp, rfl⟩ := Option.map_eq_some_iff.mp hf
  have hcont := contained_addressQuery h hres
  exact ⟨_, _, _, _, ⟨self, _, hc, .single (.handle h (Checked.hev_mapped_dns_handle_eq hcont))⟩,
    0, node, hp, rfl⟩

theorem storable_letter : Storable [97] :=
  storable_of_first [[97]] (List.replicate 1500 0) (Nat.le_add_right 19 1481) List.length_replicate
    (by decide +kernel)

/-- The name of one letter is held, and it is encoded. -/
theorem addr_from_name_letter : Storable [97] ∧
    ((hev_socks5_addr_from_name (HevSocks5Addr.ofMem []) [97] 443).Returns
      fun r => r.1 < 0 ∨ Encodes [97] 443 r) := by
  refine ⟨storable_letter, ?_⟩
  rw [addr_from_name_iff _ _ storable_letter]
  exact Nat.le_add_left 1 254

/-- A label of 255 bytes and one of a single byte. -/
def longLabels : List Bytes := [List.replicate 255 97, [98]]

theorem storable_long : Storable (List.replicate 255 97 ++ [46, 98]) :=
  storable_of_first longLabels (List.replicate 1500 0) (by decide +kernel) List.length_replicate
    (by decide +kernel)

/-- A held name of 257 bytes is not encoded. -/
theorem long_name_misencoded : ¬ ∀ name, Storable name → ∀ addr port,
    (hev_socks5_addr_from_name addr name port).Returns fun r => r.1 < 0 ∨ Encodes name port r := by
  intro h
  obtain ⟨name, hst, hl⟩ : ∃ name, Storable name ∧ 256 ≤ name.length := by
    refine ⟨_, storable_long, ?_⟩
    rw [List.length_append, List.length_replicate]
    exact Nat.le_add_right 256 1
  exact addr_from_name_long (HevSocks5Addr.ofMem []) 443 hl (h name hst _ _)

end XTunnel.MappedDns
