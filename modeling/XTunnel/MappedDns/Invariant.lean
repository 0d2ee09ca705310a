import XTunnel.MappedDns.Store
import Mathlib.Data.List.Nodup

/-! The three linked structures agree in every reachable store. -/
namespace XTunnel.MappedDns
namespace HevMappedDNS

variable {self : HevMappedDNS} {name : Name} {p : Ptr} {idx : Nat}

/-- Tree and list hold exactly the allocated nodes, each once, under distinct names. -/
structure Linked (dns : HevMappedDNS) : Prop where
  fresh : ∀ p, dns.brk ≤ p → dns.heap p = none
  tree_mem : ∀ p, p ∈ dns.tree ↔ (dns.heap p).isSome
  list_mem : ∀ p, p ∈ dns.list ↔ (dns.heap p).isSome
  tree_nodup : dns.tree.Nodup
  list_nodup : dns.list.Nodup
  names : ∀ p q n m, dns.heap p = some n → dns.heap q = some m → n.name = m.name → p = q

/-- Slots below `use` and allocated nodes point at each other; the rest of the array is empty. -/
structure Slotted (dns : HevMappedDNS) : Prop where
  use_le : dns.use ≤ dns.max
  record_node : ∀ i < dns.use, ∃ p n, dns.records i = some p ∧ dns.heap p = some n ∧ n.idx = i
  node_record : ∀ p n, dns.heap p = some n → n.idx < dns.use ∧ dns.records n.idx = some p
  empty : ∀ i, dns.use ≤ i → i < dns.max → dns.records i = none

/-- The test of `hev_mapped_dns_construct` passed. -/
def Accepted (dns : HevMappedDNS) : Prop := (dns.max : Int) ≤ (~~~dns.mask).toInt

theorem construct_linked {net mask : BitVec 32} {max : Nat}
    (h : construct net mask max = some self) : self.Linked ∧ self.Slotted := by
  unfold construct at h
  split at h
  · cases h
  · cases h
    refine ⟨⟨?_, ?_, ?_, ?_, ?_, ?_⟩, ⟨Nat.zero_le _, ?_, ?_, ?_⟩⟩ <;> simp

theorem named_iff : self.named name p = true ↔ ∃ n, self.heap p = some n ∧ n.name = name := by
  unfold named
  cases self.heap p <;> simp

theorem search_some (h : self.search name = some p) :
    ∃ n, self.heap p = some n ∧ n.name = name :=
  named_iff.mp (List.find?_some h)

theorem search_none (hl : self.Linked) (h : self.search name = none) {n : HevMappedDNSNode}
    (hp : self.heap p = some n) : n.name ≠ name := by
  intro hn
  have hm : p ∈ self.tree := (hl.tree_mem p).mpr (by simp [hp])
  exact List.find?_eq_none.mp h p hm (named_iff.mpr ⟨n, hp, hn⟩)

theorem mem_touch (hp : p ∈ self.list) (q : Ptr) : q ∈ (self.touch p).list ↔ q ∈ self.list := by
  by_cases hq : q = p
  · subst q
    simp [touch, hp]
  · simp [touch, List.mem_erase_of_ne hq, hq]

theorem Linked.touch (hl : self.Linked) (hp : p ∈ self.list) : (self.touch p).Linked where
  fresh := hl.fresh
  tree_mem := hl.tree_mem
  list_mem q := (mem_touch hp q).trans (hl.list_mem q)
  tree_nodup := hl.tree_nodup
  list_nodup := by
    have he := hl.list_nodup.erase p
    refine List.Nodup.append he (List.nodup_singleton p) ?_
    rw [List.disjoint_singleton]
    exact hl.list_nodup.not_mem_erase
  names := hl.names

theorem brk_not_mem (hl : self.Linked) : self.brk ∉ self.list ∧ self.brk ∉ self.tree := by
  have hb := hl.fresh _ (Nat.le_refl self.brk)
  constructor
  · intro h
    simpa [hb] using (hl.list_mem _).mp h
  · intro h
    simpa [hb] using (hl.tree_mem _).mp h

theorem link_heap_ne (h : p ≠ self.brk) : (self.link name).heap p = self.heap p := by
  simp [link, h]

theorem link_heap_brk : (self.link name).heap self.brk = some ⟨name, 0⟩ := by
  simp [link]

theorem Linked.link (hl : self.Linked) (hs : self.search name = none) :
    (self.link name).Linked where
  fresh q hq := by
    have hlt : self.brk < q := hq
    rw [link_heap_ne (Nat.ne_of_gt hlt)]
    exact hl.fresh q (Nat.le_of_lt hlt)
  tree_mem q := by
    by_cases hq : q = self.brk
    · subst q
      simp [HevMappedDNS.link]
    · rw [link_heap_ne hq, ← hl.tree_mem q]
      simp [HevMappedDNS.link, hq]
  list_mem q := by
    by_cases hq : q = self.brk
    · subst q
      simp [HevMappedDNS.link]
    · rw [link_heap_ne hq, ← hl.list_mem q]
      simp [HevMappedDNS.link, hq]
  tree_nodup := List.Nodup.append hl.tree_nodup (List.nodup_singleton _)
    (List.disjoint_singleton.mpr (brk_not_mem hl).2)
  list_nodup := List.Nodup.append hl.list_nodup (List.nodup_singleton _)
    (List.disjoint_singleton.mpr (brk_not_mem hl).1)
  names q r n m hq hr hnm := by
    by_cases hqb : q = self.brk <;> by_cases hrb : r = self.brk
    · exact hqb.trans hrb.symm
    · subst q
      rw [link_heap_brk] at hq
      rw [link_heap_ne hrb] at hr
      cases hq
      exact (search_none hl hs hr hnm.symm).elim
    · subst r
      rw [link_heap_brk] at hr
      rw [link_heap_ne hqb] at hq
      cases hr
      exact (search_none hl hs hq hnm).elim
    · rw [link_heap_ne hqb] at hq
      rw [link_heap_ne hrb] at hr
      exact hl.names q r n m hq hr hnm

theorem unlink_heap_ne {q : Ptr} (h : q ≠ p) : (self.unlink p).heap q = self.heap q := by
  simp [unlink, h]

theorem unlink_heap_self : (self.unlink p).heap p = none := by
  simp [unlink]

theorem Linked.unlink (hl : self.Linked) (p : Ptr) : (self.unlink p).Linked where
  fresh q hq := by
    by_cases hqp : q = p
    · subst q
      exact unlink_heap_self
    · rw [unlink_heap_ne hqp]
      exact hl.fresh q hq
  tree_mem q := by
    by_cases hqp : q = p
    · subst q
      simpa [HevMappedDNS.unlink] using hl.tree_nodup.not_mem_erase
    · rw [unlink_heap_ne hqp, ← hl.tree_mem q]
      exact List.mem_erase_of_ne hqp
  list_mem q := by
    by_cases hqp : q = p
    · subst q
      simpa [HevMappedDNS.unlink] using hl.list_nodup.not_mem_erase
    · rw [unlink_heap_ne hqp, ← hl.list_mem q]
      exact List.mem_erase_of_ne hqp
  tree_nodup := hl.tree_nodup.erase p
  list_nodup := hl.list_nodup.erase p
  names q r n m hq hr hnm := by
    have hqp : q ≠ p := by rintro rfl; simp [unlink_heap_self] at hq
    have hrp : r ≠ p := by rintro rfl; simp [unlink_heap_self] at hr
    rw [unlink_heap_ne hqp] at hq
    rw [unlink_heap_ne hrp] at hr
    exact hl.names q r n m hq hr hnm

theorem record_heap_ne {q : Ptr} (h : q ≠ p) : (self.record p idx).heap q = self.heap q := by
  simp [record, h]

theorem record_heap_self :
    (self.record p idx).heap p = (self.heap p).map fun n => { n with idx } := by
  simp [record]

theorem record_heap_isSome (q : Ptr) :
    ((self.record p idx).heap q).isSome = (self.heap q).isSome := by
  by_cases hqp : q = p
  · subst q
    simp [record_heap_self]
  · rw [record_heap_ne hqp]

/-- Recording a slot renames no node. -/
theorem record_heap_name {q : Ptr} {n : HevMappedDNSNode}
    (h : (self.record p idx).heap q = some n) : ∃ m, self.heap q = some m ∧ m.name = n.name := by
  by_cases hqp : q = p
  · subst q
    rw [record_heap_self] at h
    obtain ⟨m, hm, rfl⟩ := Option.map_eq_some_iff.mp h
    exact ⟨m, hm, rfl⟩
  · rw [record_heap_ne hqp] at h
    exact ⟨n, h, rfl⟩

theorem Linked.record (hl : self.Linked) (p : Ptr) (idx : Nat) : (self.record p idx).Linked where
  fresh q hq := by
    have hn := hl.fresh q hq
    have hs : ((self.record p idx).heap q).isSome = (self.heap q).isSome :=
      record_heap_isSome q
    rw [hn] at hs
    simpa using hs
  tree_mem q := by
    rw [record_heap_isSome]
    exact hl.tree_mem q
  list_mem q := by
    rw [record_heap_isSome]
    exact hl.list_mem q
  tree_nodup := hl.tree_nodup
  list_nodup := hl.list_nodup
  names q r n m hq hr hnm := by
    obtain ⟨n', hn', hnn⟩ := record_heap_name hq
    obtain ⟨m', hm', hmm⟩ := record_heap_name hr
    exact hl.names q r n' m' hn' hm' (by rw [hnn, hmm, hnm])

theorem Linked.setUse (hl : self.Linked) (n : Nat) : ({ self with use := n }).Linked :=
  ⟨hl.fresh, hl.tree_mem, hl.list_mem, hl.tree_nodup, hl.list_nodup, hl.names⟩

/-- A new name in a store with room takes the slot `use`. -/
theorem slotted_grow (hl : self.Linked) (hs : self.Slotted) (hroom : self.use < self.max) :
    (({ self.link name with use := self.use + 1 } : HevMappedDNS).record self.brk
      self.use).Slotted where
  use_le := hroom
  record_node i hi := by
    have hi' : i < self.use + 1 := hi
    by_cases he : i = self.use
    · subst i
      exact ⟨self.brk, ⟨name, self.use⟩, by simp [record], by simp [record, link], rfl⟩
    · obtain ⟨p, n, hr, hp, hn⟩ := hs.record_node i (by omega)
      have hpb : p ≠ self.brk := by
        rintro rfl
        simp [hl.fresh _ (Nat.le_refl _)] at hp
      exact ⟨p, n, by simpa [record, he, link] using hr,
        by simpa [record, hpb, link] using hp, hn⟩
  node_record p n hp := by
    by_cases hpb : p = self.brk
    · subst p
      simp [record, link] at hp
      subst n
      simp [record]
    · have hp' : self.heap p = some n := by simpa [record, hpb, link] using hp
      obtain ⟨hlt, hr⟩ := hs.node_record p n hp'
      have hne : n.idx ≠ self.use := by omega
      exact ⟨Nat.lt_succ_of_lt hlt, by simpa [record, hne, link] using hr⟩
  empty i hi hm := by
    have hi' : self.use + 1 ≤ i := hi
    have he : i ≠ self.use := by omega
    simpa [record, he, link] using hs.empty i (by omega) hm

/-- In a full store the new name takes the slot of the node it evicts. -/
theorem slotted_evict (hl : self.Linked) (hs : self.Slotted) {nf : Ptr} {v : HevMappedDNSNode}
    (hv : self.heap nf = some v) :
    (((self.link name).unlink nf).record self.brk v.idx).Slotted where
  use_le := hs.use_le
  record_node i hi := by
    have hnf : nf ≠ self.brk := by
      rintro rfl
      simp [hl.fresh _ (Nat.le_refl _)] at hv
    by_cases he : i = v.idx
    · subst i
      exact ⟨self.brk, ⟨name, v.idx⟩, by simp [record], by simp [record, unlink, link, hnf.symm],
        rfl⟩
    · obtain ⟨p, n, hr, hp, hn⟩ := hs.record_node i hi
      have hpb : p ≠ self.brk := by
        rintro rfl
        simp [hl.fresh _ (Nat.le_refl _)] at hp
      have hpn : p ≠ nf := by
        rintro rfl
        rw [hv] at hp
        cases hp
        exact he hn.symm
      exact ⟨p, n, by simpa [record, he, unlink, link] using hr,
        by simpa [record, hpb, hpn, unlink, link] using hp, hn⟩
  node_record p n hp := by
    have hnf : nf ≠ self.brk := by
      rintro rfl
      simp [hl.fresh _ (Nat.le_refl _)] at hv
    obtain ⟨hvlt, hvr⟩ := hs.node_record nf v hv
    by_cases hpb : p = self.brk
    · subst p
      simp [record, unlink, link, hnf.symm] at hp
      subst n
      exact ⟨hvlt, by simp [record]⟩
    · by_cases hpn : p = nf
      · subst p
        simp [record, unlink, hpb] at hp
      · have hp' : self.heap p = some n := by simpa [record, hpb, hpn, unlink, link] using hp
        obtain ⟨hlt, hr⟩ := hs.node_record p n hp'
        have hne : n.idx ≠ v.idx := by
          intro he
          rw [he, hvr] at hr
          exact hpn (Option.some.inj hr).symm
        exact ⟨hlt, by simpa [record, hne, unlink, link] using hr⟩
  empty i hi hm := by
    obtain ⟨hvlt, -⟩ := hs.node_record nf v hv
    have hi' : self.use ≤ i := hi
    have he : i ≠ v.idx := by omega
    simpa [record, he, unlink, link] using hs.empty i hi hm

/-- A store without slots evicts the node it has just linked. -/
theorem slotted_self_evict (hs : self.Slotted) (hmax : self.max = 0) :
    (((self.link name).unlink self.brk).record self.brk idx).Slotted where
  use_le := hs.use_le
  record_node i hi := by
    have hi' : i < self.use := hi
    have := hs.use_le
    omega
  node_record p n hp := by
    by_cases hpb : p = self.brk
    · subst p
      simp [record, unlink] at hp
    · have hp' : self.heap p = some n := by simpa [record, hpb, unlink, link] using hp
      have := (hs.node_record p n hp').1
      have := hs.use_le
      omega
  empty i hi hm := by
    have hm' : i < self.max := hm
    omega

theorem find_inv (hl : self.Linked) (hs : self.Slotted) (name : Name) (alloc : Bool) :
    (self.find name alloc).1.Linked ∧ (self.find name alloc).1.Slotted := by
  unfold find
  cases hsr : self.search name with
  | some p =>
    obtain ⟨n, hp, -⟩ := search_some hsr
    exact ⟨hl.touch ((hl.list_mem p).mpr (by simp [hp])), ⟨hs.use_le, hs.record_node,
      hs.node_record, hs.empty⟩⟩
  | none =>
    cases alloc with
    | false => exact ⟨hl, hs⟩
    | true =>
      by_cases hroom : self.use < self.max
      · simp only [hroom, Bool.not_true, Bool.false_eq_true, if_false, if_true]
        exact ⟨((hl.link hsr).setUse _).record _ _, slotted_grow hl hs hroom⟩
      · simp only [hroom, Bool.not_true, Bool.false_eq_true, if_false]
        cases hlist : self.list with
        | nil =>
          have hmax : self.max = 0 := by
            by_contra hne
            have hpos : 0 < self.use := by have := hs.use_le; omega
            obtain ⟨p, n, -, hp, -⟩ := hs.record_node 0 hpos
            have hm := (hl.list_mem p).mpr (by simp [hp])
            simp [hlist] at hm
          have hhead : (self.link name).list.head? = some self.brk := by simp [link, hlist]
          simp only [hhead]
          exact ⟨((hl.link hsr).unlink _).record _ _, slotted_self_evict hs hmax⟩
        | cons nf rest =>
          have hhead : (self.link name).list.head? = some nf := by simp [link, hlist]
          have hm : nf ∈ self.list := by simp [hlist]
          obtain ⟨v, hv⟩ := Option.isSome_iff_exists.mp ((hl.list_mem nf).mp hm)
          have hnf : nf ≠ self.brk := by
            rintro rfl
            exact (brk_not_mem hl).1 hm
          have hidx : ((self.link name).heap nf).map (·.idx) = some v.idx := by
            simp [link_heap_ne hnf, hv]
          simp only [hhead, hidx, Option.getD_some]
          exact ⟨((hl.link hsr).unlink _).record _ _, slotted_evict hl hs hv⟩

/-- The complement of an accepted mask is a non-negative `int`. -/
theorem Accepted.msb (ha : self.Accepted) : (~~~self.mask).msb = false := by
  unfold Accepted at ha
  rw [BitVec.msb_eq_toInt, decide_eq_false_iff_not]
  omega

theorem hostPart_toInt (ha : self.Accepted) (ip : BitVec 32) :
    (self.hostPart ip).toInt = (self.hostPart ip).toNat := by
  apply BitVec.toInt_eq_toNat_of_msb
  simp only [hostPart, BitVec.msb_and, ha.msb, Bool.and_false]

/-- A slot that a lookup reads as occupied is below `use`. -/
theorem record_lt_use (hs : self.Slotted) (hlt : idx < self.max)
    (hr : self.records idx = some p) : idx < self.use := by
  by_contra hle
  rw [hs.empty idx (by omega) hlt] at hr
  cases hr

theorem record_allocated (hs : self.Slotted) (hlt : idx < self.max)
    (hr : self.records idx = some p) : ∃ n, self.heap p = some n := by
  obtain ⟨q, n, hq, hn, -⟩ := hs.record_node idx (record_lt_use hs hlt hr)
  rw [hr] at hq
  cases hq
  exact ⟨n, hn⟩

theorem lookup_inv (ha : self.Accepted) (hl : self.Linked) (hs : self.Slotted)
    (ip : BitVec 32) : (self.lookup ip).1.Linked ∧ (self.lookup ip).1.Slotted := by
  unfold lookup
  dsimp only
  split
  · exact ⟨hl, hs⟩
  · rename_i hlt
    rw [hostPart_toInt ha] at hlt
    split
    · exact ⟨hl, hs⟩
    · rename_i p hr
      obtain ⟨n, hn⟩ := record_allocated hs (by omega) hr
      exact ⟨hl.touch ((hl.list_mem p).mpr (by simp [hn])),
        ⟨hs.use_le, hs.record_node, hs.node_record, hs.empty⟩⟩

/-- Finds and lookups leave the configuration alone. -/
theorem step_config {t : HevMappedDNS} {op : Op} (h : Step self op t) :
    t.net = self.net ∧ t.mask = self.mask ∧ t.max = self.max := by
  cases h with
  | find name alloc =>
    unfold find
    split
    · exact ⟨rfl, rfl, rfl⟩
    · split
      · exact ⟨rfl, rfl, rfl⟩
      · dsimp only
        split
        · exact ⟨rfl, rfl, rfl⟩
        · split <;> exact ⟨rfl, rfl, rfl⟩
  | lookup ip =>
    unfold lookup
    dsimp only
    split
    · exact ⟨rfl, rfl, rfl⟩
    · split <;> exact ⟨rfl, rfl, rfl⟩

end HevMappedDNS

open HevMappedDNS

/-- What holds of every store that finds and lookups make of a constructed one. -/
structure StoreInv (net mask : BitVec 32) (max : Nat) (dns : HevMappedDNS) : Prop where
  config : dns.net = net ∧ dns.mask = mask ∧ dns.max = max
  accepted : dns.Accepted
  linked : dns.Linked
  slotted : dns.Slotted

variable {net mask : BitVec 32} {max : Nat} {self : HevMappedDNS}

theorem storeInv_construct (h : construct net mask max = some self) :
    StoreInv net mask max self := by
  have hl := construct_linked h
  unfold construct at h
  split at h
  · cases h
  · rename_i hle
    cases h
    exact ⟨⟨rfl, rfl, rfl⟩, Int.not_lt.mp hle, hl.1, hl.2⟩

theorem storeInv_step : Preserves Step (StoreInv net mask max) := by
  intro s op t hst hi
  obtain ⟨hn, hm, hx⟩ := step_config hst
  have ha : t.Accepted := by
    unfold Accepted
    rw [hx, hm]
    exact hi.accepted
  have hc : t.net = net ∧ t.mask = mask ∧ t.max = max := by
    rw [hn, hm, hx]
    exact hi.config
  cases hst with
  | find name alloc =>
    obtain ⟨hl, hs⟩ := find_inv hi.linked hi.slotted name alloc
    exact ⟨hc, ha, hl, hs⟩
  | lookup ip =>
    obtain ⟨hl, hs⟩ := lookup_inv hi.accepted hi.linked hi.slotted ip
    exact ⟨hc, ha, hl, hs⟩

theorem storeInv_reachable (h : ReachableStore net mask max self) :
    StoreInv net mask max self :=
  Reachable.invariant storeInv_step (fun _ => storeInv_construct) h

end XTunnel.MappedDns
