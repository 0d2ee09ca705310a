import XTunnel.Recency
import XTunnel.MappedDns.Translation

/-! The store over whole runs: names, slots and the order of eviction. -/
namespace XTunnel.MappedDns
namespace HevMappedDNS

variable {self t : HevMappedDNS} {name : Name} {p : Ptr} {i : Nat} {ip : BitVec 32} {op : Op}
  {ops : List Op}

/-- The store after one operation. -/
def next (self : HevMappedDNS) : Op → HevMappedDNS
  | .find name alloc => (self.find name alloc).1
  | .lookup ip => (self.lookup ip).1

/-- The name that an operation finds or successfully looks up. -/
def used (self : HevMappedDNS) : Op → Option Name
  | .find name _ => some name
  | .lookup ip => (self.lookup ip).2

/-- The names that operations find or look up, in order. -/
def uses (self : HevMappedDNS) : List Op → List Name
  | [] => []
  | op :: ops => (self.used op).toList ++ (self.next op).uses ops

def nameAt (self : HevMappedDNS) (p : Ptr) : Name := ((self.heap p).map (·.name)).getD []

/-- The names in the tree. -/
def treeNames (self : HevMappedDNS) : List Name := self.tree.map self.nameAt

/-- The names in the LRU list, the least recent first. -/
def listNames (self : HevMappedDNS) : List Name := self.list.map self.nameAt

/-- Some slot holds the name. -/
def Holds (self : HevMappedDNS) (name : Name) : Prop := ∃ i, self.Live i name

theorem step_iff : Step self op t ↔ t = self.next op := by
  constructor
  · intro h
    cases h <;> rfl
  · rintro rfl
    cases op with
    | find name alloc => exact .find self name alloc
    | lookup ip => exact .lookup self ip

theorem nameAt_of_heap {n : HevMappedDNSNode} (h : self.heap p = some n) :
    self.nameAt p = n.name := by
  simp [nameAt, h]

/-- Allocated nodes with the same name are the same. -/
theorem nameAt_inj (hl : self.Linked) {q : Ptr} (hp : (self.heap p).isSome)
    (hq : (self.heap q).isSome) (h : self.nameAt p = self.nameAt q) : p = q := by
  obtain ⟨n, hn⟩ := Option.isSome_iff_exists.mp hp
  obtain ⟨m, hm⟩ := Option.isSome_iff_exists.mp hq
  rw [nameAt_of_heap hn, nameAt_of_heap hm] at h
  exact hl.names p q n m hn hm h

theorem map_nodup (hl : self.Linked) {l : List Ptr} (hn : l.Nodup)
    (h : ∀ p ∈ l, (self.heap p).isSome) : (l.map self.nameAt).Nodup :=
  (List.nodup_map_iff_inj_on hn).mpr fun p hp q hq => nameAt_inj hl (h p hp) (h q hq)

theorem treeNames_nodup (hl : self.Linked) : self.treeNames.Nodup :=
  map_nodup hl hl.tree_nodup fun p hp => (hl.tree_mem p).mp hp

theorem mem_listNames (hl : self.Linked) :
    name ∈ self.listNames ↔ ∃ p n, self.heap p = some n ∧ n.name = name := by
  rw [listNames, List.mem_map]
  constructor
  · rintro ⟨p, hp, rfl⟩
    obtain ⟨n, hn⟩ := Option.isSome_iff_exists.mp ((hl.list_mem p).mp hp)
    exact ⟨p, n, hn, (nameAt_of_heap hn).symm⟩
  · rintro ⟨p, n, hn, rfl⟩
    exact ⟨p, (hl.list_mem p).mpr (by simp [hn]), nameAt_of_heap hn⟩

theorem treeNames_perm (hl : self.Linked) : self.treeNames.Perm self.listNames :=
  List.Perm.map _ ((List.perm_ext_iff_of_nodup hl.tree_nodup hl.list_nodup).mpr fun p =>
    (hl.tree_mem p).trans (hl.list_mem p).symm)

theorem search_none_iff (hl : self.Linked) : self.search name = none ↔ name ∉ self.listNames := by
  constructor
  · intro h hm
    obtain ⟨p, n, hn, he⟩ := (mem_listNames hl).mp hm
    exact search_none hl h hn he
  · intro h
    by_contra hne
    obtain ⟨p, hp⟩ := Option.ne_none_iff_exists'.mp hne
    obtain ⟨n, hn, he⟩ := search_some hp
    exact h ((mem_listNames hl).mpr ⟨p, n, hn, he⟩)

/-- The names in slots are the names in the list. -/
theorem holds_iff (hl : self.Linked) (hs : self.Slotted) :
    self.Holds name ↔ name ∈ self.listNames := by
  rw [mem_listNames hl]
  constructor
  · rintro ⟨i, -, p, n, -, hn, he⟩
    exact ⟨p, n, hn, he⟩
  · rintro ⟨p, n, hn, he⟩
    obtain ⟨hlt, hr⟩ := hs.node_record p n hn
    exact ⟨n.idx, hlt, p, n, hr, hn, he⟩

theorem listNames_touch (hl : self.Linked) (hp : p ∈ self.list) :
    (self.touch p).listNames = Recency.access self.max self.listNames (self.nameAt p) := by
  have hm : self.nameAt p ∈ self.listNames := List.mem_map_of_mem hp
  have hinj : ∀ q ∈ self.list, self.nameAt q = self.nameAt p → q = p := fun q hq =>
    nameAt_inj hl ((hl.list_mem q).mp hq) ((hl.list_mem p).mp hp)
  have htouch : (self.touch p).listNames = (self.list.erase p ++ [p]).map self.nameAt := rfl
  rw [Recency.access, if_pos hm, htouch, List.map_append, Recency.map_erase_of_inj hinj, listNames,
    List.map_singleton]

theorem length_touch (hp : p ∈ self.list) : (self.touch p).list.length = self.list.length := by
  have := List.length_pos_of_mem hp
  rw [touch, List.length_append, List.length_erase_of_mem hp, List.length_singleton]
  omega

theorem find_live (h : self.search name = some p) (alloc : Bool) :
    self.find name alloc = (self.touch p, (self.heap p).map (·.idx)) := by
  simp [find, h]

theorem find_grow (h : self.search name = none) (hroom : self.use < self.max) :
    self.find name true = ((({ self.link name with use := self.use + 1 } :
      HevMappedDNS).record self.brk self.use), some self.use) := by
  simp [find, h, hroom]

/-- In a full store a new name takes the slot of the head of the list. -/
theorem find_full (hl : self.Linked) (h : self.search name = none)
    (hfull : ¬ self.use < self.max) {nf : Ptr} {rest : List Ptr} (hlist : self.list = nf :: rest) :
    ∃ v, self.heap nf = some v ∧ self.find name true =
      (((self.link name).unlink nf).record self.brk v.idx, some v.idx) := by
  have hm : nf ∈ self.list := by simp [hlist]
  obtain ⟨v, hv⟩ := Option.isSome_iff_exists.mp ((hl.list_mem nf).mp hm)
  have hnf : nf ≠ self.brk := by
    rintro rfl
    exact (brk_not_mem hl).1 hm
  have hhead : (self.link name).list.head? = some nf := by simp [link, hlist]
  have hidx : ((self.link name).heap nf).map (·.idx) = some v.idx := by
    simp [link_heap_ne hnf, hv]
  refine ⟨v, hv, ?_⟩
  simp only [find, h, hfull, Bool.not_true, Bool.false_eq_true, if_false, hhead, hidx,
    Option.getD_some]

/-- One find refreshes the name, and the list is as long as there are slots in use. -/
theorem find_access (hl : self.Linked) (hs : self.Slotted) (hlen : self.list.length = self.use)
    (hmax : 0 < self.max) (name : Name) :
    (self.find name true).1.listNames = Recency.access self.max self.listNames name ∧
      (self.find name true).1.list.length = (self.find name true).1.use := by
  cases hsr : self.search name with
  | some p =>
    obtain ⟨n, hn, rfl⟩ := search_some hsr
    have hp : p ∈ self.list := (hl.list_mem p).mpr (by simp [hn])
    rw [find_live hsr, listNames_touch hl hp, nameAt_of_heap hn]
    exact ⟨rfl, (length_touch hp).trans hlen⟩
  | none =>
    have hno := (search_none_iff hl).mp hsr
    have hold : ∀ q ∈ self.list, q ≠ self.brk := by
      rintro q hq rfl
      exact (brk_not_mem hl).1 hq
    by_cases hroom : self.use < self.max
    · have hroom' : self.listNames.length < self.max := by
        rw [listNames, List.length_map]
        omega
      have hnames : ∀ q ∈ self.list, (self.find name true).1.nameAt q = self.nameAt q := by
        intro q hq
        simp [find_grow hsr hroom, nameAt, record, link, hold q hq]
      have hnew : (self.find name true).1.nameAt self.brk = name := by
        simp [find_grow hsr hroom, nameAt, record, link]
      have hlist : (self.find name true).1.list = self.list ++ [self.brk] := by
        rw [find_grow hsr hroom]
        rfl
      have huse : (self.find name true).1.use = self.use + 1 := by
        rw [find_grow hsr hroom]
        rfl
      rw [Recency.access, if_neg hno, if_pos hroom', listNames, hlist, List.map_append,
        List.map_congr_left hnames, List.map_singleton, hnew]
      exact ⟨rfl, by rw [List.length_append, List.length_singleton, huse, hlen]⟩
    · have huse := hs.use_le
      obtain ⟨nf, rest, hcons⟩ := List.exists_cons_of_length_pos (l := self.list) (by omega)
      obtain ⟨v, -, hfind⟩ := find_full hl hsr hroom hcons
      have hnd := hl.list_nodup
      rw [hcons] at hnd
      have hnf : nf ≠ self.brk := hold nf (by simp [hcons])
      have hlist : (self.find name true).1.list = rest ++ [self.brk] := by
        rw [hfind]
        simp [record, unlink, link, hcons]
      have hnames : ∀ q ∈ rest, (self.find name true).1.nameAt q = self.nameAt q := by
        intro q hq
        have hqn : q ≠ nf := by
          rintro rfl
          exact (List.nodup_cons.mp hnd).1 hq
        simp [hfind, nameAt, record, unlink, link, hold q (by simp [hcons, hq]), hqn]
      have hnew : (self.find name true).1.nameAt self.brk = name := by
        simp [hfind, nameAt, record, unlink, link, hnf.symm]
      have huse' : (self.find name true).1.use = self.use := by
        rw [hfind]
        rfl
      have hfull : ¬ self.listNames.length < self.max := by
        rw [listNames, List.length_map]
        omega
      have htail : self.listNames.tail = rest.map self.nameAt := by
        rw [listNames, hcons]
        rfl
      rw [Recency.access, if_neg hno, if_neg hfull, htail, listNames, hlist, List.map_append,
        List.map_congr_left hnames, List.map_singleton, hnew]
      refine ⟨rfl, ?_⟩
      rw [List.length_append, List.length_singleton, huse', ← hlen, hcons, List.length_cons]

/-- One lookup refreshes the name that it returns. -/
theorem lookup_access (ha : self.Accepted) (hl : self.Linked) (hs : self.Slotted)
    (ip : BitVec 32) :
    (self.lookup ip).1.listNames = ((self.lookup ip).2.elim self.listNames
      (Recency.access self.max self.listNames)) ∧
      (self.lookup ip).1.list.length = self.list.length ∧
      (self.lookup ip).1.use = self.use := by
  unfold lookup
  dsimp only
  split
  · exact ⟨rfl, rfl, rfl⟩
  · rename_i hlt
    rw [hostPart_toInt ha] at hlt
    split
    · exact ⟨rfl, rfl, rfl⟩
    · rename_i p hr
      obtain ⟨n, hn⟩ := record_allocated hs (by omega) hr
      have hp : p ∈ self.list := (hl.list_mem p).mpr (by simp [hn])
      refine ⟨?_, length_touch hp, rfl⟩
      rw [listNames_touch hl hp, nameAt_of_heap hn, hn]
      rfl

theorem find_idx (hl : self.Linked) (hs : self.Slotted) (h : self.Live i name) (alloc : Bool) :
    (self.find name alloc).2 = some i := by
  have hm := (holds_iff hl hs).mp ⟨i, h⟩
  cases hsr : self.search name with
  | none => exact ((search_none_iff hl).mp hsr hm).elim
  | some p =>
    obtain ⟨n, hn, rfl⟩ := search_some hsr
    obtain ⟨hlt, hr⟩ := hs.node_record p n hn
    have hi : n.idx = i := Live.slot_eq hl hs ⟨hlt, p, n, hr, hn, rfl⟩ h
    rw [find_live hsr, hn, Option.map_some, hi]

theorem Live.grow (hl : self.Linked) (hroom : self.use < self.max) {x : Name}
    (hx : self.search x = none) (h : self.Live i name) : (self.find x true).1.Live i name := by
  obtain ⟨hlt, p, n, hr, hp, he⟩ := h
  have hpb : p ≠ self.brk := by
    rintro rfl
    simp [hl.fresh _ (Nat.le_refl _)] at hp
  have hne : i ≠ self.use := Nat.ne_of_lt hlt
  rw [find_grow hx hroom]
  exact ⟨Nat.lt_succ_of_lt hlt, p, n, by simpa [record, link, hne] using hr,
    by simpa [record, link, hpb] using hp, he⟩

/-- An eviction moves no other name. -/
theorem Live.evict (hl : self.Linked) (hs : self.Slotted) (hfull : ¬ self.use < self.max)
    {x : Name} (hx : self.search x = none) (h : self.Live i name) {nf : Ptr} {rest : List Ptr}
    (hlist : self.list = nf :: rest) (hne : name ≠ self.nameAt nf) :
    (self.find x true).1.Live i name := by
  obtain ⟨v, hv, hfind⟩ := find_full hl hx hfull hlist
  obtain ⟨hlt, p, n, hr, hp, he⟩ := h
  have hpb : p ≠ self.brk := by
    rintro rfl
    simp [hl.fresh _ (Nat.le_refl _)] at hp
  have hpn : p ≠ nf := by
    rintro rfl
    exact hne (he ▸ (nameAt_of_heap hp).symm)
  have hi : i ≠ v.idx := by
    rintro rfl
    rw [(hs.node_record nf v hv).2] at hr
    exact hpn (Option.some.inj hr).symm
  rw [hfind]
  exact ⟨hlt, p, n, by simpa [record, unlink, link, hi] using hr,
    by simpa [record, unlink, link, hpb, hpn] using hp, he⟩

/-- The evicted name is gone and the new one has its slot. -/
theorem find_evicts (hl : self.Linked) (hs : self.Slotted) (hfull : ¬ self.use < self.max)
    {x : Name} (hx : self.search x = none) {nf : Ptr} {rest : List Ptr}
    (hlist : self.list = nf :: rest) :
    ∃ i, self.Live i (self.nameAt nf) ∧ (self.find x true).2 = some i ∧
      (self.find x true).1.Live i x ∧ ¬ (self.find x true).1.Holds (self.nameAt nf) := by
  obtain ⟨v, hv, hfind⟩ := find_full hl hx hfull hlist
  obtain ⟨hlt, hr⟩ := hs.node_record nf v hv
  have hnf : nf ≠ self.brk := by
    rintro rfl
    simp [hl.fresh _ (Nat.le_refl _)] at hv
  have hxv : x ≠ self.nameAt nf := by
    rintro rfl
    exact search_none hl hx hv (nameAt_of_heap hv).symm
  refine ⟨v.idx, ⟨hlt, nf, v, hr, hv, (nameAt_of_heap hv).symm⟩, by rw [hfind], ?_, ?_⟩
  · rw [hfind]
    exact ⟨hlt, self.brk, ⟨x, v.idx⟩, by simp [record],
      by simp [record, unlink, link, hnf.symm], rfl⟩
  · rw [hfind]
    rintro ⟨j, -, p, n, -, hp, he⟩
    by_cases hpb : p = self.brk
    · subst p
      simp [record, unlink, link, hnf.symm] at hp
      subst n
      exact hxv he
    · by_cases hpn : p = nf
      · subst p
        simp [record, unlink, hpb] at hp
      · have hp' : self.heap p = some n := by simpa [record, unlink, link, hpb, hpn] using hp
        exact hpn (hl.names p nf n v hp' hv (he.trans (nameAt_of_heap hv)))

theorem exists_head (hl : self.Linked) (hs : self.Slotted) (h : 0 < self.use) :
    ∃ nf rest, self.list = nf :: rest := by
  obtain ⟨p, n, -, hp, -⟩ := hs.record_node 0 h
  have hm : p ∈ self.list := (hl.list_mem p).mpr (by simp [hp])
  exact List.exists_cons_of_length_pos (List.length_pos_of_mem hm)

/-- A name that stays in the store stays in its slot. -/
theorem Live.next (hl : self.Linked) (hs : self.Slotted) (h : self.Live i name)
    (hnext : (self.next op).Holds name) : (self.next op).Live i name := by
  cases op with
  | lookup ip =>
    change (self.lookup ip).1.Live i name
    unfold lookup
    dsimp only
    split
    · exact h
    · split <;> exact h
  | find x alloc =>
    change (self.find x alloc).1.Live i name
    cases hx : self.search x with
    | some p =>
      rw [find_live hx]
      exact h
    | none =>
      cases alloc with
      | false => simpa [find, hx] using h
      | true =>
        by_cases hroom : self.use < self.max
        · exact h.grow hl hroom hx
        · obtain ⟨nf, rest, hlist⟩ := exists_head hl hs (Nat.zero_lt_of_lt h.1)
          obtain ⟨-, -, -, -, hgone⟩ := find_evicts hl hs hroom hx hlist
          refine h.evict hl hs hroom hx hlist ?_
          rintro rfl
          exact hgone hnext

end HevMappedDNS

open HevMappedDNS

variable {net mask : BitVec 32} {max : Nat} {self t : HevMappedDNS} {name : Name} {i : Nat}
  {op : Op} {ops : List Op} {h : List Name}

/-- The allocation of the operation, if it makes one, succeeds. -/
def Op.Allocates : Op → Prop
  | .find _ alloc => alloc = true
  | .lookup _ => True

/-- The names that finds ask for. -/
def found (ops : List Op) : List Name :=
  ops.filterMap fun
    | .find name _ => some name
    | .lookup _ => none

/-- The list is what a history of uses leaves of the recent names. -/
structure Remembers (h : List Name) (dns : HevMappedDNS) : Prop where
  recent : dns.listNames = Recency.recent dns.max h
  length : dns.list.length = dns.use

theorem remembers_construct (hc : construct net mask max = some self) : Remembers [] self := by
  unfold construct at hc
  split at hc
  · cases hc
  · cases hc
    exact ⟨Recency.recent_nil.symm, rfl⟩

/-- One operation adds the name that it uses to the history. -/
theorem remembers_next (hi : StoreInv net mask max self) (hmax : 0 < max)
    (hr : Remembers h self) (ha : op.Allocates) :
    Remembers (h ++ (self.used op).toList) (self.next op) := by
  have hpos : 0 < self.max := hi.config.2.2.symm ▸ hmax
  have hm : (self.next op).max = self.max := (step_config (step_iff.mpr rfl)).2.2
  cases op with
  | find name alloc =>
    cases ha
    obtain ⟨hn, hl⟩ := find_access hi.linked hi.slotted hr.length hpos name
    refine ⟨?_, hl⟩
    rw [hm, used, Option.toList_some, ← Recency.access_recent hpos, ← hr.recent]
    exact hn
  | lookup ip =>
    obtain ⟨hn, hl, hu⟩ := lookup_access hi.accepted hi.linked hi.slotted ip
    refine ⟨?_, hl.trans (hr.length.trans hu.symm)⟩
    rw [hm, used]
    cases hx : (self.lookup ip).2 with
    | none =>
      rw [hx] at hn
      rw [Option.toList_none, List.append_nil, ← hr.recent]
      exact hn
    | some name =>
      rw [hx] at hn
      rw [Option.toList_some, ← Recency.access_recent hpos, ← hr.recent]
      exact hn

theorem remembers_run (hi : StoreInv net mask max self) (hmax : 0 < max)
    (hr : Remembers h self) (hrun : Run Step self ops t) (ha : ∀ op ∈ ops, op.Allocates) :
    Remembers (h ++ self.uses ops) t := by
  induction hrun generalizing h with
  | refl => simpa [uses] using hr
  | stepL hs _ ih =>
    have hi' := storeInv_step _ _ _ hs hi
    rw [step_iff] at hs
    subst hs
    have hr' := remembers_next hi hmax hr (ha _ List.mem_cons_self)
    have := ih hi' hr' fun op hop => ha op (List.mem_cons_of_mem _ hop)
    rwa [uses, ← List.append_assoc]

/-- Only names that were found before are looked up. -/
theorem mem_uses (hi : StoreInv net mask max self) (hmax : 0 < max) (hr : Remembers h self)
    (hrun : Run Step self ops t) (ha : ∀ op ∈ ops, op.Allocates) (hx : name ∈ self.uses ops) :
    name ∈ h ∨ name ∈ found ops := by
  induction hrun generalizing h with
  | refl => cases hx
  | @stepL s u t op ops hs _ ih =>
    have hi' := storeInv_step _ _ _ hs hi
    rw [step_iff] at hs
    subst hs
    have hr' := remembers_next hi hmax hr (ha _ List.mem_cons_self)
    have hused : ∀ x, s.used op = some x → x ∈ h ∨ x ∈ found (op :: ops) := by
      intro x hx
      cases op with
      | find name alloc =>
        cases hx
        exact Or.inr List.mem_cons_self
      | lookup ip =>
        have hlive := (lookup_eq_iff hi.accepted hi.slotted).mp hx
        have hm := (holds_iff hi.linked hi.slotted).mp ⟨_, hlive⟩
        rw [hr.recent] at hm
        exact Or.inl (Recency.mem_of_recent hm)
    have hfound : ∀ x ∈ found ops, x ∈ found (op :: ops) := by
      intro x hxf
      cases op with
      | find name alloc => exact List.mem_cons_of_mem _ hxf
      | lookup ip => exact hxf
    rw [uses, List.mem_append, Option.mem_toList] at hx
    rcases hx with hx | hx
    · exact hused name hx
    · rcases ih hi' hr' (fun op hop => ha op (List.mem_cons_of_mem _ hop)) hx with hm | hm
      · rw [List.mem_append, Option.mem_toList] at hm
        exact hm.elim Or.inl (hused name)
      · exact Or.inr (hfound name hm)

theorem mem_uses_of_found (hx : name ∈ found ops) : name ∈ self.uses ops := by
  induction ops generalizing self with
  | nil => cases hx
  | cons op ops ih =>
    rw [uses, List.mem_append]
    cases op with
    | find x alloc =>
      rcases List.mem_cons.mp hx with rfl | hx
      · exact Or.inl (by simp [used])
      · exact Or.inr (ih hx)
    | lookup ip => exact Or.inr (ih hx)

/-- Inserting `name` evicts the name whose last use is the oldest and takes its slot. -/
def EvictsOldest (h : List Name) (dns : HevMappedDNS) (name : Name) : Prop :=
  ∃ victim i, dns.Live i victim ∧ (dns.find name true).2 = some i ∧
    (dns.find name true).1.Live i name ∧ ¬ (dns.find name true).1.Holds victim ∧
    ∀ j w, dns.Live j w → w ≠ victim →
      (dns.find name true).1.Live j w ∧ Recency.UsedBefore h victim w

/-- What is promised of the store after `ops`, whose uses are `h`. -/
structure StoreLaw (ops : List Op) (h : List Name) (dns : HevMappedDNS) : Prop where
  distinct : dns.treeNames.Nodup
  listed : dns.treeNames.Perm dns.listNames
  use_eq : dns.use = min dns.max (found ops).dedup.length
  record : ∀ i < dns.use, ∃ p n, dns.records i = some p ∧ dns.heap p = some n ∧ n.idx = i
  one_slot : ∀ p ∈ dns.list, ∃! i, i < dns.max ∧ dns.records i = some p
  stable : ∀ name i, dns.Live i name → ∀ ops' t,
    Run (Guarded Step fun s _ => s.Holds name) dns ops' t → t.Holds name →
      (t.find name true).2 = some i
  evicts : dns.use = dns.max → ∀ name, ¬ dns.Holds name → EvictsOldest h dns name

theorem exists_unique_slot (hs : self.Slotted) (hl : self.Linked) {p : Ptr}
    (hp : p ∈ self.list) : ∃! i, i < self.max ∧ self.records i = some p := by
  obtain ⟨n, hn⟩ := Option.isSome_iff_exists.mp ((hl.list_mem p).mp hp)
  obtain ⟨hlt, hr⟩ := hs.node_record p n hn
  refine ⟨n.idx, ⟨Nat.lt_of_lt_of_le hlt hs.use_le, hr⟩, ?_⟩
  rintro i ⟨hi, hri⟩
  obtain ⟨q, m, hq, hm, hidx⟩ := hs.record_node i (record_lt_use hs hi hri)
  rw [hri] at hq
  cases hq
  rw [hn] at hm
  cases hm
  exact hidx.symm

/-- While a name stays in the store it stays in its slot, over any further run. -/
theorem live_run (hi : StoreInv net mask max self)
    (hrun : Run (Guarded Step fun s _ => s.Holds name) self ops t) (hl : self.Live i name)
    (ht : t.Holds name) : StoreInv net mask max t ∧ t.Live i name := by
  induction hrun with
  | refl => exact ⟨hi, hl⟩
  | @stepL s u t op ops hs hr ih =>
    have hi' := storeInv_step _ _ _ hs.2 hi
    obtain ⟨-, hs⟩ := hs
    rw [step_iff] at hs
    subst hs
    have hu : (s.next op).Holds name := by
      cases hr with
      | refl => exact ht
      | stepL hs _ => exact hs.1
    exact ih hi' (hl.next hi.linked hi.slotted hu) ht

theorem evictsOldest_of_full (hi : StoreInv net mask max self) (hmax : 0 < max)
    (hr : Remembers h self) (hfull : self.use = self.max) (hn : ¬ self.Holds name) :
    EvictsOldest h self name := by
  have hpos : 0 < self.max := hi.config.2.2.symm ▸ hmax
  rw [holds_iff hi.linked hi.slotted] at hn
  have hsr := (search_none_iff hi.linked).mpr hn
  have hno : ¬ self.use < self.max := by omega
  obtain ⟨nf, rest, hlist⟩ := exists_head hi.linked hi.slotted (by omega)
  obtain ⟨i, hv, hfind, hnew, hgone⟩ := find_evicts hi.linked hi.slotted hno hsr hlist
  refine ⟨self.nameAt nf, i, hv, hfind, hnew, hgone, ?_⟩
  intro j w hw hne
  refine ⟨hw.evict hi.linked hi.slotted hno hsr hlist hne, ?_⟩
  have hm := (holds_iff hi.linked hi.slotted).mp ⟨j, hw⟩
  have hcons : self.listNames = self.nameAt nf :: rest.map self.nameAt := by
    rw [listNames, hlist, List.map_cons]
  have hpair : (Recency.recent self.max h).Pairwise (Recency.UsedBefore h) :=
    Recency.recent_pairwise
  rw [← hr.recent, hcons] at hpair
  rw [hcons] at hm
  exact (List.pairwise_cons.mp hpair).1 w ((List.mem_cons.mp hm).resolve_left hne)

theorem store_law (hc : construct net mask max = some self) (hmax : 1 ≤ max)
    (hrun : Run Step self ops t) (ha : ∀ op ∈ ops, op.Allocates) :
    StoreLaw ops (self.uses ops) t := by
  have hi := storeInv_construct hc
  have hr := remembers_construct hc
  have hit := hrun.invariant storeInv_step hi
  have hrt := remembers_run hi hmax hr hrun ha
  rw [List.nil_append] at hrt
  have hcount : (self.uses ops).dedup.length = (found ops).dedup.length := by
    apply List.Perm.length_eq
    rw [List.perm_ext_iff_of_nodup (List.nodup_dedup _) (List.nodup_dedup _)]
    intro x
    rw [List.mem_dedup, List.mem_dedup]
    refine ⟨fun hx => ?_, mem_uses_of_found⟩
    exact (mem_uses hi hmax hr hrun ha hx).resolve_left List.not_mem_nil
  refine ⟨treeNames_nodup hit.linked, treeNames_perm hit.linked, ?_, hit.slotted.record_node,
    fun p hp => exists_unique_slot hit.slotted hit.linked hp, ?_, ?_⟩
  · have hlen : t.listNames.length = t.use := by
      rw [listNames, List.length_map, hrt.length]
    rw [← hlen, hrt.recent, Recency.length_recent, hcount]
  · intro name i hl ops' u hu hh
    obtain ⟨hiu, hlu⟩ := live_run hit hu hl hh
    exact find_idx hiu.linked hiu.slotted hlu true
  · exact fun hfull name hn => evictsOldest_of_full hit hmax hrt hfull hn

/-- A store of two slots. -/
def twoSlots : HevMappedDNS :=
  { use := 0, max := 2, net := 0xF0000000#32, mask := 0xF0000000#32, list := [], tree := []
    records := fun _ => none, heap := fun _ => none, brk := 0 }

/-- The lookup makes `a` the last name used, so that `c` takes the slot of `b`. -/
def evictsB : List Op :=
  [.find [0x61] true, .find [0x62] true, .lookup 0xF0000000#32, .find [0x63] true]

theorem store_law_evicts : ∃ t : HevMappedDNS, t.treeNames = [[0x61], [0x63]] ∧
    StoreLaw evictsB (twoSlots.uses evictsB) t :=
  ⟨_, rfl, store_law (show construct 0xF0000000#32 0xF0000000#32 2 = some twoSlots from rfl) (by decide)
    (.stepL (.find _ _ _) (.stepL (.find _ _ _) (.stepL (.lookup _ _) (.single (.find _ _ _))))) (by
      intro op hop
      simp only [evictsB, List.mem_cons, List.not_mem_nil, or_false] at hop
      rcases hop with rfl | rfl | rfl | rfl
      · rfl
      · rfl
      · trivial
      · rfl)⟩

end XTunnel.MappedDns
