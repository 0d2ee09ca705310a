import XTunnel.MappedDns.History
import XTunnel.MappedDns.Memory

/-! The store in memory does what the abstract one does, and never faults. -/
namespace XTunnel.MappedDns

open Code RbTree RedBlack
open HevList (hev_list_del hev_list_add_tail hev_list_first hev_list_node_next)

/-- Nodes are in the order in which the descent of `hev_mapped_dns_find` expects them. -/
def HevMappedDNS.Above (self : HevMappedDNS) (p q : Ptr) : Prop :=
  strcmp (self.nameAt p) (self.nameAt q) = .gt

namespace Memory

/-- The fields of a node whose name was copied. -/
def copied (n : HevMappedDNSNode) : Fields := ⟨some n.name, n.idx⟩

/-- What the memory says of the store, with the nodes of the list and of the tree. -/
def abstracted (m : Memory) (heap : Ptr → Option HevMappedDNSNode) (list tree : List Ptr) :
    HevMappedDNS where
  use := m.use
  max := m.max
  net := m.net
  mask := m.mask
  list := list
  tree := tree
  records := m.records
  heap := heap
  brk := m.brk

/-- The memory holds the store, with the nodes of the tree in the order `l`. -/
structure Sim (m : Memory) (dns : HevMappedDNS) (l : List Ptr) : Prop where
  eq : dns = m.abstracted dns.heap dns.list dns.tree
  heap : m.heap = fun p => (dns.heap p).map copied
  tree : Indexes m.tree l
  perm : l.Perm dns.tree
  sorted : l.Pairwise dns.Above
  list : m.list.Holds dns.list

variable {m m' : Memory} {dns : HevMappedDNS} {name : Name} {l : List Ptr} {x p : Ptr} {fuel : Nat}
  {alloc : Allocation} {α : Type} {R : α → Memory → Prop}

theorem strcmp_eq {a b : Name} : strcmp a b = .eq ↔ a = b := Std.LawfulEqCmp.compare_eq_iff_eq

theorem strcmp_gt {a b : Name} : strcmp a b = .gt ↔ strcmp b a = .lt := Std.OrientedCmp.gt_iff_lt

/-- The descent for a name agrees with the order of the tree. -/
theorem cut_above : Cut dns.Above fun p => strcmp (dns.nameAt p) name where
  gt _ _ hab hb := Std.TransCmp.gt_trans hab hb
  lt _ _ hab ha := Std.TransCmp.lt_trans (strcmp_gt.mp hab) ha

theorem Sim.fields (hs : Sim m dns l) {n : HevMappedDNSNode} (hx : dns.heap x = some n) :
    m.heap x = some (copied n) := by
  rw [hs.heap]
  show (dns.heap x).map copied = _
  rw [hx]
  rfl

theorem Sim.mem (hs : Sim m dns l) (hl : dns.Linked) : p ∈ l ↔ (dns.heap p).isSome :=
  hs.perm.mem_iff.trans (hl.tree_mem p)

theorem search_eq (hl : dns.Linked) {n : HevMappedDNSNode} (hx : dns.heap x = some n)
    (hn : n.name = name) : dns.search name = some x := by
  cases hsr : dns.search name with
  | none => exact (HevMappedDNS.search_none hl hsr hx hn).elim
  | some y =>
    obtain ⟨n', hy, hn'⟩ := HevMappedDNS.search_some hsr
    rw [hl.names y x n' n hy hx (hn'.trans hn.symm)]

theorem ensures_onTree {y : Code HevRBTree α} {Q : α → HevRBTree → Prop} (h : y.Ensures m.tree Q)
    (hQ : ∀ a t, Q a t → R a { m with tree := t }) : (onTree y).Ensures m R := h.on hQ

theorem ensures_onList {y : Code HevList α} {Q : α → HevList → Prop} (h : y.Ensures m.list Q)
    (hQ : ∀ a t, Q a t → R a { m with list := t }) : (onList y).Ensures m R := h.on hQ

/-- A write to the abstract heap is one to the fields. -/
theorem Sim.heap_update (hs : Sim m dns l) (p : Ptr) (n : Option HevMappedDNSNode) :
    Function.update m.heap p (n.map copied) = fun q => (Function.update dns.heap p n q).map copied := by
  rw [hs.heap]
  exact (Function.comp_update (Option.map copied) dns.heap p n).symm

/-- A node of the list becomes the most recent one. -/
theorem ensures_touch (hs : Sim m dns l) (hx : x ∈ dns.list) :
    (onList (hev_list_del x >>= fun _ => hev_list_add_tail x)).Ensures m fun _ m' =>
      Sim m' (dns.touch x) l :=
  ensures_onList (HevList.ensures_move_tail hs.list hx) fun _ _ hres =>
    ⟨by rw [hs.eq]; rfl, hs.heap, hs.tree, hs.perm, hs.sorted, hres.1⟩

/-- The order of a name and that of the node at an address. -/
def place (dns : HevMappedDNS) (name : Name) (p : Ptr) : Ordering := strcmp (dns.nameAt p) name

/-- The descent finds the node that the abstract search finds. -/
theorem ensures_search (hs : Sim m dns l) (hl : dns.Linked) (hfuel : levels l.length < fuel) :
    (onTree (descend (fun p => (m.heap p).bind fun node => node.name.map (strcmp · name)) fuel none .left
      m.tree.root)).Ensures m fun res m' => m' = m ∧
      match res with
      | .inl x => dns.search name = some x
      | .inr (p, s) => dns.search name = none ∧ Place m.tree l (place dns name) p s := by
  have hcmp : ∀ p ∈ l, (m.heap p).bind (fun node => node.name.map (strcmp · name)) =
      some (place dns name p) := by
    intro p hp
    obtain ⟨n, hn⟩ := Option.isSome_iff_exists.mp ((hs.mem hl).mp hp)
    rw [hs.fields hn, place, HevMappedDNS.nameAt_of_heap hn]
    rfl
  refine ensures_onTree (RbTree.ensures_search hs.tree cut_above hs.sorted hcmp hfuel) ?_
  rintro res t ⟨rfl, hres⟩
  refine ⟨rfl, ?_⟩
  match res with
  | .inl x =>
    obtain ⟨hx, hord⟩ := hres
    obtain ⟨n, hn⟩ := Option.isSome_iff_exists.mp ((hs.mem hl).mp hx)
    rw [strcmp_eq, HevMappedDNS.nameAt_of_heap hn] at hord
    exact search_eq hl hn hord
  | .inr (p, s) =>
    refine ⟨?_, hres⟩
    obtain ⟨q, -, -, -, -, hq, hbefore, hafter⟩ := hres
    cases hsr : dns.search name with
    | none => rfl
    | some x =>
      obtain ⟨n, hn, hname⟩ := HevMappedDNS.search_some hsr
      have hord : place dns name x = .eq := by
        rw [place, strcmp_eq, HevMappedDNS.nameAt_of_heap hn, hname]
      have hx : x ∈ l := (hs.mem hl).mpr (by simp [hn])
      rw [hq, List.mem_append] at hx
      rcases hx with hx | hx
      · rw [show place dns name x = .gt from hbefore x hx] at hord
        cases hord
      · rw [show place dns name x = .lt from hafter x hx] at hord
        cases hord

/-- The code that puts a new node with its name into the tree and the list. -/
theorem ensures_insert {k : M α} {parent : Option Ptr} {s : Side} (hs : Sim m dns l)
    (hl : dns.Linked) (hp : Place m.tree l (place dns name) parent s)
    (hfuel : levels l.length < fuel)
    (hk : ∀ m' l', Sim m' (dns.link name) l' → l'.length = l.length + 1 → k.Ensures m' R) :
    (onTree (hev_rbtree_node_link dns.brk parent s >>= fun _ => hev_rbtree_insert_color fuel dns.brk) >>=
      fun _ => onList (hev_list_add_tail dns.brk) >>= fun _ => k).Ensures
        (m.withNode (some name)) R := by
  have hbrk : m.brk = dns.brk := by rw [hs.eq]; rfl
  obtain ⟨hnlist, hntree⟩ := HevMappedDNS.brk_not_mem hl
  have hnl : dns.brk ∉ l := fun hm => hntree (hs.perm.mem_iff.mp hm)
  have hold : ∀ p ∈ l, (dns.link name).nameAt p = dns.nameAt p := by
    intro p hp
    rw [HevMappedDNS.nameAt, HevMappedDNS.link_heap_ne (ne_of_mem_of_not_mem hp hnl)]
    rfl
  have hnew : (dns.link name).nameAt dns.brk = name := by
    rw [HevMappedDNS.nameAt, HevMappedDNS.link_heap_brk]
    rfl
  rw [withNode, hbrk]
  refine Ensures.bind (ensures_onTree (ensures_link (hp.congr rfl fun q hq => ?_) (Function.update_self _ _ _)
    hnl hfuel) ?_)
  · exact Function.update_of_ne (ne_of_mem_of_not_mem hq hnl) _ _
  rintro - t ⟨-, as, bs, rfl, hi, hbefore, hafter⟩
  refine Ensures.bind (ensures_onList (HevList.ensures_add_tail (hs.list.congr rfl rfl fun q hq => ?_)
    (Function.update_self _ _ _) hnlist) fun _ w hw => ?_)
  · exact Function.update_of_ne (ne_of_mem_of_not_mem hq hnlist) _ _
  refine hk _ (as ++ dns.brk :: bs) ⟨?_, ?_, hi, ?_, ?_, hw.1⟩ ?_
  · rw [hs.eq]
    rfl
  · exact hs.heap_update dns.brk (some ⟨name, 0⟩)
  · exact List.perm_middle.trans ((hs.perm.cons _).trans (List.perm_append_singleton _ _).symm)
  · have habove : ∀ p ∈ as ++ bs, ∀ q ∈ as ++ bs, dns.Above p q → (dns.link name).Above p q := by
      intro p hp q hq hpq
      rw [HevMappedDNS.Above, hold p hp, hold q hq]
      exact hpq
    obtain ⟨hsa, hsb, hab⟩ := List.pairwise_append.mp hs.sorted
    refine List.pairwise_append.mpr ⟨hsa.imp_of_mem ?_, List.pairwise_cons.mpr
      ⟨fun b hb => ?_, hsb.imp_of_mem ?_⟩, fun a ha b hb => ?_⟩
    · exact fun hp hq => habove _ (List.mem_append_left _ hp) _ (List.mem_append_left _ hq)
    · rw [HevMappedDNS.Above, hnew, hold b (List.mem_append_right _ hb), strcmp_gt]
      exact hafter b hb
    · exact fun hp hq => habove _ (List.mem_append_right _ hp) _ (List.mem_append_right _ hq)
    · rcases List.mem_cons.mp hb with rfl | hb
      · rw [HevMappedDNS.Above, hnew, hold a (List.mem_append_left _ ha)]
        exact hbefore a ha
      · exact habove a (List.mem_append_left _ ha) b (List.mem_append_right _ hb) (hab a ha b hb)
  · simp only [List.length_append, List.length_cons]
    omega

theorem Sim.nodup (hs : Sim m dns l) : l.Nodup := hs.tree.nodup

theorem free_bind {k : Unit → M α} {n : Fields} (hx : m.heap x = some n)
    (hk : (k ()).Ensures (m.without x) R) : (hev_mapped_dns_node_free x >>= k).Ensures m R := by
  refine Ensures.bind ⟨(), m.without x, ?_, hk⟩
  rw [hev_mapped_dns_node_free, hx]
  rfl

theorem setRecord_bind {k : Unit → M α} {i : Nat} (hi : i < m.max)
    (hk : (k ()).Ensures (m.withRecord i x) R) : (setRecord i x >>= k).Ensures m R :=
  Ensures.bind ⟨(), m.withRecord i x, if_pos hi, hk⟩

theorem setIdx_bind {k : Unit → M α} {n : Fields} {i : Nat} (hx : m.heap x = some n)
    (hk : (k ()).Ensures (m.withFields x { n with idx := i }) R) : (setIdx x i >>= k).Ensures m R := by
  refine Ensures.bind ⟨(), m.withFields x { n with idx := i }, ?_, hk⟩
  rw [setIdx, hx]
  rfl

theorem fields_bind {k : Fields → M α} {n : Fields} (hx : m.heap x = some n)
    (hk : (k n).Ensures m R) : (fields x >>= k).Ensures m R := by
  refine Ensures.bind ⟨n, m, ?_, hk⟩
  rw [fields, hx]
  rfl

/-- The code that removes the victim. -/
theorem ensures_unlink {k : Unit → M α} {n : HevMappedDNSNode} (hs : Sim m dns l) (hl : dns.Linked)
    (hx : dns.heap x = some n) (hfuel : levels l.length ≤ fuel)
    (hk : ∀ m' l', Sim m' (dns.unlink x) l' → (k ()).Ensures m' R) :
    (onTree (hev_rbtree_erase fuel x) >>= fun _ => onList (hev_list_del x) >>= fun _ =>
      hev_mapped_dns_node_free x >>= k).Ensures m R := by
  have hxt : x ∈ l := (hs.mem hl).mpr (by simp [hx])
  have hxl : x ∈ dns.list := (hl.list_mem x).mpr (by simp [hx])
  have hnl : ∀ q ∈ l.erase x, q ≠ x := fun q hq he => hs.nodup.not_mem_erase (he ▸ hq)
  have hnlist : ∀ q ∈ dns.list.erase x, q ≠ x := fun q hq he =>
    hs.list.nodup.not_mem_erase (he ▸ hq)
  have hname : ∀ q ∈ l.erase x, (dns.unlink x).nameAt q = dns.nameAt q := by
    intro q hq
    rw [HevMappedDNS.nameAt, HevMappedDNS.unlink_heap_ne (hnl q hq)]
    rfl
  refine Ensures.bind (ensures_onTree (RbTree.ensures_unlink hs.tree hxt hfuel) ?_)
  rintro - t ⟨ht, -⟩
  refine Ensures.bind (ensures_onList (HevList.ensures_del_mem hs.list hxl) ?_)
  rintro - w ⟨hw, -⟩
  refine free_bind (n := copied n) (hs.fields hx) (hk _ (l.erase x) ⟨?_, ?_, ?_, hs.perm.erase x, ?_, ?_⟩)
  · rw [hs.eq]
    rfl
  · exact hs.heap_update x none
  · exact ht.congr rfl fun q hq => Function.update_of_ne (hnl q hq) _ _
  · have hsub : (l.erase x).Pairwise dns.Above := hs.sorted.sublist List.erase_sublist
    refine hsub.imp_of_mem fun hp hq hpq => ?_
    rw [HevMappedDNS.Above, hname _ hp, hname _ hq]
    exact hpq
  · exact hw.congr rfl rfl fun q hq => Function.update_of_ne (hnlist q hq) _ _

/-- A node gets a slot. -/
theorem ensures_record {k : Unit → M α} {n : HevMappedDNSNode} {i : Nat} (hs : Sim m dns l)
    (hi : i < dns.max) (hx : dns.heap x = some n)
    (hk : ∀ m', Sim m' (dns.record x i) l → (k ()).Ensures m' R) :
    (setRecord i x >>= fun _ => setIdx x i >>= k).Ensures m R := by
  have hmax : i < m.max := by
    rw [hs.eq] at hi
    exact hi
  have hmx : (m.withRecord i x).heap x = some (copied n) := hs.fields hx
  have hname : ∀ q, (dns.record x i).nameAt q = dns.nameAt q := by
    intro q
    by_cases hq : q = x
    · subst hq
      rw [HevMappedDNS.nameAt, HevMappedDNS.record_heap_self, hx, HevMappedDNS.nameAt_of_heap hx]
      rfl
    · rw [HevMappedDNS.nameAt, HevMappedDNS.record_heap_ne hq]
      rfl
  refine setRecord_bind hmax (setIdx_bind hmx (hk _ ⟨?_, ?_, hs.tree, hs.perm, ?_, hs.list⟩))
  · rw [HevMappedDNS.record, hx, hs.eq]
    rfl
  · rw [HevMappedDNS.record, hx]
    exact hs.heap_update x (some { n with idx := i })
  · refine hs.sorted.imp fun {p q} hpq => ?_
    rw [HevMappedDNS.Above, hname, hname]
    exact hpq

variable {net mask : BitVec 32} {max : Nat}

theorem read_bind {k : Memory → M α} (hk : (k m).Ensures m R) : (read >>= k).Ensures m R :=
  Ensures.bind ⟨m, m, rfl, hk⟩

/-- There are not more nodes than slots. -/
theorem Sim.length_le (hs : Sim m dns l) (hl : dns.Linked) (hu : dns.use ≤ max)
    (hlen : dns.list.length = dns.use) : l.length ≤ max := by
  have hperm : l.Perm dns.list := (List.perm_ext_iff_of_nodup hs.nodup hl.list_nodup).mpr fun p =>
    (hs.mem hl).trans (hl.list_mem p).symm
  rw [hperm.length_eq, hlen]
  exact hu

/-- The rest of a find that makes a node. -/
theorem ensures_takeSlot {v : Ptr} (hs : Sim m (dns.link name) l) (hi : StoreInv net mask max dns)
    (hlen : dns.list.length = dns.use) (hmax : 0 < max) (hsr : dns.search name = none)
    (hfuel : levels l.length ≤ fuel) (hv : v = dns.brk) :
    (takeSlot fuel >>= fun idx => setRecord idx v >>= fun _ => setIdx v idx >>= fun _ =>
      pure (some idx)).Ensures m fun r m' =>
        r = (dns.find name true).2 ∧ ∃ l', Sim m' (dns.find name true).1 l' := by
  subst hv
  have huse : m.use = dns.use := by
    have := congrArg HevMappedDNS.use hs.eq
    exact this.symm
  have hmm : m.max = dns.max := by
    have := congrArg HevMappedDNS.max hs.eq
    exact this.symm
  have hdm : dns.max = max := hi.config.2.2
  refine Ensures.bind (read_bind ?_)
  rw [huse, hmm]
  by_cases hroom : dns.use < dns.max
  · rw [if_pos hroom, HevMappedDNS.find_grow hsr hroom]
    have heq := congrArg (fun d : HevMappedDNS => { d with use := dns.use + 1 }) hs.eq
    have hs' : Sim { m with use := dns.use + 1 } { dns.link name with use := dns.use + 1 } l :=
      ⟨heq, hs.heap, hs.tree, hs.perm, hs.sorted, hs.list⟩
    refine Ensures.bind ⟨(), { m with use := dns.use + 1 }, rfl, ensures_pure ?_⟩
    exact ensures_record hs' hroom HevMappedDNS.link_heap_brk fun m' hm' =>
      ensures_pure ⟨rfl, _, hm'⟩
  · obtain ⟨nf, rest, hlist⟩ := HevMappedDNS.exists_head hi.linked hi.slotted (by omega)
    obtain ⟨v, hv, hfind⟩ := HevMappedDNS.find_full hi.linked hsr hroom hlist
    have hnf : nf ≠ dns.brk := by
      rintro rfl
      exact (HevMappedDNS.brk_not_mem hi.linked).1 (by simp [hlist])
    have hv' : (dns.link name).heap nf = some v := (HevMappedDNS.link_heap_ne hnf).trans hv
    have hhead : m.list.head = some nf := by
      rw [hs.list.head]
      show (dns.list ++ [dns.brk]).head? = some nf
      rw [hlist]
      rfl
    have hidx := (hi.slotted.node_record nf v hv).1
    have hbrk : ((dns.link name).unlink nf).heap dns.brk = some ⟨name, 0⟩ :=
      (HevMappedDNS.unlink_heap_ne (Ne.symm hnf)).trans HevMappedDNS.link_heap_brk
    rw [if_neg hroom, hfind]
    refine Ensures.bind (ensures_onList (Q := fun a t => a = some nf ∧ t = m.list)
      ⟨_, _, rfl, hhead, rfl⟩ ?_)
    rintro a t ⟨rfl, rfl⟩
    refine deref_bind (fields_bind (hs.fields hv') ?_)
    refine ensures_unlink hs (hi.linked.link hsr) hv' hfuel fun m' l' hs' => ensures_pure ?_
    exact ensures_record hs' (Nat.lt_of_lt_of_le hidx hi.slotted.use_le) hbrk fun m' hm' =>
      ensures_pure ⟨rfl, _, hm'⟩

/-- A find does what the abstract one does where a node that it makes gets its name. -/
theorem find_refines (hs : Sim m dns l) (hi : StoreInv net mask max dns)
    (hlen : dns.list.length = dns.use) (hmax : 0 < max) (hfuel : levels (max + 1) < fuel)
    (hcopy : alloc.node = true → alloc.copy = true) :
    (hev_mapped_dns_find fuel name alloc).Ensures m fun r m' =>
      r = (dns.find name alloc.node).2 ∧ ∃ l', Sim m' (dns.find name alloc.node).1 l' := by
  have huse : dns.use ≤ max := hi.config.2.2 ▸ hi.slotted.use_le
  have hl : l.length ≤ max := hs.length_le hi.linked huse hlen
  have hfuel' : levels l.length < fuel :=
    Nat.lt_of_le_of_lt (levels_mono (Nat.le_succ_of_le hl)) hfuel
  refine read_bind ((ensures_search hs hi.linked hfuel').seq fun res m₁ ⟨hm₁, hres⟩ => ?_)
  subst hm₁
  match res with
  | .inl x =>
    obtain ⟨n, hn, hname⟩ := HevMappedDNS.search_some hres
    rw [HevMappedDNS.find_live hres]
    refine (ensures_touch hs ((hi.linked.list_mem x).mpr (by simp [hn]))).seq fun _ m' hs' => ?_
    have hn' : m'.heap x = some (copied n) := hs'.fields hn
    refine fields_bind hn' (ensures_pure ⟨?_, l, hs'⟩)
    rw [hn]
    rfl
  | .inr (p, s) =>
    obtain ⟨hsr, hplace⟩ := hres
    obtain ⟨node, copy⟩ := alloc
    cases node with
    | false =>
      have hfind : dns.find name false = (dns, none) := by simp [HevMappedDNS.find, hsr]
      rw [hfind]
      exact ensures_pure ⟨rfl, l, hs⟩
    | true =>
      obtain rfl : copy = true := hcopy rfl
      have hbrk : m₁.brk = dns.brk := (congrArg HevMappedDNS.brk hs.eq).symm
      refine Ensures.bind ⟨some m₁.brk, m₁.withNode (some name), rfl, ?_⟩
      rw [hbrk]
      refine ensures_insert hs hi.linked hplace hfuel' fun m' l' hs' hl' => ?_
      refine ensures_takeSlot hs' hi hlen hmax hsr ?_ rfl
      exact Nat.le_of_lt (Nat.lt_of_le_of_lt (levels_mono (by omega)) hfuel)

theorem lookup_refines (hs : Sim m dns l) (hi : StoreInv net mask max dns) (ip : BitVec 32) :
    (hev_mapped_dns_lookup ip).Ensures m fun r m' =>
      r = (dns.lookup ip).2 ∧ Sim m' (dns.lookup ip).1 l := by
  have hmask : m.mask = dns.mask := (congrArg HevMappedDNS.mask hs.eq).symm
  have hmm : m.max = dns.max := (congrArg HevMappedDNS.max hs.eq).symm
  have hrec : m.records = dns.records := (congrArg HevMappedDNS.records hs.eq).symm
  have hpart : (ip &&& ~~~m.mask).toInt = (dns.hostPart ip).toNat := by
    rw [hmask]
    exact HevMappedDNS.hostPart_toInt hi.accepted ip
  refine read_bind ?_
  rw [hpart, hmm, hrec]
  dsimp only
  rw [Int.toNat_natCast, if_neg (Int.not_lt.mpr (Int.natCast_nonneg _))]
  unfold HevMappedDNS.lookup
  simp only [HevMappedDNS.hostPart_toInt hi.accepted ip]
  by_cases hge : ((dns.hostPart ip).toNat : Int) ≥ dns.max
  · simp only [if_pos hge]
    exact ensures_pure ⟨rfl, hs⟩
  · simp only [if_neg hge]
    cases hr : dns.records (dns.hostPart ip).toNat with
    | none => exact ensures_pure ⟨rfl, hs⟩
    | some x =>
      obtain ⟨n, hn⟩ := HevMappedDNS.record_allocated hi.slotted (by omega) hr
      refine (ensures_touch hs ((hi.linked.list_mem x).mpr (by simp [hn]))).seq fun _ m' hs' => ?_
      refine fields_bind (hs'.fields hn) (ensures_pure ⟨?_, hs'⟩)
      show some n.name = (dns.heap x).map (·.name)
      rw [hn]
      rfl

end Memory

/-- A node that the operation makes gets its name. -/
def NamedOp.Copies : NamedOp → Prop
  | find _ alloc => alloc.node = true → alloc.copy = true
  | lookup _ => True

/-- What an operation answers. -/
def HevMappedDNS.answer (self : HevMappedDNS) : Op → Option Nat ⊕ Option Name
  | .find name alloc => .inl (self.find name alloc).2
  | .lookup ip => .inr (self.lookup ip).2

def HevMappedDNS.answers (self : HevMappedDNS) : List Op → List (Option Nat ⊕ Option Name)
  | [] => []
  | op :: ops => self.answer op :: (self.next op).answers ops

def HevMappedDNS.afterAll (self : HevMappedDNS) (ops : List Op) : HevMappedDNS := ops.foldl next self

namespace Memory

variable {m m' : Memory} {dns : HevMappedDNS} {l : List Ptr} {fuel : Nat} {net mask : BitVec 32}
  {max : Nat}

/-- The list is as long as there are slots in use. -/
theorem length_next (hi : StoreInv net mask max dns) (hlen : dns.list.length = dns.use)
    (hmax : 0 < max) (op : Op) : (dns.next op).list.length = (dns.next op).use := by
  have hpos : 0 < dns.max := hi.config.2.2.symm ▸ hmax
  cases op with
  | find name alloc =>
    cases alloc with
    | true => exact (HevMappedDNS.find_access hi.linked hi.slotted hlen hpos name).2
    | false =>
      show (dns.find name false).1.list.length = _
      cases hsr : dns.search name with
      | none => simpa [HevMappedDNS.next, HevMappedDNS.find, hsr] using hlen
      | some x =>
        obtain ⟨n, hn, -⟩ := HevMappedDNS.search_some hsr
        have hx : x ∈ dns.list := (hi.linked.list_mem x).mpr (by simp [hn])
        simp only [HevMappedDNS.next, HevMappedDNS.find_live hsr]
        exact (HevMappedDNS.length_touch hx).trans hlen
  | lookup ip =>
    obtain ⟨-, hl, hu⟩ := HevMappedDNS.lookup_access hi.accepted hi.linked hi.slotted ip
    exact hl.trans (hlen.trans hu.symm)

/-- One operation. -/
theorem perform_refines (hs : Sim m dns l) (hi : StoreInv net mask max dns)
    (hlen : dns.list.length = dns.use) (hmax : 0 < max) (hfuel : levels (max + 1) < fuel)
    {op : NamedOp} (hc : op.Copies) : (perform fuel op).Ensures m fun r m' =>
      r = dns.answer op.erase ∧ ∃ l', Sim m' (dns.next op.erase) l' := by
  cases op with
  | find name alloc =>
    refine (find_refines hs hi hlen hmax hfuel hc).seq fun r m' hres => ensures_pure ⟨?_, hres.2⟩
    rw [hres.1]
    rfl
  | lookup ip =>
    refine (lookup_refines hs hi ip).seq fun r m' hres => ensures_pure ⟨?_, l, hres.2⟩
    rw [hres.1]
    rfl

theorem afterAll_inv (hi : StoreInv net mask max dns) (hlen : dns.list.length = dns.use)
    (hmax : 0 < max) (ops : List Op) : StoreInv net mask max (dns.afterAll ops) ∧
      (dns.afterAll ops).list.length = (dns.afterAll ops).use := by
  induction ops generalizing dns with
  | nil => exact ⟨hi, hlen⟩
  | cons op ops ih =>
    exact ih (storeInv_step dns op _ (HevMappedDNS.step_iff.mpr rfl) hi) (length_next hi hlen hmax op)

/-- Any run of operations. -/
theorem performAll_refines (hs : Sim m dns l) (hi : StoreInv net mask max dns)
    (hlen : dns.list.length = dns.use) (hmax : 0 < max) (hfuel : levels (max + 1) < fuel)
    {ops : List NamedOp} (hc : ∀ op ∈ ops, op.Copies) : (performAll fuel ops).Ensures m fun r m' =>
      r = dns.answers (ops.map NamedOp.erase) ∧ ∃ l', Sim m' (dns.afterAll (ops.map NamedOp.erase)) l' := by
  induction ops generalizing m dns l with
  | nil => exact ensures_pure ⟨rfl, l, hs⟩
  | cons op ops ih =>
    obtain ⟨hop, hc⟩ := List.forall_mem_cons.mp hc
    refine (perform_refines hs hi hlen hmax hfuel hop).seq fun r m₁ ⟨hr, l₁, hs₁⟩ => ?_
    have hi₁ : StoreInv net mask max (dns.next op.erase) :=
      storeInv_step dns op.erase _ (HevMappedDNS.step_iff.mpr rfl) hi
    refine (ih hs₁ hi₁ (length_next hi hlen hmax op.erase) hc).seq fun rs m₂ ⟨hrs, hs₂⟩ =>
      ensures_pure ⟨?_, hs₂⟩
    rw [hr, hrs]
    rfl

/-- The loop of the destructor reads and frees the nodes from the head on, each once. -/
theorem ensures_destructLoop {rest : List Ptr} (hn : rest.Nodup) (hlen : rest.length ≤ fuel)
    (hnext : ∀ as x bs, rest = as ++ x :: bs → ∃ p, m.list.mem x = some ⟨bs.head?, p⟩)
    (hheap : ∀ x ∈ rest, (m.heap x).isSome) :
    (destructLoop fuel rest.head?).Ensures m fun _ m' =>
      ∀ p, m'.heap p = if p ∈ rest then none else m.heap p := by
  induction rest generalizing m fuel with
  | nil => cases fuel <;> exact ensures_pure (by simp)
  | cons x rest ih =>
    cases fuel with
    | zero => cases hlen
    | succ fuel =>
      obtain ⟨hx, hn⟩ := List.nodup_cons.mp hn
      obtain ⟨p, hp⟩ := hnext [] x rest rfl
      obtain ⟨n, hm⟩ := Option.isSome_iff_exists.mp (hheap x List.mem_cons_self)
      refine Ensures.bind (ensures_onList (Q := fun a t => a = rest.head? ∧ t = m.list)
        (HevList.load_bind hp (ensures_pure ⟨rfl, rfl⟩)) ?_)
      rintro a t ⟨rfl, rfl⟩
      refine free_bind hm ?_
      refine (ih (m := m.without x) hn (Nat.le_of_succ_le_succ hlen) ?_ ?_).mono fun _ m' hm' p => ?_
      · intro as y bs he
        have hy : y ≠ x := by
          rintro rfl
          exact hx (by simp [he])
        obtain ⟨q, hq⟩ := hnext (x :: as) y bs (by rw [he]; rfl)
        exact ⟨q, (Function.update_of_ne hy _ _).trans hq⟩
      · intro y hy
        have hyx : y ≠ x := fun he => hx (he ▸ hy)
        have hold : (m.without x).heap y = m.heap y := Function.update_of_ne hyx _ _
        rw [hold]
        exact hheap y (List.mem_cons_of_mem _ hy)
      · rw [hm' p]
        by_cases hpx : p = x
        · subst hpx
          have hgone : (m.without p).heap p = none := Function.update_self _ _ _
          simp [hgone]
        · have hold : (m.without x).heap p = m.heap p := Function.update_of_ne hpx _ _
          simp [hpx, hold]

/-- The destructor frees every node. -/
theorem ensures_destruct (hs : Sim m dns l) (hl : dns.Linked) (hlen : dns.list.length ≤ fuel) :
    (hev_mapped_dns_destruct fuel).Ensures m fun _ m' => ∀ p, m'.heap p = none := by
  refine Ensures.bind (ensures_onList (Q := fun a t => a = dns.list.head? ∧ t = m.list)
    ⟨_, _, rfl, hs.list.head, rfl⟩ ?_)
  rintro a t ⟨rfl, rfl⟩
  refine (ensures_destructLoop hl.list_nodup hlen (fun as x bs he => ?_) fun x hx => ?_).mono
    fun _ m' hm' p => ?_
  · exact ⟨_, hs.list.node as x bs he⟩
  · obtain ⟨n, hn⟩ := Option.isSome_iff_exists.mp ((hl.list_mem x).mp hx)
    rw [hs.fields hn]
    rfl
  · rw [hm' p]
    split
    · rfl
    · rename_i hp
      rw [hs.heap]
      exact Option.map_eq_none_iff.mpr
        (Option.not_isSome_iff_eq_none.mp fun hsome => hp ((hl.list_mem p).mpr hsome))

theorem construct_sim (hm : hev_mapped_dns_construct net mask max = some m) :
    ∃ dns, HevMappedDNS.construct net mask max = some dns ∧ Sim m dns [] := by
  unfold hev_mapped_dns_construct at hm
  unfold HevMappedDNS.construct
  split at hm
  · cases hm
  · rename_i hle
    cases hm
    rw [if_neg hle]
    refine ⟨_, rfl, rfl, rfl, indexes_empty, List.Perm.refl _, List.Pairwise.nil, rfl, rfl, ?_, List.nodup_nil⟩
    intro as x bs he
    cases as <;> cases he

/-- The store in memory answers every run of finds and lookups as the abstract store does, without a
fault, as long as the nodes that are made get their names; its tree stays red-black and sorted, no walk
in it takes more steps than twice the logarithm of the number of nodes, and the destructor frees what is
left. -/
theorem store_refines (hm : hev_mapped_dns_construct net mask max = some m) (hmax : 0 < max)
    (hfuel : levels (max + 1) < fuel) (ops : List NamedOp) (hc : ∀ op ∈ ops, op.Copies) :
    ∃ dns, HevMappedDNS.construct net mask max = some dns ∧
      (performAll fuel ops).Ensures m fun answers m' => answers = dns.answers (ops.map NamedOp.erase) ∧
        (∃ l, Sim m' (dns.afterAll (ops.map NamedOp.erase)) l) ∧
        (hev_mapped_dns_destruct max).Ensures m' fun _ m'' => ∀ p, m''.heap p = none := by
  obtain ⟨dns, hcons, hs⟩ := construct_sim hm
  have hi := storeInv_construct hcons
  have hlen : dns.list.length = dns.use := by
    unfold HevMappedDNS.construct at hcons
    split at hcons
    · cases hcons
    · cases hcons
      rfl
  obtain ⟨hi', hlen'⟩ := afterAll_inv hi hlen hmax (ops.map NamedOp.erase)
  refine ⟨dns, hcons, (performAll_refines hs hi hlen hmax hfuel hc).mono ?_⟩
  rintro answers m' ⟨hanswers, l, hs'⟩
  refine ⟨hanswers, ⟨l, hs'⟩, ensures_destruct hs' hi'.linked ?_⟩
  rw [hlen']
  exact hi'.config.2.2 ▸ hi'.slotted.use_le

/-- A full store, an eviction, and a find whose node cannot be allocated. -/
def opsTwo : List NamedOp :=
  [.find [97] ⟨true, true⟩, .find [98] ⟨true, true⟩, .lookup 0#32, .find [99] ⟨true, true⟩,
    .find [100] ⟨false, false⟩, .lookup 1#32]

theorem store_refines_two : ∃ dns,
    HevMappedDNS.construct 0xF0000000#32 0xF0000000#32 2 = some dns ∧
      (performAll 8 opsTwo).Ensures
        { use := 0, max := 2, net := 0xF0000000#32, mask := 0xF0000000#32, tree := ⟨none, fun _ => none⟩,
          list := ⟨none, none, fun _ => none⟩, records := fun _ => none, heap := fun _ => none, brk := 0 }
        fun answers m' => answers = dns.answers (opsTwo.map NamedOp.erase) ∧
          (∃ l, Sim m' (dns.afterAll (opsTwo.map NamedOp.erase)) l) ∧
          (hev_mapped_dns_destruct 2).Ensures m' fun _ m'' => ∀ p, m''.heap p = none := by
  refine store_refines rfl (by decide) (by decide) _ ?_
  intro op hop
  simp only [opsTwo, List.mem_cons, List.not_mem_nil, or_false] at hop
  rcases hop with rfl | rfl | rfl | rfl | rfl | rfl <;> simp [NamedOp.Copies]

/-- The name at the root is compared first: where it is `NULL`, every find faults. -/
theorem find_null_faults {x : Ptr} {i : Nat} (hroot : m.tree.root = some x) (hx : m.heap x = some ⟨none, i⟩)
    (fuel : Nat) (name : Name) (alloc : Allocation) : hev_mapped_dns_find fuel name alloc m = none := by
  have hdescend : descend (fun p => (m.heap p).bind fun node => node.name.map (strcmp · name)) fuel none
      .left (some x) m.tree = none := by
    cases fuel with
    | zero => rfl
    | succ fuel =>
      show (deref ((m.heap x).bind fun node => node.name.map (strcmp · name)) >>= _) m.tree = none
      rw [hx]
      rfl
  have htree : onTree (descend (fun p => (m.heap p).bind fun node => node.name.map (strcmp · name)) fuel none
      .left m.tree.root) m = none := by
    rw [hroot, onTree, Code.on, hdescend]
    rfl
  unfold hev_mapped_dns_find
  show Option.bind (onTree (descend (fun p => (m.heap p).bind fun node => node.name.map (strcmp · name))
      fuel none .left m.tree.root) m) _ = none
  rw [htree]
  rfl

/-- A store whose first name could not be copied answers, and then faults at every find. -/
theorem uncopied_faults (hm : hev_mapped_dns_construct net mask (max + 1) = some m) (name : Name) :
    ∃ m', hev_mapped_dns_find (fuel + 2) name ⟨true, false⟩ m = some (some 0, m') ∧
      ∀ fuel name alloc, hev_mapped_dns_find fuel name alloc m' = none := by
  unfold hev_mapped_dns_construct at hm
  split at hm
  · cases hm
  · cases hm
    exact ⟨_, rfl, find_null_faults (x := 0) (i := 0) rfl rfl⟩

end Memory

end XTunnel.MappedDns
