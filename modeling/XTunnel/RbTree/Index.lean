import XTunnel.RbTree.Search

/-! The tree as an ordered index of the addresses in it; no operation takes more steps than a
logarithm of their number. -/
namespace XTunnel.RbTree

open RedBlack Code HevRBTreeNode Spine ColorTree

/-- The tree of the memory is red-black; from left to right its addresses are `l`. -/
def Indexes (h : HevRBTree) (l : List Ptr) : Prop :=
  ∃ t, Holds h [] t ∧ IsRedBlack t ∧ t.toList = l

/-- The empty place of a new address: before it are those at which the sought one is behind. -/
def Place (h : HevRBTree) (l : List Ptr) (ord : Ptr → Ordering) (parent : Option Ptr) (s : Side) :
    Prop :=
  ∃ q : Spine Ptr, Holds h q leaf ∧ IsRedBlack (q.plug leaf) ∧ parent = top q ∧ s = link q ∧
    l = q.before ++ q.after ∧ (∀ a ∈ q.before, ord a = .gt) ∧ ∀ b ∈ q.after, ord b = .lt

/-- The levels of a red-black tree with `n` nodes. -/
def levels (n : Nat) : Nat := 2 * Nat.log 2 (n + 1)

variable {s : Side} {x : Ptr} {p : Option Ptr} {l : List Ptr} {h h' : HevRBTree}
  {cmp : Ptr → Option Ordering} {ord : Ptr → Ordering} {R : Ptr → Ptr → Prop} {fuel : Nat}
  {m : HevRBTreeNode}

theorem levels_mono {n k : Nat} (hn : n ≤ k) : levels n ≤ levels k :=
  Nat.mul_le_mul_left 2 (Nat.log_mono_right (Nat.succ_le_succ hn))

theorem indexes_empty : Indexes ⟨none, fun _ => none⟩ [] :=
  ⟨leaf, ⟨rfl, trivial, List.nodup_nil⟩, ⟨0, .leaf⟩, rfl⟩

theorem Indexes.nodup (hi : Indexes h l) : l.Nodup := by
  obtain ⟨t, hh, -, rfl⟩ := hi
  simpa using hh.nodup

/-- Memory outside of the tree does not matter. -/
theorem Indexes.congr (hi : Indexes h l) (hroot : h'.root = h.root)
    (hs : ∀ q ∈ l, h'.mem q = h.mem q) : Indexes h' l := by
  obtain ⟨t, hh, hb, rfl⟩ := hi
  exact ⟨t, ⟨hroot.trans hh.path, hh.tree.congr hs, hh.nodup⟩, hb, rfl⟩

theorem mem_labels_of_leaf {q : Spine Ptr} (hl : l = q.before ++ q.after) : x ∈ labels q ↔ x ∈ l := by
  have hlist : (q.plug leaf).toList = l := by
    rw [toList_plug, hl]
    simp [toList]
  rw [← hlist, mem_plug]
  simp [toList]

theorem Place.congr (hp : Place h l ord p s) (hroot : h'.root = h.root)
    (hs : ∀ q ∈ l, h'.mem q = h.mem q) : Place h' l ord p s := by
  obtain ⟨q, hh, hb, htop, hlink, hl, hbefore, hafter⟩ := hp
  refine ⟨q, ⟨hh.path.congr hroot fun z hz => hs z ?_, trivial, hh.nodup⟩, hb, htop, hlink, hl,
    hbefore, hafter⟩
  exact (mem_labels_of_leaf hl).mp hz

/-- The descent finds the sought address, or the place for it. -/
theorem ensures_search (hi : Indexes h l) (hcut : Cut R ord) (hsort : l.Pairwise R)
    (hcmp : ∀ p ∈ l, cmp p = some (ord p)) (hfuel : levels l.length < fuel) :
    (descend cmp fuel none .left h.root).Ensures h fun res h' => h' = h ∧
      match res with
      | .inl x => x ∈ l ∧ ord x = .eq
      | .inr (p, s) => Place h l ord p s := by
  obtain ⟨t, hh, hb, rfl⟩ := hi
  have hroot : h.root = root t := hh.path
  rw [hroot]
  refine (ensures_descend hh hcmp (Nat.lt_of_le_of_lt hb.height_le hfuel)).mono fun res h' hres => ?_
  obtain ⟨rfl, rfl⟩ := hres
  refine ⟨rfl, ?_⟩
  cases hz : zoom ord [] t with
  | mk q u =>
    have hplug : q.plug u = t := plug_zoom hz
    cases u with
    | leaf =>
      obtain ⟨hl, hbefore, hafter⟩ := zoom_leaf hcut hsort hz
      refine ⟨q, ?_, hplug ▸ hb, rfl, rfl, hl, hbefore, hafter⟩
      rw [← holds_whole, hplug]
      exact hh
    | node c l x r =>
      refine ⟨?_, ord_of_zoom hz⟩
      rw [← hplug, mem_plug]
      exact .inl (by simp [toList])

/-- An address goes to its place. -/
theorem ensures_link (hp : Place h l ord p s) (hx : h.mem x = some m) (hnew : x ∉ l)
    (hfuel : levels l.length < fuel) :
    (hev_rbtree_node_link x p s >>= fun _ => hev_rbtree_insert_color fuel x).Ensures h fun _ h' =>
      Same (x :: l) h h' ∧ ∃ as bs, l = as ++ bs ∧ Indexes h' (as ++ x :: bs) ∧
        (∀ a ∈ as, ord a = .gt) ∧ ∀ b ∈ bs, ord b = .lt := by
  obtain ⟨q, hh, hb, rfl, rfl, hl, hbefore, hafter⟩ := hp
  have hlen : (q.plug leaf).toList.length = l.length := by
    rw [toList_plug, hl]
    simp [toList]
  have hq : q.length < fuel := by
    have hle := length_le_height q leaf
    have hheight := hb.height_le
    rw [hlen] at hheight
    exact Nat.lt_of_le_of_lt (Nat.le_trans (Nat.le_trans (Nat.le_add_right _ _) hle) hheight) hfuel
  refine (ensures_insert hh hb hx (fun hm => hnew ((mem_labels_of_leaf hl).mp hm)) hq).mono ?_
  rintro - h' ⟨hh', hs⟩
  refine ⟨hs.mono fun z hz => ?_, q.before, q.after, hl, ⟨_, hh', ?_, ?_⟩, hbefore, hafter⟩
  · rcases List.mem_cons.mp hz with rfl | hz
    · exact List.mem_cons_self
    · exact List.mem_cons_of_mem _ ((mem_labels_of_leaf hl).mp hz)
  · obtain ⟨n, hb⟩ := hb
    obtain ⟨c, d, k, ht, hp, -⟩ := Hole.of_plug hb
    cases ht with
    | leaf => exact isRedBlack_insertFix (.red .leaf .leaf) hp
  · rw [toList_insertFix, toList_plug]
    simp [toList]

/-- An address goes away. -/
theorem ensures_unlink (hi : Indexes h l) (hx : x ∈ l) (hfuel : levels l.length ≤ fuel) :
    (hev_rbtree_erase fuel x).Ensures h fun _ h' => Indexes h' (l.erase x) ∧ Same l h h' := by
  obtain ⟨t, hh, hb, rfl⟩ := hi
  obtain ⟨q, c, a, b, rfl⟩ := exists_position hx
  have hn := hh.nodup
  have hlist : (q.plug (node c a x b)).toList = (q.before ++ a.toList) ++ x :: (b.toList ++ q.after) := by
    rw [toList_plug]
    simp [toList]
  refine (ensures_erase (holds_whole.mp hh) hb (Nat.le_trans hb.height_le hfuel)).mono ?_
  rintro - h' ⟨hh', hs⟩
  refine ⟨⟨_, hh', isRedBlack_remove hb, ?_⟩, hs.mono fun z hz => ?_⟩
  · have hxa : x ∉ q.before ++ a.toList := by
      rw [labels_nil, List.append_nil, hlist, List.nodup_append] at hn
      exact fun hm => hn.2.2 x hm x List.mem_cons_self rfl
    rw [toList_remove, hlist, List.erase_append_right _ hxa, List.erase_cons_head]
    simp
  · rw [mem_plug]
    exact List.mem_append.mp hz

/-- Linking a node at an empty position and `hev_rbtree_insert_color` leave a red-black tree with the
node there, without a fault, after a logarithmic number of turns; no other memory changes. -/
theorem insert_color_red_black {q : Spine Ptr} (hh : Holds h q leaf) (hb : IsRedBlack (q.plug leaf))
    (hx : (h.mem x).isSome) (hnew : x ∉ labels q)
    (hfuel : levels (q.before ++ q.after).length < fuel) :
    (hev_rbtree_node_link x (top q) (link q) >>= fun _ => hev_rbtree_insert_color fuel x).Ensures h
      fun _ h' => ∃ t, Holds h' [] t ∧ IsRedBlack t ∧ t.toList = q.before ++ x :: q.after ∧
        Same (x :: labels q) h h' := by
  obtain ⟨m, hm⟩ := Option.isSome_iff_exists.mp hx
  have hlist : (q.plug leaf).toList = q.before ++ q.after := by
    rw [toList_plug]
    simp [toList]
  have hlen : q.length < fuel := by
    have hle := length_le_height q leaf
    have hheight := hb.height_le
    rw [hlist] at hheight
    exact Nat.lt_of_le_of_lt (Nat.le_trans (Nat.le_trans (Nat.le_add_right _ _) hle) hheight) hfuel
  refine (ensures_insert hh hb hm hnew hlen).mono fun _ h' hres => ?_
  obtain ⟨hh', hs⟩ := hres
  refine ⟨_, hh', ?_, ?_, hs⟩
  · obtain ⟨n, hb⟩ := hb
    obtain ⟨c, d, k, ht, hp, -⟩ := Hole.of_plug hb
    cases ht with
    | leaf => exact isRedBlack_insertFix (.red .leaf .leaf) hp
  · rw [toList_insertFix, toList_plug]
    simp [toList]

/-- A root with a red node on its left, and a node that is not in the tree. -/
def twoNodes : HevRBTree where
  root := some 1
  mem p := if p = 0 then some ⟨some 1, .red, none, none⟩
    else if p = 1 then some ⟨none, .black, none, some 0⟩
    else if p = 2 then some ⟨none, .red, none, none⟩
    else none

theorem insert_color_red_black_inner :
    (hev_rbtree_node_link 2 (some 0) .right >>= fun _ => hev_rbtree_insert_color 3 2).Ensures twoNodes
      fun _ h' => ∃ t, Holds h' [] t ∧ IsRedBlack t ∧ t.toList = [0, 2, 1] ∧ Same [2, 0, 1] twoNodes h' :=
  insert_color_red_black (q := [⟨.right, .red, 0, leaf⟩, ⟨.left, .black, 1, leaf⟩])
    ⟨⟨rfl, trivial, rfl, trivial, rfl⟩, trivial, by decide⟩ ⟨1, .black (.red .leaf .leaf) .leaf⟩ rfl
    (by decide) (by decide)

/-- `hev_rbtree_erase` leaves a red-black tree with the other nodes in their order, without a fault,
after a logarithmic number of turns; no other memory changes. -/
theorem erase_red_black {q : Spine Ptr} {c : Color} {a b : ColorTree Ptr} (hh : Holds h q (node c a x b))
    (hb : IsRedBlack (q.plug (node c a x b)))
    (hfuel : levels (q.plug (node c a x b)).toList.length ≤ fuel) :
    (hev_rbtree_erase fuel x).Ensures h fun _ h' => ∃ t, Holds h' [] t ∧ IsRedBlack t ∧
      t.toList = q.before ++ a.toList ++ b.toList ++ q.after ∧
        Same ((node c a x b).toList ++ labels q) h h' :=
  (ensures_erase hh hb (Nat.le_trans hb.height_le hfuel)).mono fun _ _ hres =>
    ⟨_, hres.1, isRedBlack_remove hb, toList_remove, hres.2⟩

/-- A root with a black node on each side. -/
def threeNodes : HevRBTree where
  root := some 1
  mem p := if p = 0 then some ⟨some 1, .black, none, none⟩
    else if p = 1 then some ⟨none, .black, some 2, some 0⟩
    else if p = 2 then some ⟨some 1, .black, none, none⟩
    else none

theorem erase_red_black_leaf :
    (hev_rbtree_erase 5 0).Ensures threeNodes fun _ h' =>
      ∃ t, Holds h' [] t ∧ IsRedBlack t ∧ t.toList = [1, 2] ∧ Same [0, 1, 2] threeNodes h' :=
  erase_red_black (q := [⟨.left, .black, 1, node .black leaf 2 leaf⟩]) (c := .black) (a := leaf) (b := leaf)
    ⟨⟨rfl, ⟨rfl, trivial, trivial⟩, rfl⟩, ⟨rfl, trivial, trivial⟩, by decide⟩
    ⟨2, .black (.black .leaf .leaf) (.black .leaf .leaf)⟩ (by decide)

end XTunnel.RbTree
