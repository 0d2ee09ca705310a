import XTunnel.RbTree.Node

/-! The memory holds a tree: what the cells of the nodes are, which of them a write leaves alone, and
one rule for each access. -/
namespace XTunnel.RbTree

open RedBlack Code HevRBTreeNode Spine ColorTree

/-- The address of the root of a tree of addresses. -/
def root : ColorTree Ptr → Option Ptr
  | leaf => none
  | node _ _ x _ => some x

/-- The address of the node above a position. -/
def top : Spine Ptr → Option Ptr
  | [] => none
  | f :: _ => some f.label

/-- The cells of a tree below `up`. -/
def Rep (mem : Ptr → Option HevRBTreeNode) : Option Ptr → ColorTree Ptr → Prop
  | _, leaf => True
  | up, node c l x r =>
    mem x = some ⟨up, c, root r, root l⟩ ∧ Rep mem (some x) l ∧ Rep mem (some x) r

/-- The cells above a position, with the child `p` there. -/
def RepPath (h : HevRBTree) : Option Ptr → Spine Ptr → Prop
  | p, [] => h.root = p
  | p, f :: fs =>
    h.mem f.label = some (cell f.side (top fs) f.color p (root f.sibling)) ∧
      Rep h.mem (some f.label) f.sibling ∧ RepPath h (some f.label) fs

/-- The addresses above a position. -/
def labels (p : Spine Ptr) : List Ptr := p.flatMap fun f => f.label :: f.sibling.toList

/-- The tree of the memory is `p` with `t` at its position; every address is there once. -/
structure Holds (h : HevRBTree) (p : Spine Ptr) (t : ColorTree Ptr) : Prop where
  path : RepPath h (root t) p
  tree : Rep h.mem (top p) t
  nodup : (t.toList ++ labels p).Nodup

/-- The memory differs at most in the addresses `l`. -/
def Same (l : List Ptr) (h h' : HevRBTree) : Prop := ∀ q, q ∉ l → h'.mem q = h.mem q

variable {s : Side} {c d : Color} {up p q : Option Ptr} {x y : Ptr} {a b t u : ColorTree Ptr}
  {f g : Frame Ptr} {fs fs' : Spine Ptr} {h h' h'' : HevRBTree} {n : HevRBTreeNode} {l l' : List Ptr}
  {mem mem' : Ptr → Option HevRBTreeNode}

@[simp] theorem root_bin : root (bin s c x a b) = some x := by cases s <;> rfl

@[simp] theorem root_paint : root (t.paint c) = root t := by cases t <;> rfl

theorem rep_bin : Rep mem up (bin s c x a b) ↔
    mem x = some (cell s up c (root a) (root b)) ∧ Rep mem (some x) a ∧ Rep mem (some x) b := by
  cases s
  · rfl
  · exact and_congr_right fun _ => and_comm

@[grind =] theorem mem_bin : y ∈ (bin s c x a b).toList ↔ y = x ∨ y ∈ a.toList ∨ y ∈ b.toList := by
  cases s <;> simp [bin, toList] <;> tauto

@[grind =] theorem nodup_bin : (bin s c x a b).toList.Nodup ↔ x ∉ a.toList ∧ x ∉ b.toList ∧
    a.toList.Nodup ∧ b.toList.Nodup ∧ ∀ y ∈ a.toList, y ∉ b.toList := by
  cases s
  · simp only [bin, toList, List.nodup_append, List.nodup_cons, List.mem_cons]
    grind
  · simp only [bin, toList, List.nodup_append, List.nodup_cons, List.mem_cons]
    grind

@[simp, grind =] theorem labels_cons : labels (f :: fs) = f.label :: (f.sibling.toList ++ labels fs) := rfl

@[simp] theorem labels_nil : labels [] = [] := rfl

@[grind =] theorem mem_plug : y ∈ (plug fs t).toList ↔ y ∈ t.toList ∨ y ∈ labels fs := by
  induction fs generalizing t with
  | nil => simp [plug]
  | cons f fs ih =>
    rw [plug, ih, Frame.fill, mem_bin, labels_cons]
    simp only [List.mem_cons, List.mem_append]
    tauto

theorem root_mem (ht : root t = some x) : x ∈ t.toList := by
  cases t with
  | leaf => cases ht
  | node => cases ht; simp [toList]

theorem Rep.congr (hr : Rep mem up t) (hs : ∀ q ∈ t.toList, mem' q = mem q) : Rep mem' up t := by
  induction t generalizing up with
  | leaf => trivial
  | node c l x r ihl ihr =>
    obtain ⟨hx, hl, hr⟩ := hr
    refine ⟨(hs x (by simp [toList])).trans hx, ihl hl ?_, ihr hr ?_⟩
    · exact fun q hq => hs q (by simp [toList, hq])
    · exact fun q hq => hs q (by simp [toList, hq])

theorem RepPath.congr (hr : RepPath h p fs) (hroot : h'.root = h.root)
    (hs : ∀ q ∈ labels fs, h'.mem q = h.mem q) : RepPath h' p fs := by
  induction fs generalizing p with
  | nil => exact hroot.trans hr
  | cons f fs ih =>
    obtain ⟨hx, hsib, hrest⟩ := hr
    refine ⟨(hs _ (by simp)).trans hx, hsib.congr ?_, ih hrest ?_⟩
    · exact fun q hq => hs q (by simp [hq])
    · exact fun q hq => hs q (by simp [hq])

/-- A node above the position may be seen as part of the tree there. -/
theorem holds_fill : Holds h fs (f.fill t) ↔ Holds h (f :: fs) t := by
  have hmem : ((f.fill t).toList ++ labels fs).Nodup ↔ (t.toList ++ labels (f :: fs)).Nodup := by
    simp only [Frame.fill, List.nodup_append, nodup_bin, mem_bin, labels_cons, List.nodup_cons,
      List.mem_cons, List.mem_append]
    grind
  constructor
  · rintro ⟨hpath, htree, hn⟩
    obtain ⟨hf, ht, hsib⟩ := rep_bin.mp htree
    rw [Frame.fill, root_bin] at hpath
    exact ⟨⟨hf, hsib, hpath⟩, ht, hmem.mp hn⟩
  · rintro ⟨⟨hf, hsib, hpath⟩, ht, hn⟩
    refine ⟨?_, rep_bin.mpr ⟨hf, ht, hsib⟩, hmem.mpr hn⟩
    rw [Frame.fill, root_bin]
    exact hpath

theorem holds_plug : Holds h fs (plug fs' t) ↔ Holds h (fs' ++ fs) t := by
  induction fs' generalizing t with
  | nil => rfl
  | cons f fs' ih => exact ih.trans holds_fill

theorem holds_whole : Holds h [] (plug fs t) ↔ Holds h fs t := by
  rw [holds_plug, List.append_nil]

theorem Same.refl : Same l h h := fun _ _ => rfl

theorem Same.trans (hs : Same l h h') (hs' : Same l h' h'') : Same l h h'' :=
  fun q hq => (hs' q hq).trans (hs q hq)

theorem Same.mono (hs : Same l h h') (hl : l ⊆ l') : Same l' h h' :=
  fun q hq => hs q fun hm => hq (hl hm)

theorem Same.write (hs : Same l h h') (hx : x ∈ l) : Same l h (h'.write x n) := by
  intro q hq
  have hne : q ≠ x := fun he => hq (he ▸ hx)
  exact (Function.update_of_ne hne _ _).trans (hs q hq)

@[simp] theorem write_mem_self : (h.write x n).mem x = some n := Function.update_self _ _ _

theorem write_mem_ne (hne : y ≠ x) : (h.write x n).mem y = h.mem y :=
  Function.update_of_ne hne _ _

@[simp] theorem write_root : (h.write x n).root = h.root := rfl

/-! ### Accesses -/

section

variable {α : Type} {Q : α → HevRBTree → Prop}

theorem load_bind {k : HevRBTreeNode → M α} (hx : h.mem x = some n) (hk : (k n).Ensures h Q) :
    (load x >>= k).Ensures h Q := by
  refine Ensures.bind ⟨n, h, ?_, hk⟩
  rw [load, hx]
  rfl

theorem ensures_modify {R : Unit → HevRBTree → Prop} {e : HevRBTreeNode → HevRBTreeNode}
    (hx : h.mem x = some n) (hR : R () (h.write x (e n))) : (modify x e).Ensures h R := by
  refine ⟨(), h.write x (e n), ?_, hR⟩
  rw [modify, hx]
  rfl

theorem modify_bind {k : Unit → M α} {e : HevRBTreeNode → HevRBTreeNode} (hx : h.mem x = some n)
    (hk : (k ()).Ensures (h.write x (e n)) Q) : (modify x e >>= k).Ensures h Q :=
  Ensures.bind (ensures_modify hx hk)

theorem child_bind {k : Option Ptr → M α} (hx : h.mem x = some n)
    (hk : (k (n.get s)).Ensures h Q) : (child s x >>= k).Ensures h Q :=
  Ensures.bind (load_bind hx (ensures_pure hk))

theorem is_red_bind {k : Bool → M α} (hx : h.mem x = some n)
    (hk : (k (n.color = .red)).Ensures h Q) : (hev_rbtree_node_is_red x >>= k).Ensures h Q :=
  Ensures.bind (load_bind hx (ensures_pure hk))

theorem is_black_bind {k : Bool → M α} (hx : h.mem x = some n)
    (hk : (k (n.color = .black)).Ensures h Q) : (hev_rbtree_node_is_black x >>= k).Ensures h Q :=
  Ensures.bind (load_bind hx (ensures_pure hk))

theorem parent_bind {k : Option Ptr → M α} (hx : h.mem x = some n)
    (hk : (k n.parent).Ensures h Q) : (hev_rbtree_node_parent x >>= k).Ensures h Q :=
  Ensures.bind (load_bind hx (ensures_pure hk))

theorem red_parent_bind {k : Option Ptr → M α} (hx : h.mem x = some n) (hc : n.color = .red)
    (hk : (k n.parent).Ensures h Q) : (hev_rbtree_node_red_parent x >>= k).Ensures h Q := by
  refine Ensures.bind (load_bind hx ?_)
  rw [if_pos hc]
  exact ensures_pure hk

/-- Testing the root of a subtree. -/
theorem isRed?_bind {k : Bool → M α} (ht : Rep h.mem up t)
    (hk : (k (t.color = .red)).Ensures h Q) : (isRed? (root t) >>= k).Ensures h Q := by
  cases t with
  | leaf => exact pure_bind hk
  | node c l x r => exact is_red_bind ht.1 hk

theorem isBlack?_bind {k : Bool → M α} (ht : Rep h.mem up t)
    (hk : (k (t.color = .black)).Ensures h Q) : (isBlack? (root t) >>= k).Ensures h Q := by
  cases t with
  | leaf => exact pure_bind hk
  | node c l x r => exact is_black_bind ht.1 hk

/-- A subtree below another parent, and in another color. -/
theorem setParentColor?_bind {k : Unit → M α} (ht : Rep h.mem up t) (hd : t.toList.Nodup)
    (hk : ∀ h', h'.root = h.root → Same t.toList h h' → Rep h'.mem p (t.paint c) →
      (k ()).Ensures h' Q) : (setParentColor? (root t) p c >>= k).Ensures h Q := by
  cases t with
  | leaf => exact pure_bind (hk h rfl Same.refl trivial)
  | node e l x r =>
    obtain ⟨hx, hl, hr⟩ := ht
    have hd' := nodup_bin (s := .left) (c := e) |>.mp hd
    refine modify_bind hx (hk _ rfl (Same.refl.write (by simp [toList])) ⟨write_mem_self, ?_, ?_⟩)
    · exact hl.congr fun q hq => write_mem_ne fun he => hd'.1 (he ▸ hq)
    · exact hr.congr fun q hq => write_mem_ne fun he => hd'.2.1 (he ▸ hq)

theorem setParent?_bind {k : Unit → M α} (ht : Rep h.mem up t) (hd : t.toList.Nodup)
    (hk : ∀ h', h'.root = h.root → Same t.toList h h' → Rep h'.mem p t → (k ()).Ensures h' Q) :
    (setParent? (root t) p >>= k).Ensures h Q := by
  cases t with
  | leaf => exact pure_bind (hk h rfl Same.refl trivial)
  | node e l x r =>
    obtain ⟨hx, hl, hr⟩ := ht
    have hd' := nodup_bin (s := .left) (c := e) |>.mp hd
    refine modify_bind hx (hk _ rfl (Same.refl.write (by simp [toList])) ⟨write_mem_self, ?_, ?_⟩)
    · exact hl.congr fun q hq => write_mem_ne fun he => hd'.1 (he ▸ hq)
    · exact hr.congr fun q hq => write_mem_ne fun he => hd'.2.1 (he ▸ hq)

/-- The child of the node above a position, or the root, is exchanged. -/
theorem ensures_change_child {R : Unit → HevRBTree → Prop} (hp : RepPath h (some x) fs)
    (hx : x ∉ labels fs) (hd : (labels fs).Nodup)
    (hR : ∀ h', Same (labels fs) h h' → RepPath h' q fs → R () h') :
    (hev_rbtree_change_child x q (top fs)).Ensures h R := by
  cases fs with
  | nil => exact ⟨(), { h with root := q }, rfl, hR _ Same.refl rfl⟩
  | cons f fs =>
    obtain ⟨hf, hsib, hrest⟩ := hp
    have hwrite : ∀ n, n = cell f.side (top fs) f.color q (root f.sibling) →
        R () (h.write f.label n) := by
      rintro n rfl
      simp only [labels_cons, List.nodup_cons, List.mem_append, not_or] at hd
      refine hR _ (Same.refl.write (by simp)) ⟨write_mem_self, hsib.congr ?_, hrest.congr rfl ?_⟩
      · exact fun y hy => write_mem_ne fun he => hd.1.1 (he ▸ hy)
      · exact fun y hy => write_mem_ne fun he => hd.1.2 (he ▸ hy)
    refine child_bind hf ?_
    cases hs : f.side with
    | left =>
      rw [hs] at hf
      simp only [get_cell, reduceIte]
      exact ensures_modify hf (hwrite _ (by rw [hs]; rfl))
    | right =>
      rw [hs] at hf
      have hne : root f.sibling ≠ some x := fun he => hx (by simp [root_mem he])
      show (if root f.sibling = some x then _ else _ : M Unit).Ensures h R
      rw [if_neg hne]
      exact ensures_modify hf (hwrite _ (by rw [hs]; rfl))

/-- `new` takes the place and the color of `old`, which goes below it. -/
theorem ensures_rotate_set_parents {R : Unit → HevRBTree → Prop} {n' : HevRBTreeNode}
    (hp : RepPath h (some x) fs) (hx : h.mem x = some n) (hup : n.parent = top fs)
    (hy : h.mem y = some n') (hne : y ≠ x) (hxl : x ∉ labels fs) (hyl : y ∉ labels fs)
    (hd : (labels fs).Nodup)
    (hR : ∀ h', Same (labels fs) ((h.write y { n' with parent := n.parent, color := n.color }).write x
      { n with parent := some y, color := c }) h' → RepPath h' (some y) fs → R () h') :
    (hev_rbtree_rotate_set_parents x y c).Ensures h R := by
  refine parent_bind hx (load_bind hx (modify_bind hy (modify_bind (n := n) ?_ ?_)))
  · rw [write_mem_ne (Ne.symm hne)]
    exact hx
  · rw [hup]
    refine ensures_change_child (hp.congr rfl ?_) hxl hd ?_
    · intro q hq
      rw [write_mem_ne (ne_of_mem_of_not_mem hq hxl), write_mem_ne (ne_of_mem_of_not_mem hq hyl)]
    · rw [← hup]
      exact hR

end

end XTunnel.RbTree
