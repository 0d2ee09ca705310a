import XTunnel.RbTree.Index

/-! The walks of hev-rbtree.c visit the nodes in their order. -/
namespace XTunnel.RbTree

open RedBlack Code HevRBTreeNode Spine ColorTree

/-- The labels of a tree in the direction of a side. -/
def seq (s : Side) (t : ColorTree Ptr) : List Ptr :=
  match s with
  | .right => t.toList
  | .left => t.toList.reverse

/-- The labels above a position in the direction of a side. -/
def beyond (s : Side) : Spine Ptr → List Ptr
  | [] => []
  | f :: fs => if f.side = s then beyond s fs else f.label :: seq s f.sibling ++ beyond s fs

variable {s : Side} {c : Color} {up : Option Ptr} {x y : Ptr} {a b l r t : ColorTree Ptr} {f : Frame Ptr}
  {fs : Spine Ptr} {h h' : HevRBTree} {fuel : Nat} {m : HevRBTreeNode}

@[simp] theorem seq_leaf : seq s leaf = [] := by cases s <;> rfl

theorem seq_bin : seq s (bin s.flip c x a b) = seq s a ++ x :: seq s b := by
  cases s <;> simp [seq, bin, Side.flip, toList]

theorem seq_ne_nil (h : t ≠ leaf) : seq s t ≠ [] := by
  obtain ⟨x, a, b, ht⟩ := exists_bin s.flip h
  rw [ht, seq_bin]
  simp

theorem beyond_right : beyond .right fs = fs.after := by
  induction fs with
  | nil => rfl
  | cons f fs ih => cases hs : f.side <;> simp [beyond, after, seq, hs, ih]

theorem beyond_left : beyond .left fs = fs.before.reverse := by
  induction fs with
  | nil => rfl
  | cons f fs ih => cases hs : f.side <;> simp [beyond, before, seq, hs, ih]

/-- Down to the first label of a tree. -/
theorem ensures_outermost (hr : Rep h.mem up t) (hx : root t = some x) (hfuel : t.height ≤ fuel) :
    (outermost s.flip fuel x).Ensures h fun y h' => h' = h ∧ (seq s t).head? = some y := by
  induction fuel generalizing t up x with
  | zero =>
    cases t with
    | leaf => cases hx
    | node => simp [ColorTree.height] at hfuel
  | succ fuel ih =>
    have hne : t ≠ leaf := by
      rintro rfl
      cases hx
    obtain ⟨y, a, b, ht⟩ := exists_bin s.flip hne
    generalize t.color = c at ht
    subst ht
    obtain rfl : y = x := by simpa using hx
    obtain ⟨hc, ha, -⟩ := rep_bin.mp hr
    refine child_bind hc ?_
    rw [get_cell, seq_bin]
    cases hroot : root a with
    | none =>
      cases a with
      | leaf => exact ensures_pure ⟨rfl, by simp⟩
      | node => cases hroot
    | some z =>
      have hea : a ≠ leaf := by
        rintro rfl
        cases hroot
      have hlt : a.height ≤ fuel := by
        have hle : a.height + 1 ≤ (bin s.flip c y a b).height := by
          cases s
          · exact Nat.succ_le_succ (Nat.le_max_right _ _)
          · exact Nat.succ_le_succ (Nat.le_max_left _ _)
        omega
      refine (ih ha hroot hlt).mono fun z h' hres => ⟨hres.1, ?_⟩
      rw [List.head?_append_of_ne_nil _ (seq_ne_nil hea)]
      exact hres.2

/-- Up to the first label that is further in the direction. -/
theorem ensures_ascend (hp : RepPath h (some x) fs) (hx : x ∉ labels fs) (hn : (labels fs).Nodup)
    (hup : (h.mem x).map (·.parent) = some (top fs)) (hfuel : fs.length < fuel) :
    (ascend s fuel x).Ensures h fun y h' => h' = h ∧ y = (beyond s fs).head? := by
  induction fuel generalizing fs x with
  | zero => cases hfuel
  | succ fuel ih =>
    obtain ⟨m, hm, hmp⟩ := Option.map_eq_some_iff.mp hup
    refine parent_bind hm ?_
    rw [hmp]
    cases fs with
    | nil => exact ensures_pure ⟨rfl, rfl⟩
    | cons f fs =>
      obtain ⟨hf, -, hp⟩ := hp
      simp only [labels_cons, List.mem_cons, List.mem_append, not_or] at hx
      simp only [labels_cons, List.nodup_cons, List.nodup_append, List.mem_append, not_or] at hn
      refine child_bind hf ?_
      rw [beyond]
      by_cases hs : f.side = s
      · rw [hs, get_cell, if_pos rfl, if_pos rfl]
        refine ih hp hn.1.2 hn.2.2.1 ?_ (Nat.lt_of_succ_lt_succ hfuel)
        rw [hf]
        simp
      · have hflip : s = f.side.flip := Side.eq_flip_of_ne (Ne.symm hs)
        have hne : root f.sibling ≠ some x := fun he => hx.2.1 (root_mem he)
        rw [hflip, get_cell_flip, if_neg hne, if_neg (Ne.symm (Side.flip_ne f.side))]
        exact ensures_pure ⟨rfl, rfl⟩

theorem ensures_endNode (hh : Holds h [] t) (hfuel : t.height ≤ fuel) :
    (endNode s.flip fuel).Ensures h fun y h' => h' = h ∧ y = (seq s t).head? := by
  have hroot : h.root = root t := hh.path
  refine Ensures.bind ⟨h.root, h, rfl, ?_⟩
  rw [hroot]
  cases ht : t with
  | leaf => exact ensures_pure ⟨rfl, by simp⟩
  | node c l x r =>
    have hx : root t = some x := by rw [ht]; rfl
    refine (ensures_outermost (s := s) hh.tree hx hfuel).seq fun y h' hres => ensures_pure ⟨hres.1, ?_⟩
    rw [← hres.2, ht]

theorem ensures_neighbour (hh : Holds h fs (bin s.flip c x a b))
    (hfuel : (fs.plug (bin s.flip c x a b)).height ≤ fuel) :
    (neighbour s fuel x).Ensures h fun y h' => h' = h ∧ y = (seq s b ++ beyond s fs).head? := by
  obtain ⟨hpath, htree, hn⟩ := hh
  obtain ⟨hx, -, hb⟩ := rep_bin.mp htree
  have hle := length_le_height fs (bin s.flip c x a b)
  have hheight : b.height + 1 ≤ (bin s.flip c x a b).height := by
    cases s
    · exact Nat.succ_le_succ (Nat.le_max_left _ _)
    · exact Nat.succ_le_succ (Nat.le_max_right _ _)
  have hxl : x ∉ labels fs := by
    rw [List.nodup_append] at hn
    exact fun hm => hn.2.2 x (mem_bin.mpr (.inl rfl)) x hm rfl
  have htop : top fs ≠ some x := by
    cases fs with
    | nil => nofun
    | cons f fs =>
      intro he
      cases he
      exact hxl (by simp)
  have hget : (cell s.flip (top fs) c (root a) (root b)).get s = root b := by cases s <;> rfl
  refine Ensures.bind (load_bind hx (ensures_pure ?_))
  simp only [parent_cell, htop, false_and, decide_false, Bool.false_eq_true, reduceIte]
  refine child_bind hx ?_
  rw [hget]
  cases hroot : root b with
  | none =>
    cases b with
    | node => cases hroot
    | leaf =>
      rw [root_bin] at hpath
      refine (ensures_ascend hpath hxl (List.nodup_append.mp hn).2.1 ?_ (by omega)).mono fun y h' hres => ?_
      · rw [hx]
        simp
      · simpa using hres
  | some y =>
    have hne : b ≠ leaf := by
      rintro rfl
      cases hroot
    refine (ensures_outermost (s := s) hb hroot (by omega)).seq fun z h' hres => ensures_pure ⟨hres.1, ?_⟩
    rw [List.head?_append_of_ne_nil _ (seq_ne_nil hne)]
    exact hres.2.symm

/-- A list has one split at an element that it has once. -/
theorem split_unique {as bs cs ds : List Ptr} (hn : (as ++ x :: bs).Nodup)
    (he : as ++ x :: bs = cs ++ x :: ds) : as = cs ∧ bs = ds := by
  have hx : x ∉ as ∧ x ∉ bs := by
    rw [List.nodup_append, List.nodup_cons] at hn
    exact ⟨fun hm => hn.2.2 x hm x List.mem_cons_self rfl, hn.2.1.1⟩
  rcases List.append_eq_append_iff.mp he with ⟨e, rfl, hd⟩ | ⟨e, rfl, hd⟩
  · cases e with
    | nil => exact ⟨by simp, (List.cons.inj hd).2⟩
    | cons y e =>
      obtain ⟨-, rfl⟩ := List.cons.inj hd
      simp at hx
  · cases e with
    | nil => exact ⟨by simp, (List.cons.inj hd).2.symm⟩
    | cons y e =>
      obtain ⟨rfl, -⟩ := List.cons.inj hd
      simp at hx

/-- The position of a node has before and behind it what the order of the tree has. -/
theorem exists_split {as bs : List Ptr} (hi : Indexes h (as ++ x :: bs))
    (hfuel : levels (as ++ x :: bs).length ≤ fuel) : ∃ (q : Spine Ptr) (c : Color) (l r : ColorTree Ptr),
      Holds h q (node c l x r) ∧ (q.plug (node c l x r)).height ≤ fuel ∧
        q.before ++ l.toList = as ∧ r.toList ++ q.after = bs := by
  obtain ⟨t, hh, hb, hl⟩ := hi
  have hheight : t.height ≤ fuel := by
    refine Nat.le_trans hb.height_le ?_
    rw [hl]
    exact hfuel
  have hx : x ∈ t.toList := by simp [hl]
  obtain ⟨q, c, l, r, rfl⟩ := exists_position hx
  have hn := hh.nodup
  rw [labels_nil, List.append_nil] at hn
  have hlist : (q.plug (node c l x r)).toList = (q.before ++ l.toList) ++ x :: (r.toList ++ q.after) := by
    rw [toList_plug]
    simp [toList]
  rw [hlist] at hl hn
  obtain ⟨hbefore, hafter⟩ := split_unique hn hl
  exact ⟨q, c, l, r, holds_whole.mp hh, hheight, hbefore, hafter⟩

theorem ensures_next {as bs : List Ptr} (hi : Indexes h (as ++ x :: bs))
    (hfuel : levels (as ++ x :: bs).length ≤ fuel) :
    (hev_rbtree_node_next fuel x).Ensures h fun y h' => h' = h ∧ y = bs.head? := by
  obtain ⟨q, c, l, r, hh, hheight, -, rfl⟩ := exists_split hi hfuel
  have hnext := ensures_neighbour (s := .right) (c := c) (x := x) (a := l) (b := r) hh hheight
  rw [beyond_right] at hnext
  exact hnext

theorem ensures_prev {as bs : List Ptr} (hi : Indexes h (as ++ x :: bs))
    (hfuel : levels (as ++ x :: bs).length ≤ fuel) :
    (hev_rbtree_node_prev fuel x).Ensures h fun y h' => h' = h ∧ y = as.getLast? := by
  obtain ⟨q, c, l, r, hh, hheight, rfl, -⟩ := exists_split hi hfuel
  have hprev := ensures_neighbour (s := .left) (c := c) (x := x) (a := r) (b := l) hh hheight
  simp only [seq, beyond_left, ← List.reverse_append, List.head?_reverse] at hprev
  exact hprev

/-- The first node, the last one and the neighbours of any node are those of the order of the tree; the
walks do not fault, and take at most as many steps as the tree has levels. -/
theorem walks_in_order {as bs : List Ptr} (hi : Indexes h (as ++ x :: bs))
    (hfuel : levels (as ++ x :: bs).length ≤ fuel) :
    (hev_rbtree_first fuel).Ensures h (fun y h' => h' = h ∧ y = (as ++ x :: bs).head?) ∧
      (hev_rbtree_last fuel).Ensures h (fun y h' => h' = h ∧ y = (as ++ x :: bs).getLast?) ∧
      (hev_rbtree_node_next fuel x).Ensures h (fun y h' => h' = h ∧ y = bs.head?) ∧
      (hev_rbtree_node_prev fuel x).Ensures h (fun y h' => h' = h ∧ y = as.getLast?) := by
  have hnext := ensures_next hi hfuel
  have hprev := ensures_prev hi hfuel
  obtain ⟨t, hh, hb, hl⟩ := hi
  have hheight : t.height ≤ fuel := by
    refine Nat.le_trans hb.height_le ?_
    rw [hl]
    exact hfuel
  refine ⟨?_, ?_, hnext, hprev⟩
  · have hfirst := ensures_endNode (s := .right) hh hheight
    rw [← hl]
    exact hfirst
  · have hlast := ensures_endNode (s := .left) hh hheight
    simp only [seq, List.head?_reverse, hl] at hlast
    exact hlast

theorem walks_in_order_three : (hev_rbtree_first 4).Ensures threeNodes
      (fun y h' => h' = threeNodes ∧ y = some 0) ∧
    (hev_rbtree_last 4).Ensures threeNodes (fun y h' => h' = threeNodes ∧ y = some 2) ∧
    (hev_rbtree_node_next 4 1).Ensures threeNodes (fun y h' => h' = threeNodes ∧ y = some 2) ∧
    (hev_rbtree_node_prev 4 1).Ensures threeNodes (fun y h' => h' = threeNodes ∧ y = some 0) :=
  have hi : Indexes threeNodes ([0] ++ 1 :: [2]) :=
    ⟨node .black (node .black leaf 0 leaf) 1 (node .black leaf 2 leaf),
      ⟨rfl, ⟨rfl, ⟨rfl, trivial, trivial⟩, rfl, trivial, trivial⟩, by decide⟩,
      ⟨2, .black (.black .leaf .leaf) (.black .leaf .leaf)⟩, rfl⟩
  walks_in_order hi (by decide)

/-- A new node takes the place of another one. -/
theorem ensures_replace (hh : Holds h fs (node c l x r)) (hy : h.mem y = some m)
    (hnew : y ∉ (node c l x r).toList ++ labels fs) :
    (hev_rbtree_replace x y).Ensures h fun _ h' => Holds h' fs (node c l y r) ∧
      Same (y :: ((node c l x r).toList ++ labels fs)) h h' := by
  obtain ⟨hpath, ⟨hx, hl, hr⟩, hn⟩ := hh
  simp only [toList, List.append_assoc, List.cons_append, List.nodup_append, List.nodup_cons,
    List.mem_append, List.mem_cons, not_or] at hn hnew
  have hxy : x ≠ y := by grind
  have hx₁ : ∀ n, (h.write y n).mem x = some ⟨top fs, c, root r, root l⟩ := fun n => by
    rw [write_mem_ne hxy, hx]
  refine parent_bind hx (load_bind hx (modify_bind hy (child_bind (hx₁ _) ?_)))
  refine setParent?_bind (t := l) (hl.congr fun q hq => write_mem_ne (by grind)) (by grind)
    fun h₂ hroot₂ hs₂ hl₂ => ?_
  have hx₂ : h₂.mem x = some ⟨top fs, c, root r, root l⟩ := by
    rw [hs₂ x (by grind)]
    exact hx₁ _
  refine child_bind hx₂ ?_
  refine setParent?_bind (t := r) (hr.congr fun q hq => ?_) (by grind) fun h₃ hroot₃ hs₃ hr₃ => ?_
  · rw [hs₂ q (by grind), write_mem_ne (by grind)]
  have hp₃ : RepPath h₃ (some x) fs := hpath.congr (hroot₃.trans hroot₂) fun q hq => by
    rw [hs₃ q (by grind), hs₂ q (by grind), write_mem_ne (by grind)]
  refine ensures_change_child hp₃ (by grind) (by grind) fun h₄ hs₄ hp₄ => ⟨⟨hp₄, ⟨?_, ?_, ?_⟩, ?_⟩, ?_⟩
  · rw [hs₄ y (by grind), hs₃ y (by grind), hs₂ y (by grind), write_mem_self]
  · exact hl₂.congr fun q hq => by rw [hs₄ q (by grind), hs₃ q (by grind)]
  · exact hr₃.congr fun q hq => hs₄ q (by grind)
  · simp only [toList, List.append_assoc, List.cons_append, List.nodup_append, List.nodup_cons,
      List.mem_append, List.mem_cons, not_or]
    grind
  · intro q hq
    simp only [toList, List.append_assoc, List.cons_append, List.mem_append, List.mem_cons, not_or] at hq
    rw [hs₄ q (by grind), hs₃ q (by grind), hs₂ q (by grind), write_mem_ne (by grind)]

end XTunnel.RbTree
