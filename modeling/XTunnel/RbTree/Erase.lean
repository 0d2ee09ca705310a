import XTunnel.RbTree.Rebalance

/-! `hev_rbtree_erase` removes a node as `RedBlack.remove` does. -/
namespace XTunnel.RbTree

open RedBlack Code HevRBTreeNode Spine ColorTree

/-- The node above a position, or the one that the path ends at. -/
def topOr (up : Option Ptr) : Spine Ptr → Option Ptr
  | [] => up
  | f :: _ => some f.label

/-- The cells of a path below `up`, with the child `p` at its position; `p'` is the child of `up`. -/
def RepSeg (mem : Ptr → Option HevRBTreeNode) : Option Ptr → Spine Ptr → Option Ptr → Option Ptr → Prop
  | p, [], _, p' => p = p'
  | p, f :: fs, up, p' =>
    mem f.label = some (cell f.side (topOr up fs) f.color p (root f.sibling)) ∧
      Rep mem (some f.label) f.sibling ∧ RepSeg mem (some f.label) fs up p'

variable {c d : Color} {up w p p' : Option Ptr} {x y z : Ptr} {l r t child : ColorTree Ptr}
  {f : Frame Ptr} {fs q : Spine Ptr} {h h' : HevRBTree} {n : Nat} {m : HevRBTreeNode}
  {mem mem' : Ptr → Option HevRBTreeNode} {R : Unit → HevRBTree → Prop} {β : Type}

theorem top_append : top (q ++ fs) = topOr (top fs) q := by cases q <;> rfl

theorem labels_append : labels (q ++ fs) = labels q ++ labels fs := List.flatMap_append

theorem repPath_append : RepPath h p (q ++ fs) ↔
    ∃ p', RepSeg h.mem p q (top fs) p' ∧ RepPath h p' fs := by
  induction q generalizing p with
  | nil => exact ⟨fun hp => ⟨p, rfl, hp⟩, fun ⟨_, he, hp⟩ => he ▸ hp⟩
  | cons f q ih =>
    rw [List.cons_append, RepPath, ih, top_append]
    constructor
    · rintro ⟨hf, hs, p', hq, hp⟩
      exact ⟨p', ⟨hf, hs, hq⟩, hp⟩
    · rintro ⟨p', ⟨hf, hs, hq⟩, hp⟩
      exact ⟨hf, hs, p', hq, hp⟩

theorem RepSeg.congr (hq : RepSeg mem p q up p') (hs : ∀ a ∈ labels q, mem' a = mem a) :
    RepSeg mem' p q up p' := by
  induction q generalizing p with
  | nil => exact hq
  | cons f q ih =>
    obtain ⟨hf, hsib, hq⟩ := hq
    refine ⟨(hs _ (by simp)).trans hf, hsib.congr fun a ha => hs a (by simp [ha]), ih hq ?_⟩
    exact fun a ha => hs a (by simp [ha])

theorem mem_first (hr : first [] r = some (q, d, y, child)) :
    z ∈ r.toList ↔ z = y ∨ z ∈ child.toList ∨ z ∈ labels q := by
  have hplug : plug q (node d leaf y child) = r := plug_first hr
  rw [← hplug, mem_plug]
  simp [toList, or_assoc]

/-- A path with a node goes below another parent when the topmost of its nodes does. -/
theorem RepSeg.set_parent (hq : RepSeg h.mem p q up p') (hne : q ≠ []) (hn : (labels q).Nodup) :
    ∃ x m, p' = some x ∧ x ∈ labels q ∧ h.mem x = some m ∧
      RepSeg (h.write x { m with parent := w }).mem p q w p' := by
  induction q generalizing p with
  | nil => exact (hne rfl).elim
  | cons f q ih =>
    obtain ⟨hf, hsib, hq⟩ := hq
    simp only [labels_cons, List.nodup_cons, List.nodup_append, List.mem_append, not_or] at hn
    cases q with
    | nil =>
      obtain rfl : some f.label = p' := hq
      refine ⟨f.label, _, rfl, by simp, hf, ?_, hsib.congr fun a ha => write_mem_ne (by grind), rfl⟩
      rw [write_mem_self, with_parent_cell]
      rfl
    | cons g q =>
      obtain ⟨x, m, hx, hmem, hm, hq'⟩ := ih hq (List.cons_ne_nil _ _) hn.2.2.1
      refine ⟨x, m, hx, by grind, hm, ?_, hsib.congr fun a ha => write_mem_ne ?_, hq'⟩
      · rw [write_mem_ne (by grind)]
        exact hf
      · grind

/-- The descent ends at the first node below. -/
theorem ensures_leftmost {fuel : Nat} (hh : Holds h (f :: fs) t) (hs : f.side = .left)
    (hx : root t = some x) (hfuel : t.height ≤ fuel) :
    (leftmost fuel f.label x).Ensures h fun res h' => h' = h ∧ ∃ q d child,
      first (f :: fs) t = some (q, d, res.2, child) ∧ top q = some res.1 := by
  induction fuel generalizing f fs t x with
  | zero =>
    cases t with
    | leaf => cases hx
    | node => simp [ColorTree.height] at hfuel
  | succ fuel ih =>
    cases t with
    | leaf => cases hx
    | node c l y r =>
      cases hx
      refine child_bind hh.tree.1 ?_
      cases l with
      | leaf => exact ensures_pure ⟨rfl, _, _, _, rfl, rfl⟩
      | node d a z b =>
        have hh' : Holds h (⟨.left, c, x, r⟩ :: f :: fs) (node d a z b) := holds_fill.mp hh
        refine ih hh' rfl rfl ?_
        simp only [ColorTree.height] at hfuel ⊢
        omega

/-- The successor `y` has left its place to `child`, and the path `q` to that place goes below `y`. -/
structure Taken (q : Spine Ptr) (d : Color) (y : Ptr) (child : ColorTree Ptr) (h : HevRBTree) : Prop where
  cell : ∃ yp p', h.mem y = some ⟨yp, d, p', none⟩ ∧ RepSeg h.mem (root child) q (some y) p'
  child : Rep h.mem (some y) child

theorem ensures_takeSuccessor {fuel : Nat} (hh : Holds h (⟨.right, c, x, l⟩ :: fs) r)
    (hz : root r = some z) (hfirst : first [] r = some (q, d, y, child)) (hfuel : r.height ≤ fuel) :
    (takeSuccessor fuel z).Ensures h fun res h' => Taken q d y child h' ∧
      Same r.toList h h' ∧ h'.root = h.root ∧ topOr (some y) q = some res.1 ∧
        res.2.1 = y ∧ res.2.2 = root child := by
  cases r with
  | leaf => cases hz
  | node c' l' z' r' =>
    cases l' with
    | leaf =>
      cases hz
      cases hfirst
      obtain ⟨hy, -, hchild⟩ := hh.tree
      exact child_bind hy (child_bind hy
        (ensures_pure ⟨⟨⟨_, _, hy, rfl⟩, hchild⟩, Same.refl, rfl, rfl, rfl, rfl⟩))
    | node e a w b =>
      obtain rfl : z' = z := by simpa [root] using hz
      refine child_bind hh.tree.1 ?_
      have hh' : Holds h (⟨.left, c', z', r'⟩ :: ⟨.right, c, x, l⟩ :: fs) (node e a w b) :=
        holds_fill.mp hh
      have hfuel' : (node e a w b).height ≤ fuel := by
        simp only [ColorTree.height] at hfuel ⊢
        omega
      refine (ensures_leftmost hh' rfl rfl hfuel').seq fun res h₁ hres => ?_
      obtain ⟨v, y'⟩ := res
      obtain ⟨rfl, q', d', child', hfirst', htop⟩ := hres
      have hfirst'' := first_append hfirst (⟨.right, c, x, l⟩ :: fs)
      obtain ⟨rfl, rfl, rfl, rfl⟩ : q' = q ++ ⟨.right, c, x, l⟩ :: fs ∧ d' = d ∧ y' = y ∧
          child' = child := by
        have := hfirst'.symm.trans hfirst''
        simpa using this
      obtain ⟨g, gs, rfl, hg⟩ : ∃ g gs, q = g :: gs ∧ g.side = .left := by
        obtain ⟨q', rfl, hq⟩ := first_left (p := [⟨.left, c', z', r'⟩]) hfirst
        cases q' with
        | nil => exact ⟨_, _, rfl, rfl⟩
        | cons g q' => exact ⟨g, _, rfl, hq g List.mem_cons_self⟩
      obtain rfl : g.label = v := by simpa [top] using htop
      have hh₂ : Holds h₁ ((g :: gs) ++ ⟨.right, c, x, l⟩ :: fs) (node d' leaf y' child') := by
        rw [← holds_whole, plug_first hfirst', holds_whole]
        exact hh'
      obtain ⟨p', ⟨hgc, hgs, hseg⟩, hp⟩ := repPath_append.mp hh₂.path
      obtain ⟨hyc, -, hchild⟩ := hh₂.tree
      obtain rfl : p' = some z' := by
        have := hp.1.symm.trans hh.path.1
        simpa [cell, root] using this
      have hn := hh₂.nodup
      simp only [toList, List.nil_append, labels_append, labels_cons, List.nodup_cons,
        List.nodup_append, List.mem_cons, List.mem_append, not_or] at hn
      rw [hg] at hgc
      refine child_bind hyc (modify_bind hgc (modify_bind ((write_mem_ne ?_).trans hyc) ?_))
      · grind
      have hseg₃ : ∀ m, RepSeg ((h₁.write g.label (cell .left (topOr (some x) gs) g.color (root child')
          (root g.sibling))).write y' m).mem (root child') (g :: gs) (some x) (some z') := by
        refine fun m => ⟨?_, hgs.congr fun q hq => ?_, hseg.congr fun q hq => ?_⟩
        · rw [write_mem_ne (by grind), write_mem_self, hg]
        · rw [write_mem_ne (by grind), write_mem_ne (by grind)]
        · rw [write_mem_ne (by grind), write_mem_ne (by grind)]
      obtain ⟨w', m, hw, hmem, hm, hseg₄⟩ := RepSeg.set_parent (w := some y') (hseg₃ _)
        (List.cons_ne_nil _ _) (by
          simp only [labels_cons, List.nodup_cons, List.nodup_append, List.mem_append]
          grind)
      obtain rfl : z' = w' := by simpa using hw
      rw [labels_cons] at hmem
      refine modify_bind hm (ensures_pure ⟨⟨⟨some g.label, _, ?_, hseg₄⟩,
        hchild.congr fun q hq => ?_⟩, ?_, rfl, rfl, rfl, rfl⟩)
      · rw [write_mem_ne (by grind), write_mem_self]
        rfl
      · rw [write_mem_ne (by grind), write_mem_ne (by grind), write_mem_ne (by grind)]
      · have hmem' := fun q => mem_first (z := q) hfirst
        exact ((Same.refl.write (by grind)).write (by grind)).write (by grind)

/-- What `_hev_rbtree_erase` leaves: the tree `whole`, or one that is to be repaired above a missing
node. -/
def AfterNode (whole : ColorTree Ptr) (n : Nat) (a : List Ptr) (h : HevRBTree) (rebalance : Option Ptr)
    (h' : HevRBTree) : Prop :=
  Same a h h' ∧
    match rebalance with
    | none => Holds h' [] whole
    | some y => ∃ q e, Holds h' q leaf ∧ whole = eraseFix q leaf ∧ top q = some y ∧ Hole q e 1 ∧
        labels q ⊆ a ∧ q.length ≤ n

variable {a : List Ptr} {e : Color}

theorem afterNode_plug (hs : Same a h h') (hh : Holds h' q (t.paint d))
    (hne : t ≠ leaf ∨ d = .red) : AfterNode (splice q d t) n a h none h' := by
  refine ⟨hs, ?_⟩
  have hsplice : splice q d t = plug q (t.paint d) := by
    rcases hne with hne | rfl
    · cases t with
      | leaf => exact (hne rfl).elim
      | node => cases d <;> rfl
    · rfl
  rw [hsplice]
  exact holds_whole.mpr hh

theorem afterNode_leaf (hs : Same a h h') (hh : Holds h' q leaf) (hp : Hole q e 1)
    (ha : labels q ⊆ a) (hn : q.length ≤ n) :
    AfterNode (splice q .black leaf) n a h (top q) h' := by
  cases q with
  | nil => exact ⟨hs, hh⟩
  | cons f q => exact ⟨hs, f :: q, e, hh, rfl, rfl, hp, ha, hn⟩

/-- Below a node without children there is room for a tree of black height one. -/
theorem hole_one (hb : IsRedBlack (plug q (node .black leaf x leaf))) : ∃ e, Hole q e 1 := by
  obtain ⟨m, hb⟩ := hb
  obtain ⟨c, e, n, ht, hp, -⟩ := Hole.of_plug hb
  cases ht with
  | black hl hr =>
    cases hl
    exact ⟨e, hp⟩

/-- A node with an empty side goes, and the other one takes its place. -/
theorem ensures_eraseNode_single {fuel : Nat} (hh : Holds h fs (node c l x r))
    (hb : IsRedBlack (plug fs (node c l x r))) (hlr : l = leaf ∨ r = leaf) :
    (eraseNode fuel x).Ensures h (AfterNode (remove fs c l r) (plug fs (node c l x r)).height
      ((node c l x r).toList ++ labels fs) h) := by
  obtain ⟨hpath, ⟨hx, hl, hr⟩, hn⟩ := hh
  have hn' : x ∉ labels fs ∧ (labels fs).Nodup := by
    simp only [toList, List.append_assoc, List.cons_append, List.nodup_append, List.nodup_cons,
      List.mem_append, not_or] at hn
    exact ⟨hn.2.1.1.2, hn.2.1.2.2.1⟩
  refine child_bind hx (child_bind hx (load_bind hx ?_))
  cases l with
  | leaf =>
    cases r with
    | leaf =>
      refine Ensures.bind (ensures_change_child hpath hn'.1 hn'.2 fun h' hs hp' => ensures_pure ?_)
      have hh' : Holds h' fs leaf := ⟨hp', trivial, by simpa [toList] using hn'.2⟩
      have hs' := hs.mono (List.subset_append_right (node c leaf x leaf).toList (labels fs))
      cases c with
      | red => exact afterNode_plug (t := leaf) hs' hh' (.inr rfl)
      | black =>
        obtain ⟨e, hp⟩ := hole_one hb
        exact afterNode_leaf hs' hh' hp (List.subset_append_right _ _)
          (Nat.le_trans (Nat.le_add_right _ _) (length_le_height fs _))
    | node d a y b =>
      have hn'' := hn
      simp only [toList, List.append_assoc, List.cons_append, List.nil_append, List.nodup_append,
        List.nodup_cons, List.mem_append, List.mem_cons, not_or] at hn''
      refine Ensures.bind (ensures_change_child hpath hn'.1 hn'.2 fun h₁ hs₁ hp₁ => ?_)
      show (setParentColor? (root (node d a y b)) (top fs) c >>= _).Ensures _ _
      refine setParentColor?_bind (hr.congr fun q hq => hs₁ q ?_) ?_ fun h₂ hroot₂ hs₂ ht₂ =>
        ensures_pure ?_
      · simp only [toList, List.mem_append, List.mem_cons] at hq
        grind
      · simp only [toList, List.nodup_append, List.nodup_cons, List.mem_cons]
        grind
      · have hh₂ : Holds h₂ fs ((node d a y b).paint c) := by
          refine ⟨hp₁.congr hroot₂ fun q hq => hs₂ q ?_, ht₂, ?_⟩
          · simp only [toList, List.mem_append, List.mem_cons]
            grind
          · simp only [toList_paint, toList, List.append_assoc, List.cons_append, List.nodup_append,
              List.nodup_cons, List.mem_cons, List.mem_append]
            grind
        refine afterNode_plug ((hs₁.mono ?_).trans (hs₂.mono ?_)) hh₂ (.inl (by simp))
        · exact List.subset_append_right _ _
        · intro q hq
          simp [toList] at hq ⊢
          tauto
  | node d a y b =>
    obtain rfl : r = leaf := by simpa using hlr
    have hn'' := hn
    simp only [toList, List.append_assoc, List.cons_append, List.nil_append, List.nodup_append,
      List.nodup_cons, List.mem_append, List.mem_cons, not_or] at hn''
    show (setParentColor? (root (node d a y b)) (top fs) c >>= _).Ensures _ _
    refine setParentColor?_bind hl ?_ fun h₁ hroot₁ hs₁ ht₁ => ?_
    · simp only [toList, List.nodup_append, List.nodup_cons, List.mem_cons]
      grind
    refine Ensures.bind (ensures_change_child (hpath.congr hroot₁ fun q hq => hs₁ q ?_) hn'.1 hn'.2
      fun h₂ hs₂ hp₂ => ensures_pure ?_)
    · simp only [toList, List.mem_append, List.mem_cons]
      grind
    · have hh₂ : Holds h₂ fs ((node d a y b).paint c) := by
        refine ⟨hp₂, ht₁.congr fun q hq => hs₂ q ?_, ?_⟩
        · simp only [toList_paint, toList, List.mem_append, List.mem_cons] at hq
          grind
        · simp only [toList_paint, toList, List.append_assoc, List.cons_append, List.nodup_append,
            List.nodup_cons, List.mem_cons, List.mem_append]
          grind
      refine afterNode_plug ((hs₁.mono ?_).trans (hs₂.mono ?_)) hh₂ (.inl (by simp))
      · intro q hq
        simp [toList] at hq ⊢
        tauto
      · exact List.subset_append_right _ _

/-- The successor is a red node without children, or a black one. -/
theorem successor_black (hb : IsRedBlack (plug q (node d leaf y child))) (hne : child ≠ leaf) :
    d = .black := by
  obtain ⟨m, hb⟩ := hb
  obtain ⟨c, e, n, ht, -, -⟩ := Hole.of_plug hb
  cases ht with
  | red hl hr =>
    cases hl
    cases hr
    exact (hne rfl).elim
  | black => rfl

/-- The successor of a node with two children takes its place. -/
theorem ensures_eraseNode_two {fuel : Nat} (hh : Holds h fs (node c l x r))
    (hb : IsRedBlack (plug fs (node c l x r))) (hl : l ≠ leaf)
    (hfirst : first [] r = some (q, d, y, child)) (hfuel : r.height ≤ fuel) :
    (eraseNode fuel x).Ensures h (AfterNode (remove fs c l r) (plug fs (node c l x r)).height
      ((node c l x r).toList ++ labels fs) h) := by
  obtain ⟨z, hz⟩ : ∃ z, root r = some z := by
    cases r with
    | leaf => cases hfirst
    | node e a z b => exact ⟨z, rfl⟩
  obtain ⟨w, hw⟩ : ∃ w, root l = some w := by
    cases l with
    | leaf => exact (hl rfl).elim
    | node e a z b => exact ⟨z, rfl⟩
  have hh' : Holds h (⟨.right, c, x, l⟩ :: fs) r := holds_fill.mp hh
  have hb' : IsRedBlack (plug (q ++ ⟨.right, c, y, l⟩ :: fs) (node d leaf y child)) := by
    rw [plug_append, plug_first hfirst]
    exact hb.relabel
  have hmem := fun z => mem_first (z := z) hfirst
  rw [remove_two hl hfirst]
  obtain ⟨hpath, ⟨hx, hrl, hrr⟩, hn⟩ := hh
  refine child_bind hx (child_bind hx (load_bind hx ?_))
  simp only [HevRBTreeNode.get]
  rw [hz, hw]
  refine (ensures_takeSuccessor hh' hz hfirst hfuel).seq fun res h₁ hres => ?_
  obtain ⟨v, y', c2⟩ := res
  obtain ⟨⟨⟨yp, p', hy, hseg⟩, hchild⟩, hs₁, hroot₁, hv, rfl, rfl⟩ := hres
  have hnd : (toList (node d leaf y' child) ++ labels (q ++ ⟨.right, c, x, l⟩ :: fs)).Nodup := by
    have hh₂ : Holds h (q ++ ⟨.right, c, x, l⟩ :: fs) (node d leaf y' child) := by
      rw [← holds_whole, plug_first (first_append hfirst _), holds_whole]
      exact hh'
    exact hh₂.nodup
  simp only [toList, List.nil_append, labels_append, labels_cons, List.nodup_cons,
    List.nodup_append, List.mem_cons, List.mem_append, not_or] at hnd
  have hsub : ∀ z, z ∈ (node c l x r).toList ++ labels fs ↔ z = x ∨ z ∈ l.toList ∨ z = y' ∨
      z ∈ child.toList ∨ z ∈ labels q ∨ z ∈ labels fs := by
    intro z
    simp only [toList, List.mem_append, List.mem_cons, hmem]
    tauto
  refine modify_bind hy ?_
  simp only [HevRBTreeNode.set]
  show (setParent? (some w) (some y') >>= _).Ensures _ _
  rw [← hw]
  have hs₂ : ∀ m, Same (y' :: (child.toList ++ labels q)) h (h₁.write y' m) := fun m =>
    (hs₁.mono fun z hz => by have := (hmem z).mp hz; grind).trans (Same.refl.write (by simp))
  refine setParent?_bind (hrl.congr fun z hz => hs₂ _ z (by grind)) (by grind)
    fun h₃ hroot₃ hs₃ hl₃ => ?_
  have hs₃' : Same (y' :: (child.toList ++ (labels q ++ l.toList))) h h₃ :=
    ((hs₂ _).mono (by grind)).trans (hs₃.mono (by grind))
  have hx₃ : h₃.mem x = some ⟨top fs, c, root r, root l⟩ := by
    rw [hs₃' x (by grind)]
    exact hx
  have hp₃ : RepPath h₃ (some x) fs := hpath.congr (hroot₃.trans hroot₁) fun z hz => hs₃' z (by grind)
  refine load_bind hx₃ (Ensures.bind (ensures_change_child hp₃ (by grind) (by grind)
    fun h₄ hs₄ hp₄ => ?_))
  have hy₄ : h₄.mem y' = some ⟨yp, d, p', root l⟩ := by
    rw [hs₄ y' (by grind), hs₃ y' (by grind), write_mem_self]
  have hchild₄ : Rep h₄.mem (some y') child := hchild.congr fun z hz => by
    rw [hs₄ z (by grind), hs₃ z (by grind), write_mem_ne (by grind)]
  have hseg₄ : RepSeg h₄.mem (root child) q (some y') p' := hseg.congr fun z hz => by
    rw [hs₄ z (by grind), hs₃ z (by grind), write_mem_ne (by grind)]
  -- the end is one for both values of `child2`
  have hfin : ∀ h₅, h₅.root = h₄.root → Same child.toList h₄ h₅ →
      Rep h₅.mem (some v) (child.paint .black) →
      Same ((node c l x r).toList ++ labels fs) h (h₅.write y' ⟨top fs, c, p', root l⟩) ∧
        Holds (h₅.write y' ⟨top fs, c, p', root l⟩) (q ++ ⟨.right, c, y', l⟩ :: fs)
          (child.paint .black) := by
    intro h₅ hroot₅ hs₅ hchild₅
    have hs₆ : Same (y' :: child.toList) h₄ (h₅.write y' ⟨top fs, c, p', root l⟩) :=
      (hs₅.mono (by grind)).trans (Same.refl.write (by simp))
    refine ⟨((hs₃'.mono fun z hz => (hsub z).mpr ?_).trans (hs₄.mono (List.subset_append_right _ _))).trans
      (hs₆.mono fun z hz => (hsub z).mpr ?_), ?_, ?_, ?_⟩
    · grind
    · grind
    · rw [root_paint]
      refine repPath_append.mpr ⟨p', hseg₄.congr fun z hz => hs₆ z (by grind), write_mem_self, ?_, ?_⟩
      · exact hl₃.congr fun z hz => by rw [hs₆ z (by grind), hs₄ z (by grind)]
      · exact hp₄.congr hroot₅ fun z hz => hs₆ z (by grind)
    · rw [top_append]
      show Rep _ (topOr (some y') q) _
      rw [hv]
      exact hchild₅.congr fun z hz => write_mem_ne (by grind)
    · simp only [toList_paint, labels_append, labels_cons, List.nodup_append, List.nodup_cons,
        List.mem_append, List.mem_cons]
      grind
  cases child with
  | leaf =>
    obtain ⟨hs, hh⟩ := hfin h₄ rfl Same.refl trivial
    refine is_black_bind hy₄ (modify_bind hy₄ (ensures_pure ?_))
    cases d with
    | red => exact afterNode_plug (t := leaf) hs hh (.inr rfl)
    | black =>
      obtain ⟨e, hp⟩ := hole_one hb'
      have hlen : (q ++ ⟨.right, c, y', l⟩ :: fs).length ≤ (plug fs (node c l x r)).height := by
        have hle := length_le_height (q ++ ⟨.right, c, y', l⟩ :: fs) (node .black leaf y' leaf)
        rw [plug_append, plug_first hfirst] at hle
        refine Nat.le_trans (Nat.le_add_right _ _) (Nat.le_trans hle (Nat.le_of_eq ?_))
        exact height_plug_congr fs (t := node c l y' r) rfl
      have hres := afterNode_leaf hs hh hp (fun z hz => (hsub z).mpr (by
        simp only [labels_append, labels_cons, List.mem_append, List.mem_cons] at hz
        tauto)) hlen
      rw [top_append] at hres
      exact hv ▸ hres
  | node e a u b =>
    obtain rfl := successor_black hb' (by simp)
    show (setParentColor? (root (node e a u b)) (some v) .black >>= _).Ensures _ _
    refine setParentColor?_bind hchild₄ (by grind) fun h₅ hroot₅ hs₅ hchild₅ => ?_
    obtain ⟨hs, hh⟩ := hfin h₅ hroot₅ hs₅ hchild₅
    refine modify_bind ((hs₅ y' (by grind)).trans hy₄) (ensures_pure ?_)
    exact afterNode_plug hs hh (.inl (by simp))

theorem ensures_eraseNode {fuel : Nat} (hh : Holds h fs (node c l x r))
    (hb : IsRedBlack (plug fs (node c l x r))) (hfuel : r.height ≤ fuel) :
    (eraseNode fuel x).Ensures h (AfterNode (remove fs c l r) (plug fs (node c l x r)).height
      ((node c l x r).toList ++ labels fs) h) := by
  rcases children_cases l r with hl | hr | ⟨hl, q, d, y, child, hfirst⟩
  · exact ensures_eraseNode_single hh hb (.inl hl)
  · exact ensures_eraseNode_single hh hb (.inr hr)
  · exact ensures_eraseNode_two hh hb hl hfirst hfuel

/-- Removing a node of a red-black tree and the repair, with as many turns as the tree has levels. -/
theorem ensures_erase {fuel : Nat} (hh : Holds h fs (node c l x r))
    (hb : IsRedBlack (plug fs (node c l x r))) (hfuel : (plug fs (node c l x r)).height ≤ fuel) :
    (hev_rbtree_erase fuel x).Ensures h fun _ h' =>
      Holds h' [] (remove fs c l r) ∧ Same ((node c l x r).toList ++ labels fs) h h' := by
  have hr : r.height ≤ fuel := by
    have hle := length_le_height fs (node c l x r)
    simp only [ColorTree.height] at hle
    omega
  refine (ensures_eraseNode hh hb hr).seq fun rebalance h₁ hres => ?_
  obtain ⟨hs₁, hres⟩ := hres
  cases rebalance with
  | none => exact ensures_pure ⟨hres, hs₁⟩
  | some y =>
    obtain ⟨q, e, hh₁, hwhole, htop, hp, hq, hlen⟩ := hres
    rw [hwhole]
    exact (ensures_eraseLoop hh₁ htop .leaf hp (Nat.le_trans hlen hfuel)).mono fun _ _ hloop =>
      ⟨hloop.1, hs₁.trans (hloop.2.mono (by simpa [toList] using hq))⟩

end XTunnel.RbTree
