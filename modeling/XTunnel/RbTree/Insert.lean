import XTunnel.RbTree.Shape

/-! `hev_rbtree_insert_color` repairs the tree as `RedBlack.insertFix` does. -/
namespace XTunnel.RbTree

open RedBlack Code HevRBTreeNode Spine ColorTree

variable {s : Side} {c d : Color} {up up' p q : Option Ptr} {x y g : Ptr} {a b t u : ColorTree Ptr}
  {fs : Spine Ptr} {h h' : HevRBTree} {R : Unit → HevRBTree → Prop}

theorem paint_of_color (hc : b.color = c) : b.paint c = b := by rw [← hc, paint_color]

/-- Case 3: `x` goes to the place of `g`. -/
theorem ensures_insertRotate (hg : h.mem g = some (cell s (top fs) c p (root u)))
    (hx : h.mem x = some (cell s up d (root a) (root b))) (ha : Rep h.mem (some x) a)
    (hb : Rep h.mem up' b) (hblack : b.color = .black) (hu : Rep h.mem (some g) u)
    (hp : RepPath h (some g) fs)
    (hn : (g :: x :: (a.toList ++ (b.toList ++ (u.toList ++ labels fs)))).Nodup)
    (hR : ∀ h', Holds h' fs (bin s c x a (bin s .red g b u)) →
      Same (g :: x :: (b.toList ++ labels fs)) h h' → R () h') :
    (insertRotate s g x (root b)).Ensures h R := by
  simp only [List.nodup_cons, List.nodup_append, List.mem_cons, List.mem_append, not_or] at hn
  obtain ⟨⟨hgx, hga, hgb, hgu, hgp⟩, ⟨hxa, hxb, hxu, hxp⟩, hna, ⟨hnb, ⟨hnu, hnp, hup⟩, hbup⟩, habup⟩ := hn
  refine modify_bind hg (modify_bind (n := cell s up d (root a) (root b)) ?_ ?_)
  · rw [write_mem_ne (Ne.symm hgx)]
    exact hx
  simp only [set_cell, set_cell_flip]
  refine setParentColor?_bind (t := b) (hb.congr fun q hq => ?_) hnb fun h₁ hroot hs₁ hb₁ => ?_
  · rw [write_mem_ne (ne_of_mem_of_not_mem hq hxb), write_mem_ne (ne_of_mem_of_not_mem hq hgb)]
  rw [paint_of_color hblack] at hb₁
  have hg₁ : h₁.mem g = some (cell s (top fs) c (root b) (root u)) := by
    rw [hs₁ g hgb, write_mem_ne hgx, write_mem_self]
  have hx₁ : h₁.mem x = some (cell s up d (root a) (some g)) := by
    rw [hs₁ x hxb, write_mem_self]
  have hold : ∀ q, q ≠ g → q ≠ x → q ∉ b.toList → h₁.mem q = h.mem q := by
    intro q hqg hqx hqb
    rw [hs₁ q hqb, write_mem_ne hqx, write_mem_ne hqg]
  have hp₁ : RepPath h₁ (some g) fs := by
    refine hp.congr hroot fun q hq => hold q ?_ ?_ ?_
    · exact ne_of_mem_of_not_mem hq hgp
    · exact ne_of_mem_of_not_mem hq hxp
    · exact fun hqb => hbup q hqb q (Or.inr hq) rfl
  refine ensures_rotate_set_parents hp₁ hg₁ parent_cell hx₁ (Ne.symm hgx) hgp hxp hnp ?_
  simp only [parent_cell, color_cell, with_parent_color_cell]
  intro h₂ hs₂ hp₂
  have hs₃ : Same (g :: x :: labels fs) h₁ h₂ :=
    ((Same.refl.write (by simp)).write (by simp)).trans (hs₂.mono (by grind))
  have hs : Same (g :: x :: (b.toList ++ labels fs)) h h₂ :=
    (((Same.refl.write (by simp)).write (by simp)).trans (hs₁.mono (by grind))).trans
      (hs₃.mono (by grind))
  refine hR h₂ ⟨?_, ?_, ?_⟩ hs
  · rw [root_bin]
    exact hp₂
  · refine rep_bin.mpr ⟨?_, ha.congr fun q hq => hs q ?_,
      rep_bin.mpr ⟨?_, hb₁.congr fun q hq => hs₃ q ?_, hu.congr fun q hq => hs q ?_⟩⟩
    · rw [hs₂ x hxp, write_mem_ne (Ne.symm hgx), write_mem_self, root_bin]
    · grind
    · rw [hs₂ g hgp, write_mem_self]
    · grind
    · grind
  · simp only [List.nodup_append, nodup_bin, mem_bin]
    grind

/-- What one turn leaves: the tree is repaired, or it is to be repaired above `t'`. -/
def AfterTurn (fs : Spine Ptr) (whole : ColorTree Ptr) (l : List Ptr) (h : HevRBTree)
    (r : Option (Ptr × Option Ptr)) (h' : HevRBTree) : Prop :=
  Same l h h' ∧
    match r with
    | none => ∃ t', Holds h' fs t' ∧ whole = plug fs t'
    | some (n, up) => ∃ t', Holds h' fs t' ∧ whole = insertFix fs t' ∧ root t' = some n ∧
        up = top fs ∧ t'.toList ++ labels fs ⊆ l ∧ ∃ m d, Balanced t' .red m ∧ Hole fs d m

variable {f gf : Frame Ptr} {n : Nat}

/-- Case 1: the red nodes below `gf` become black. -/
theorem ensures_insertRecolor (hh : Holds h (f :: gf :: fs) t)
    (hf : f.color = .red) (ht : Balanced t .red n) (hp : Hole (f :: gf :: fs) d n)
    (hu : gf.sibling.color = .red) :
    (insertTurn gf.side x f.label gf.label).Ensures h
      (AfterTurn fs (insertFix (f :: gf :: fs) t) (t.toList ++ labels (f :: gf :: fs)) h) := by
  obtain ⟨⟨hfc, hfs, hgc, hgs, hpath⟩, htree, hn⟩ := hh
  have hbal := Hole.recolor ht hp hf hu
  simp only [labels_cons, List.nodup_cons, List.nodup_append, List.mem_cons, List.mem_append,
    not_or] at hn
  refine child_bind hgc ?_
  rw [get_cell_flip]
  refine isRed?_bind hgs ?_
  simp only [hu, decide_true, reduceIte]
  refine setParentColor?_bind hgs (by grind) fun h₁ hroot₁ hs₁ hu₁ => ?_
  refine modify_bind (n := cell f.side (some gf.label) f.color (root t) (root f.sibling)) ?_ ?_
  · rw [hs₁ _ (by grind)]
    exact hfc
  have hg₁ : h₁.mem gf.label = some (cell gf.side (top fs) gf.color (some f.label) (root gf.sibling)) := by
    rw [hs₁ _ (by grind)]
    exact hgc
  have hg₂ := hg₁
  rw [← write_mem_ne (x := f.label) (by grind)] at hg₂
  refine parent_bind hg₂ (modify_bind hg₂ (ensures_pure ?_))
  rw [parent_cell]
  simp only [with_parent_color_cell]
  have hs₂ : ∀ n n', Same [f.label, gf.label] h₁ ((h₁.write f.label n).write gf.label n') :=
    fun _ _ => (Same.refl.write (by simp)).write (by simp)
  have hs : ∀ n n', Same (f.label :: gf.label :: gf.sibling.toList) h
      ((h₁.write f.label n).write gf.label n') :=
    fun n n' => (hs₁.mono (by grind)).trans ((hs₂ n n').mono (by grind))
  refine ⟨(hs _ _).mono (by grind), _, ⟨?_, ?_, ?_⟩, insertFix_recolor hf hu, by simp, rfl, ?_, _, _, hbal.1,
    hbal.2.choose_spec⟩
  · rw [root_bin]
    exact hpath.congr hroot₁ fun q hq => hs _ _ q (by grind)
  · refine rep_bin.mpr ⟨?_, rep_bin.mpr ⟨?_, ?_, ?_⟩, hu₁.congr fun q hq => hs₂ _ _ q (by grind)⟩
    · rw [write_mem_self, root_bin, root_paint]
    · rw [write_mem_ne (by grind), write_mem_self]
    · exact htree.congr fun q hq => hs _ _ q (by grind)
    · exact hfs.congr fun q hq => hs _ _ q (by grind)
  · simp only [List.nodup_append, nodup_bin, mem_bin, toList_paint]
    grind
  · intro q
    simp only [List.mem_append, mem_bin, toList_paint]
    grind

/-- Case 3, when the node is not between `f` and `gf`. -/
theorem ensures_insertOuter (hh : Holds h (f :: gf :: fs) t) (hroot : root t = some x)
    (hf : f.color = .red) (hfb : f.sibling.color = .black) (hg : gf.color = .black)
    (hu : gf.sibling.color = .black) (hs : f.side = gf.side) :
    (insertTurn gf.side x f.label gf.label).Ensures h
      (AfterTurn fs (insertFix (f :: gf :: fs) t) (t.toList ++ labels (f :: gf :: fs)) h) := by
  obtain ⟨⟨hfc, hfs, hgc, hgs, hpath⟩, htree, hn⟩ := hh
  simp only [labels_cons, List.nodup_cons, List.nodup_append, List.mem_cons, List.mem_append,
    not_or] at hn
  refine child_bind hgc ?_
  rw [get_cell_flip]
  refine isRed?_bind hgs ?_
  simp only [hu, reduceCtorEq, decide_false, Bool.false_eq_true, reduceIte]
  rw [hs] at hfc
  refine child_bind hfc ?_
  have hne : root f.sibling ≠ some x := fun he =>
    hn.2.2 x (root_mem hroot) x (.inr (.inl (root_mem he))) rfl
  rw [get_cell_flip, if_neg hne]
  refine Ensures.bind (ensures_insertRotate (a := t) hgc hfc htree hfs hfb hgs hpath ?_ ?_)
  · simp only [List.nodup_cons, List.nodup_append, List.mem_append, not_or]
    grind
  · intro h' hholds hsame
    rw [hg] at hholds
    exact ensures_pure ⟨hsame.mono (by grind), _, hholds, insertFix_outer hf hu hs⟩

/-- Cases 2 and 3, when it is. -/
theorem ensures_insertInner (hh : Holds h (f :: gf :: fs) t) (hroot : root t = some x)
    (hf : f.color = .red) (ht : Balanced t .red n) (hg : gf.color = .black)
    (hu : gf.sibling.color = .black) (hs : f.side ≠ gf.side) :
    (insertTurn gf.side x f.label gf.label).Ensures h
      (AfterTurn fs (insertFix (f :: gf :: fs) t) (t.toList ++ labels (f :: gf :: fs)) h) := by
  obtain ⟨y, a, b, rfl⟩ := exists_red gf.side ht.color_eq
  obtain rfl : y = x := by simpa using hroot
  obtain ⟨hblacka, hblackb⟩ := balanced_red.mp ht
  obtain ⟨⟨hfc, hfs, hgc, hgs, hpath⟩, htree, hn⟩ := hh
  obtain ⟨hxc, ha, hb⟩ := rep_bin.mp htree
  simp only [labels_cons, List.nodup_cons, List.nodup_append, List.mem_cons, List.mem_append,
    not_or, nodup_bin, mem_bin] at hn
  refine child_bind hgc ?_
  rw [get_cell_flip]
  refine isRed?_bind hgs ?_
  simp only [hu, reduceCtorEq, decide_false, Bool.false_eq_true, reduceIte]
  rw [Side.eq_flip_of_ne hs, cell_flip, root_bin] at hfc
  refine child_bind hfc ?_
  rw [get_cell_flip, if_pos rfl]
  refine child_bind hxc ?_
  rw [get_cell]
  have hyf : y ≠ f.label := by grind
  refine modify_bind hfc (modify_bind ((write_mem_ne hyf).trans hxc) ?_)
  rw [set_cell_flip, set_cell]
  refine setParentColor?_bind (t := a) (ha.congr fun q hq => ?_) (by grind) fun h₁ hroot₁ hs₁ ha₁ => ?_
  · rw [write_mem_ne (by grind), write_mem_ne (by grind)]
  rw [paint_of_color hblacka.color_eq] at ha₁
  have hf₁ : h₁.mem f.label = some (cell gf.side (some gf.label) f.color (root f.sibling) (root a)) := by
    rw [hs₁ _ (by grind), write_mem_ne (by grind), write_mem_self]
    rfl
  have hx₁ : h₁.mem y = some (cell gf.side (some f.label) .red (some f.label) (root b)) := by
    rw [hs₁ _ (by grind), write_mem_self]
    rfl
  refine modify_bind hf₁ (child_bind ((write_mem_ne hyf).trans hx₁) ?_)
  rw [with_parent_color_cell, get_cell_flip]
  have hs₂ : ∀ n, Same [f.label] h₁ (h₁.write f.label n) := fun _ => Same.refl.write (by simp)
  have hs₃ : ∀ n, Same (f.label :: y :: a.toList) h (h₁.write f.label n) := fun n =>
    (((Same.refl.write (by simp)).write (by simp)).trans (hs₁.mono (by grind))).trans
      ((hs₂ n).mono (by grind))
  have hg₃ : ∀ m, (h₁.write f.label m).mem gf.label =
      some (cell gf.side (top fs) gf.color (some f.label) (root gf.sibling)) := fun m => by
    rw [hs₃ m _ (by grind)]
    exact hgc
  have hx₃ : ∀ m, (h₁.write f.label m).mem y = some (cell gf.side (some f.label) .red
      (root (bin gf.side .red f.label f.sibling a)) (root b)) := fun m => by
    rw [hs₂ m _ (by grind), hx₁, root_bin]
  have hfa : Rep (h₁.write f.label (cell gf.side (some y) .red (root f.sibling) (root a))).mem (some y)
      (bin gf.side .red f.label f.sibling a) := by
    refine rep_bin.mpr ⟨write_mem_self, hfs.congr fun q hq => hs₃ _ q ?_,
      ha₁.congr fun q hq => hs₂ _ q ?_⟩
    · grind
    · grind
  have hb₃ : ∀ m, Rep (h₁.write f.label m).mem (some y) b := fun m =>
    hb.congr fun q hq => hs₃ m q (by grind)
  refine Ensures.bind (ensures_insertRotate (hg₃ _) (hx₃ _) hfa (hb₃ _) hblackb.color_eq
    (hgs.congr fun q hq => hs₃ _ q ?_) (hpath.congr hroot₁ fun q hq => hs₃ _ q ?_) ?_ ?_)
  · grind
  · grind
  · simp only [List.nodup_cons, List.nodup_append, List.mem_append, nodup_bin, mem_bin, not_or]
    grind
  · intro h' hholds hsame
    rw [hg] at hholds
    refine ensures_pure ⟨?_, _, hholds, insertFix_inner hf hu hs⟩
    exact ((hs₃ _).mono (by grind)).trans (hsame.mono (by grind))

/-- One turn of the loop is one case of `insertFix`. -/
theorem ensures_insertTurn (hh : Holds h (f :: gf :: fs) t) (hroot : root t = some x)
    (hf : f.color = .red) (ht : Balanced t .red n) (hp : Hole (f :: gf :: fs) d n) :
    (insertTurn gf.side x f.label gf.label).Ensures h
      (AfterTurn fs (insertFix (f :: gf :: fs) t) (t.toList ++ labels (f :: gf :: fs)) h) := by
  by_cases hu : gf.sibling.color = .red
  · exact ensures_insertRecolor hh hf ht hp hu
  · have hu := black_of_not_red hu
    obtain ⟨hfb, hg⟩ : f.sibling.color = .black ∧ gf.color = .black := by
      cases hp with
      | black hf' => rw [hf] at hf'; cases hf'
      | red _ hsib _ hp =>
        cases hp with
        | black hg => exact ⟨hsib.color_eq, hg⟩
    by_cases hs : f.side = gf.side
    · exact ensures_insertOuter hh hroot hf hfb hg hu hs
    · exact ensures_insertInner hh hroot hf ht hg hu hs

/-- The test for the side of a child. -/
theorem side_of_right (hu : q ≠ p) :
    (if p ≠ (cell s up c p q).get .right then Side.left else .right) = s := by
  cases s with
  | left => exact if_pos (Ne.symm hu)
  | right => exact if_neg (fun hne => hne rfl)

theorem ensures_insertLoop {fuel : Nat} (hh : Holds h fs t) (hroot : root t = some x)
    (ht : Balanced t .red n) (hp : Hole fs d n) (hfuel : fs.length < fuel) :
    (insertLoop fuel x (top fs)).Ensures h fun _ h' =>
      Holds h' [] (insertFix fs t) ∧ Same (t.toList ++ labels fs) h h' := by
  induction fuel generalizing fs t x n d h with
  | zero => exact (Nat.not_lt_zero _ hfuel).elim
  | succ fuel ih =>
    match fs with
    | [] =>
      obtain ⟨hpath, htree, hn⟩ := hh
      obtain ⟨y, a, b, rfl⟩ := exists_red .left ht.color_eq
      obtain rfl : y = x := by simpa using hroot
      obtain ⟨hx, ha, hb⟩ := rep_bin.mp htree
      have hn' := nodup_bin.mp (by simpa using hn)
      refine ensures_modify hx ⟨⟨?_, ⟨?_, ?_, ?_⟩, hn⟩, Same.refl.write (by simp [mem_bin])⟩
      · exact hpath
      · rw [write_mem_self, with_parent_color_cell]
        rfl
      · exact ha.congr fun q hq => write_mem_ne (by grind)
      · exact hb.congr fun q hq => write_mem_ne (by grind)
    | f :: fs =>
      refine is_black_bind hh.path.1 ?_
      rw [color_cell]
      by_cases hf : f.color = .black
      · rw [insertFix_black hf]
        simp only [hf, decide_true, reduceIte]
        exact ensures_pure ⟨holds_whole.mpr hh, Same.refl⟩
      · simp only [hf, decide_false, Bool.false_eq_true, reduceIte]
        have hf := red_of_not_black hf
        match fs with
        | [] => cases hp with
          | red _ _ hne => exact (hne rfl).elim
          | black hf' => rw [hf] at hf'; cases hf'
        | gf :: fs =>
          refine red_parent_bind hh.path.1 (by rw [color_cell, hf]) ?_
          rw [parent_cell]
          refine deref_bind (child_bind hh.path.2.2.1 ?_)
          have hne : root gf.sibling ≠ some f.label := by
            intro he
            have hn := hh.nodup
            have hmem := root_mem he
            simp only [labels_cons, List.nodup_append, List.nodup_cons, List.mem_append,
              List.mem_cons] at hn
            exact hn.2.1.1 (.inr (.inr (.inl hmem)))
          rw [side_of_right hne]
          refine (ensures_insertTurn hh hroot hf ht hp).seq fun r h' hr => ?_
          obtain ⟨hsame, hr⟩ := hr
          match r with
          | none =>
            obtain ⟨t', hh', ht'⟩ := hr
            rw [ht']
            exact ensures_pure ⟨holds_whole.mpr hh', hsame⟩
          | some (y, up) =>
            obtain ⟨t', hh', ht', hroot', rfl, hl, m, e, hbal, hole⟩ := hr
            have hlen : fs.length < fuel := by
              simp only [List.length_cons] at hfuel
              omega
            rw [ht']
            exact (ih hh' hroot' hbal hole hlen).mono fun _ _ hres =>
              ⟨hres.1, hsame.trans (hres.2.mono hl)⟩

/-- The link of a position: a side of the node above it. -/
def link : Spine Ptr → Side
  | [] => .left
  | f :: _ => f.side

/-- A fresh node goes to an empty position. -/
theorem ensures_node_link {m : HevRBTreeNode} (hh : Holds h fs leaf) (hx : h.mem x = some m)
    (hnew : x ∉ labels fs) : (hev_rbtree_node_link x (top fs) (link fs)).Ensures h fun _ h' =>
      Holds h' fs (node .red leaf x leaf) ∧ Same (x :: labels fs) h h' := by
  obtain ⟨hpath, -, hn⟩ := hh
  have hn' : ((node .red leaf x leaf).toList ++ labels fs).Nodup := by
    simpa [toList, hnew] using hn
  cases fs with
  | nil =>
    refine modify_bind hx ⟨(), _, rfl, ⟨rfl, ⟨?_, trivial, trivial⟩, hn'⟩, Same.refl.write (by simp)⟩
    exact write_mem_self
  | cons f fs =>
    obtain ⟨hf, hsib, hrest⟩ := hpath
    simp only [labels_cons, List.mem_cons, List.mem_append, not_or] at hnew
    simp only [toList, List.nil_append, labels_cons, List.nodup_cons, List.mem_append] at hn
    refine modify_bind hx (ensures_modify ((write_mem_ne (Ne.symm hnew.1)).trans hf)
      ⟨⟨⟨?_, ?_, ?_⟩, ⟨?_, trivial, trivial⟩, hn'⟩, ?_⟩)
    · rw [write_mem_self]
      exact congrArg some set_cell
    · exact hsib.congr fun q hq => by rw [write_mem_ne (by grind), write_mem_ne (by grind)]
    · exact hrest.congr rfl fun q hq => by rw [write_mem_ne (by grind), write_mem_ne (by grind)]
    · rw [write_mem_ne hnew.1, write_mem_self]
      rfl
    · exact (Same.refl.write (by simp)).write (by simp)

/-- Linking a node at an empty position of a red-black tree, and the repair, with as many turns as
the tree has levels. -/
theorem ensures_insert {m : HevRBTreeNode} {fuel : Nat} (hh : Holds h fs leaf)
    (hbal : IsRedBlack (fs.plug leaf)) (hx : h.mem x = some m) (hnew : x ∉ labels fs)
    (hfuel : fs.length < fuel) :
    (hev_rbtree_node_link x (top fs) (link fs) >>= fun _ => hev_rbtree_insert_color fuel x).Ensures h
      fun _ h' => Holds h' [] (insertFix fs (node .red leaf x leaf)) ∧ Same (x :: labels fs) h h' := by
  refine (ensures_node_link hh hx hnew).seq fun _ h' hres => ?_
  obtain ⟨hh', hs⟩ := hres
  obtain ⟨m, hbal⟩ := hbal
  obtain ⟨c, d, n, ht, hp, -⟩ := Hole.of_plug hbal
  cases ht with
  | leaf =>
    refine red_parent_bind hh'.tree.1 rfl ?_
    exact (ensures_insertLoop hh' rfl (.red .leaf .leaf) hp hfuel).mono fun _ _ hres =>
      ⟨hres.1, hs.trans (hres.2.mono (by simp [toList]))⟩

end XTunnel.RbTree
