import XTunnel.RbTree.Insert

/-! The repair after a removal, `_hev_rbtree_erase_color`, is `RedBlack.eraseFix`. -/
namespace XTunnel.RbTree

open RedBlack Code HevRBTreeNode Spine ColorTree

variable {s : Side} {c d e : Color} {up up' p q : Option Ptr} {x y z g : Ptr}
  {a b t u near far : ColorTree Ptr} {f : Frame Ptr} {fs : Spine Ptr} {h h' : HevRBTree} {n : Nat} {β : Type}

/-- Case 4: `x` goes to the place of `g`. -/
theorem ensures_eraseRotate {R : Unit → HevRBTree → Prop}
    (hg : h.mem g = some (cell s (top fs) c (root t) p))
    (hx : h.mem x = some (cell s up d (root near) (root far))) (ht : Rep h.mem (some g) t)
    (hnear : Rep h.mem up' near) (hfar : Rep h.mem q far) (hz : root far = some z)
    (hp : RepPath h (some g) fs)
    (hn : (g :: x :: (t.toList ++ (near.toList ++ (far.toList ++ labels fs)))).Nodup)
    (hR : ∀ h', Holds h' fs (bin s c x (bin s .black g t near) (far.paint .black)) →
      Same (g :: x :: (near.toList ++ (far.toList ++ labels fs))) h h' → R () h') :
    (eraseRotate s g x z).Ensures h R := by
  simp only [List.nodup_cons, List.nodup_append, List.mem_cons, List.mem_append, not_or] at hn
  have hxg : x ≠ g := by grind
  refine child_bind hx (modify_bind hg (modify_bind ((write_mem_ne hxg).trans hx) ?_))
  rw [get_cell, set_cell_flip, set_cell]
  show (setParentColor? (some z) (some x) .black >>= _).Ensures _ R
  rw [← hz]
  refine setParentColor?_bind (hfar.congr fun q hq => ?_) (by grind) fun h₁ hroot₁ hs₁ hfar₁ => ?_
  · rw [write_mem_ne (by grind), write_mem_ne (by grind)]
  refine setParent?_bind (t := near) (hnear.congr fun q hq => ?_) (by grind)
    fun h₂ hroot₂ hs₂ hnear₂ => ?_
  · rw [hs₁ _ (by grind), write_mem_ne (by grind), write_mem_ne (by grind)]
  have hold : ∀ q, q ≠ g → q ≠ x → q ∉ near.toList → q ∉ far.toList → h₂.mem q = h.mem q := by
    intro q hqg hqx hqn hqf
    rw [hs₂ q hqn, hs₁ q hqf, write_mem_ne hqx, write_mem_ne hqg]
  have hg₂ : h₂.mem g = some (cell s (top fs) c (root t) (root near)) := by
    rw [hs₂ g (by grind), hs₁ g (by grind), write_mem_ne (Ne.symm hxg), write_mem_self]
  have hx₂ : h₂.mem x = some (cell s up d (some g) (root far)) := by
    rw [hs₂ x (by grind), hs₁ x (by grind), write_mem_self]
  have hp₂ : RepPath h₂ (some g) fs :=
    hp.congr (hroot₂.trans hroot₁) fun q hq => hold q (by grind) (by grind) (by grind) (by grind)
  refine ensures_rotate_set_parents hp₂ hg₂ parent_cell hx₂ hxg (by grind) (by grind) (by grind) ?_
  simp only [parent_cell, color_cell, with_parent_color_cell]
  intro h₃ hs₃ hp₃
  have hs₄ : Same (g :: x :: labels fs) h₂ h₃ :=
    ((Same.refl.write (by simp)).write (by simp)).trans (hs₃.mono (by grind))
  have hs₅ : Same (near.toList ++ (g :: x :: labels fs)) h₁ h₃ :=
    (hs₂.mono (by grind)).trans (hs₄.mono (by grind))
  have hs : Same (g :: x :: (near.toList ++ (far.toList ++ labels fs))) h h₃ :=
    (((Same.refl.write (by simp)).write (by simp)).trans (hs₁.mono (by grind))).trans
      (hs₅.mono (by grind))
  refine hR h₃ ⟨?_, ?_, ?_⟩ hs
  · rw [root_bin]
    exact hp₃
  · refine rep_bin.mpr ⟨?_, rep_bin.mpr ⟨?_, ht.congr fun q hq => hs q ?_, hnear₂.congr fun q hq =>
      hs₄ q ?_⟩, hfar₁.congr fun q hq => hs₅ q ?_⟩
    · rw [hs₃ x (by grind), write_mem_ne hxg, write_mem_self, root_bin, root_paint]
    · rw [hs₃ g (by grind), write_mem_self]
    · grind
    · grind
    · grind
  · simp only [List.nodup_append, nodup_bin, mem_bin, toList_paint]
    grind

/-- A black sibling stays where it is. -/
theorem ensures_eraseRaise_black {R : Ptr → HevRBTree → Prop} (hh : Holds h (f :: fs) t)
    (hsib : f.sibling.color = .black) (hy : root f.sibling = some y) (hR : R y h) :
    (eraseRaise f.side f.label y).Ensures h R := by
  obtain ⟨-, hsib', -⟩ := hh.path
  cases hs : f.sibling with
  | leaf => rw [hs] at hy; cases hy
  | node c l z r =>
    rw [hs] at hy hsib hsib'
    cases hy
    refine is_red_bind hsib'.1 ?_
    simp only [show c = .black from hsib, reduceCtorEq, decide_false, Bool.false_eq_true, reduceIte]
    exact ensures_pure hR

/-- Case 1: a red sibling `y` goes to the place of `f`. -/
theorem ensures_eraseRaise_red {R : Ptr → HevRBTree → Prop} (hh : Holds h (f :: fs) t)
    (hsib : f.sibling = bin f.side .red y near far) (hz : root near = some z)
    (hblack : near.color = .black)
    (hR : ∀ h', Holds h' (⟨f.side, .red, f.label, near⟩ :: ⟨f.side, f.color, y, far⟩ :: fs) t →
      Same (labels (f :: fs)) h h' → R z h') :
    (eraseRaise f.side f.label y).Ensures h R := by
  obtain ⟨⟨hf, hs, hp⟩, ht, hn⟩ := hh
  rw [hsib, root_bin] at hf
  obtain ⟨hy, hnear, hfar⟩ := rep_bin.mp (hsib ▸ hs)
  simp only [labels_cons, List.nodup_cons, List.nodup_append, List.mem_cons, List.mem_append,
    not_or, hsib, nodup_bin, mem_bin] at hn
  have hyf : y ≠ f.label := by grind
  refine is_red_bind hy ?_
  simp only [color_cell, decide_true, reduceIte]
  refine child_bind hy (modify_bind hf (modify_bind ((write_mem_ne hyf).trans hy) ?_))
  rw [get_cell, set_cell_flip, set_cell, hz]
  refine deref_bind ?_
  show (setParentColor? (some z) (some f.label) .black >>= _).Ensures _ R
  rw [← hz]
  refine setParentColor?_bind (t := near) (hnear.congr fun q hq => ?_) (by grind)
    fun h₁ hroot₁ hs₁ hnear₁ => ?_
  · rw [write_mem_ne (by grind), write_mem_ne (by grind)]
  rw [paint_of_color hblack] at hnear₁
  have hf₁ : h₁.mem f.label = some (cell f.side (top fs) f.color (root t) (root near)) := by
    rw [hs₁ _ (by grind), write_mem_ne (Ne.symm hyf), write_mem_self]
  have hy₁ : h₁.mem y = some (cell f.side (some f.label) .red (some f.label) (root far)) := by
    rw [hs₁ _ (by grind), write_mem_self]
  have hp₁ : RepPath h₁ (some f.label) fs := hp.congr hroot₁ fun q hq => by
    rw [hs₁ q (by grind), write_mem_ne (by grind), write_mem_ne (by grind)]
  refine Ensures.bind (ensures_rotate_set_parents hp₁ hf₁ parent_cell hy₁ hyf (by grind) (by grind)
    (by grind) ?_)
  simp only [parent_cell, color_cell, with_parent_color_cell]
  intro h₂ hs₂ hp₂
  have hs₃ : Same (f.label :: y :: labels fs) h₁ h₂ :=
    ((Same.refl.write (by simp)).write (by simp)).trans (hs₂.mono (by grind))
  have hs : Same (f.label :: y :: (near.toList ++ labels fs)) h h₂ :=
    (((Same.refl.write (by simp)).write (by simp)).trans (hs₁.mono (by grind))).trans
      (hs₃.mono (by grind))
  refine ensures_pure (hR h₂ ⟨⟨?_, ?_, ?_, ?_, hp₂⟩, ?_, ?_⟩ (hs.mono ?_))
  · show h₂.mem f.label = some (cell f.side (some y) .red (root t) (root near))
    rw [hs₂ _ (by grind), write_mem_self]
  · exact hnear₁.congr fun q hq => hs₃ q (by grind)
  · show h₂.mem y = some (cell f.side (top fs) f.color (some f.label) (root far))
    rw [hs₂ _ (by grind), write_mem_ne hyf, write_mem_self]
  · exact hfar.congr fun q hq => hs q (by grind)
  · exact ht.congr fun q hq => hs q (by grind)
  · simp only [labels_cons, List.nodup_cons, List.nodup_append, List.mem_cons, List.mem_append, not_or]
    grind
  · rw [labels_cons, hsib]
    intro q
    simp only [List.mem_append, mem_bin, List.mem_cons]
    grind

/-- What one turn leaves: the tree is repaired, or it is still one short above `t'`. -/
def AfterErase (fs : Spine Ptr) (turn : ColorTree Ptr ⊕ ColorTree Ptr) (l : List Ptr) (h : HevRBTree)
    (r : Option (Ptr × Ptr)) (h' : HevRBTree) : Prop :=
  Same l h h' ∧
    match r with
    | none => ∃ t', Holds h' fs t' ∧ Sum.elim (plug fs) (eraseFix fs) turn = plug fs t'
    | some (x, up) => ∃ t', Holds h' fs t' ∧ turn = .inr t' ∧ root t' = some x ∧ top fs = some up ∧
        t'.toList ++ labels fs ⊆ l

theorem isBlack?_red {k : Bool → M β} {R : β → HevRBTree → Prop} (ht : Rep h.mem up t)
    (hc : t.color = .red) (hk : (k false).Ensures h R) : (isBlack? (root t) >>= k).Ensures h R :=
  isBlack?_bind ht (by simpa [hc] using hk)

theorem isBlack?_black {k : Bool → M β} {R : β → HevRBTree → Prop} (ht : Rep h.mem up t)
    (hc : t.color = .black) (hk : (k true).Ensures h R) : (isBlack? (root t) >>= k).Ensures h R :=
  isBlack?_bind ht (by simpa [hc] using hk)

/-- Case 4 by itself. -/
theorem ensures_eraseTurn_far (hh : Holds h (f :: fs) t) (hsib : f.sibling = bin f.side c y near far)
    (hfar : far.color = .red) :
    (eraseTurn f.side f.label y).Ensures h
      (AfterErase fs (RedBlack.eraseTurn f t) (t.toList ++ labels (f :: fs)) h) := by
  obtain ⟨⟨hf, hs, hp⟩, ht, hn⟩ := hh
  rw [hsib, root_bin] at hf
  obtain ⟨hy, hnear', hfar'⟩ := rep_bin.mp (hsib ▸ hs)
  simp only [labels_cons, List.nodup_cons, List.nodup_append, List.mem_cons, List.mem_append,
    not_or, hsib, nodup_bin, mem_bin] at hn
  obtain ⟨z, a, b, hz⟩ := exists_red f.side hfar
  refine child_bind hy ?_
  rw [get_cell_flip]
  refine isBlack?_red hfar' hfar ?_
  have hroot : root far = some z := by rw [hz, root_bin]
  simp only [Bool.false_eq_true, reduceIte]
  rw [hroot]
  refine deref_bind (Ensures.bind (ensures_eraseRotate hf hy ht hnear' hfar' hroot hp ?_ ?_))
  · simp only [List.nodup_cons, List.nodup_append, List.mem_cons, List.mem_append, not_or]
    grind
  · intro h' hh' hs'
    refine ensures_pure ⟨hs'.mono ?_, _, hh', ?_⟩
    · rw [labels_cons, hsib]
      intro q
      simp only [List.mem_append, mem_bin, List.mem_cons]
      grind
    · rw [eraseTurn_far hsib hfar]
      rfl

/-- Case 3, followed by case 4. -/
theorem ensures_eraseTurn_near (hh : Holds h (f :: fs) t)
    (hsib : f.sibling = bin f.side .black y (bin f.side .red z a b) far) (hfar : far.color = .black)
    (hb : b.color = .black) :
    (eraseTurn f.side f.label y).Ensures h
      (AfterErase fs (RedBlack.eraseTurn f t) (t.toList ++ labels (f :: fs)) h) := by
  obtain ⟨⟨hf, hs, hp⟩, ht, hn⟩ := hh
  rw [hsib, root_bin] at hf
  obtain ⟨hy, hz, hfar'⟩ := rep_bin.mp (hsib ▸ hs)
  have hnear := hz
  obtain ⟨hz, ha', hb'⟩ := rep_bin.mp hz
  simp only [labels_cons, List.nodup_cons, List.nodup_append, List.mem_cons, List.mem_append,
    not_or, hsib, nodup_bin, mem_bin] at hn
  refine child_bind hy ?_
  rw [get_cell_flip]
  refine isBlack?_black hfar' hfar ?_
  simp only [reduceIte]
  refine child_bind hy ?_
  rw [get_cell]
  refine isBlack?_red hnear color_bin ?_
  simp only [Bool.false_eq_true, reduceIte, root_bin]
  refine deref_bind (child_bind hz ?_)
  rw [get_cell_flip]
  have hzy : z ≠ y := by grind
  have hfz : f.label ≠ z := by grind
  have hfy : f.label ≠ y := by grind
  refine modify_bind hy (modify_bind ((write_mem_ne hzy).trans hz)
    (modify_bind (((write_mem_ne hfz).trans (write_mem_ne hfy)).trans hf) ?_))
  rw [set_cell, set_cell_flip, set_cell_flip]
  refine setParentColor?_bind (t := b) (hb'.congr fun q hq => ?_) (by grind)
    fun h₁ hroot₁ hs₁ hb₁ => ?_
  · rw [write_mem_ne (by grind), write_mem_ne (by grind), write_mem_ne (by grind)]
  rw [paint_of_color hb] at hb₁
  have hs₂ : Same (f.label :: y :: z :: b.toList) h h₁ :=
    (((Same.refl.write (by simp)).write (by simp)).write (by simp)).trans (hs₁.mono (by grind))
  have hy₁ : h₁.mem y = some (cell f.side (some f.label) .black (root b) (root far)) := by
    rw [hs₁ _ (by grind), write_mem_ne (by grind), write_mem_ne (by grind), write_mem_self]
  have hf₁ : h₁.mem f.label = some (cell f.side (top fs) f.color (root t) (some z)) := by
    rw [hs₁ _ (by grind), write_mem_self]
  have hz₁ : h₁.mem z = some (cell f.side (some y) .red (root a) (root (bin f.side .black y b far))) := by
    rw [hs₁ _ (by grind), write_mem_ne (by grind), write_mem_self, root_bin]
  have hyb : Rep h₁.mem (some f.label) (bin f.side .black y b far) :=
    rep_bin.mpr ⟨hy₁, hb₁, hfar'.congr fun q hq => hs₂ q (by grind)⟩
  refine Ensures.bind (ensures_eraseRotate hf₁ hz₁ (ht.congr fun q hq => hs₂ q ?_)
    (ha'.congr fun q hq => hs₂ q ?_) hyb root_bin (hp.congr hroot₁ fun q hq => hs₂ q ?_) ?_ ?_)
  · grind
  · grind
  · grind
  · simp only [List.nodup_cons, List.nodup_append, List.mem_cons, List.mem_append, not_or, nodup_bin, mem_bin]
    grind
  · intro h' hh' hs'
    refine ensures_pure ⟨(hs₂.mono ?_).trans (hs'.mono ?_), _, hh', ?_⟩
    · rw [labels_cons, hsib]
      intro q
      simp only [List.mem_append, mem_bin, List.mem_cons]
      grind
    · rw [labels_cons, hsib]
      intro q
      simp only [List.mem_append, mem_bin, List.mem_cons]
      grind
    · rw [eraseTurn_near hsib hfar, paint_bin]
      rfl

/-- Case 2. -/
theorem ensures_eraseTurn_flip (hh : Holds h (f :: fs) t)
    (hsib : f.sibling = bin f.side .black y near far) (hnear : near.color = .black)
    (hfar : far.color = .black) :
    (eraseTurn f.side f.label y).Ensures h
      (AfterErase fs (RedBlack.eraseTurn f t) (t.toList ++ labels (f :: fs)) h) := by
  obtain ⟨⟨hf, hs, hp⟩, ht, hn⟩ := hh
  have hn' := hn
  rw [hsib, root_bin] at hf
  obtain ⟨hy, hnear', hfar'⟩ := rep_bin.mp (hsib ▸ hs)
  simp only [labels_cons, List.nodup_cons, List.nodup_append, List.mem_cons, List.mem_append,
    not_or, hsib, nodup_bin, mem_bin] at hn
  refine child_bind hy ?_
  rw [get_cell_flip]
  refine isBlack?_black hfar' hfar ?_
  simp only [reduceIte]
  refine child_bind hy ?_
  rw [get_cell]
  refine isBlack?_black hnear' hnear ?_
  simp only [reduceIte]
  have hyf : y ≠ f.label := by grind
  refine modify_bind hy (is_red_bind ((write_mem_ne (Ne.symm hyf)).trans hf) ?_)
  rw [with_parent_color_cell, color_cell]
  -- what the turn leaves below the parent, whichever color that one gets
  have hholds : ∀ h', RepPath h' (some f.label) fs → Same [y, f.label] h h' →
      h'.mem f.label = some (cell f.side (top fs) .black (root t) (some y)) →
      h'.mem y = some (cell f.side (some f.label) .red (root near) (root far)) →
      Holds h' fs (bin f.side .black f.label t (bin f.side .red y near far)) := by
    intro h' hp' hs' hf' hy'
    refine ⟨by rw [root_bin]; exact hp', rep_bin.mpr ⟨?_, ht.congr fun q hq => hs' q ?_,
      rep_bin.mpr ⟨hy', hnear'.congr fun q hq => hs' q ?_, hfar'.congr fun q hq => hs' q ?_⟩⟩, ?_⟩
    · rw [hf', root_bin]
    · grind
    · grind
    · grind
    · simp only [List.nodup_append, nodup_bin, mem_bin]
      grind
  have hl : [y, f.label] ⊆ t.toList ++ labels (f :: fs) := by
    rw [labels_cons, hsib]
    intro q
    simp only [List.mem_append, mem_bin, List.mem_cons]
    grind
  by_cases hc : f.color = .red
  · simp only [hc, decide_true, reduceIte]
    refine modify_bind ((write_mem_ne (Ne.symm hyf)).trans hf) (ensures_pure ?_)
    rw [with_color_cell]
    have hs' : ∀ m m', Same [y, f.label] h ((h.write y m).write f.label m') := fun _ _ =>
      (Same.refl.write (by simp)).write (by simp)
    refine ⟨(hs' _ _).mono hl, _, hholds _ ?_ (hs' _ _) write_mem_self ?_, ?_⟩
    · exact hp.congr rfl fun q hq => hs' _ _ q (by grind)
    · rw [write_mem_ne hyf, write_mem_self]
    · rw [eraseTurn_flip hsib hnear hfar, if_pos hc]
      rfl
  · simp only [hc, decide_false, Bool.false_eq_true, reduceIte]
    have hturn : RedBlack.eraseTurn f t = .inr (bin f.side .black f.label t
        (bin f.side .red y near far)) := by rw [eraseTurn_flip hsib hnear hfar, if_neg hc]
    have hs' : ∀ m, Same [y, f.label] h (h.write y m) := fun m => Same.refl.write (by simp)
    rw [black_of_not_red hc] at hf
    have hh' := hholds (h.write y (cell f.side (some f.label) .red (root near) (root far)))
      (hp.congr rfl fun q hq => hs' _ q (by grind)) (hs' _)
      ((write_mem_ne (Ne.symm hyf)).trans hf) write_mem_self
    refine parent_bind ((write_mem_ne (Ne.symm hyf)).trans hf) ?_
    rw [parent_cell]
    cases fs with
    | nil => exact ensures_pure ⟨(hs' _).mono hl, _, hh', congrArg _ hturn⟩
    | cons g fs =>
      refine ensures_pure ⟨(hs' _).mono hl, _, hh', hturn, root_bin, rfl, ?_⟩
      rw [labels_cons (f := f), hsib]
      intro q
      simp only [List.mem_append, mem_bin, List.mem_cons]
      grind

/-- One turn of the loop is one case of `RedBlack.eraseTurn`. -/
theorem ensures_eraseTurn (hh : Holds h (f :: fs) t) (hblack : f.sibling.color = .black)
    (hp : Hole (f :: fs) d (n + 1)) (hy : root f.sibling = some y) :
    (eraseTurn f.side f.label y).Ensures h
      (AfterErase fs (RedBlack.eraseTurn f t) (t.toList ++ labels (f :: fs)) h) := by
  have hbal : Balanced f.sibling .black (n + 1) := by
    cases hp with
    | red _ h => exact h
    | black _ h => exact h.black_of_color hblack
  rcases sibling_cases f with h | ⟨c, y', near, far, h, hcase⟩
  · rw [h] at hy
    cases hy
  obtain rfl : c = .black := by simpa [h] using hblack
  obtain rfl : y' = y := by simpa [h] using hy
  rw [h] at hbal
  rcases hcase with hred | ⟨hfar, hnear | ⟨z, a, b, rfl⟩⟩
  · exact ensures_eraseTurn_far hh h hred
  · exact ensures_eraseTurn_flip hh h hnear hfar
  · obtain ⟨⟨c, hnear⟩, -⟩ := balanced_black.mp hbal
    obtain ⟨-, hb⟩ := balanced_red.mp (hnear.red_of_color color_bin)
    exact ensures_eraseTurn_near hh h hfar hb.color_eq

/-- The loop repairs the tree above one that is a black node short, with a turn for each level. -/
theorem ensures_eraseLoop {fuel : Nat} (hh : Holds h fs t) (hx : top fs = some x)
    (ht : Balanced t .black n) (hp : Hole fs d (n + 1)) (hfuel : fs.length ≤ fuel) :
    (eraseLoop fuel (root t) x).Ensures h fun _ h' =>
      Holds h' [] (eraseFix fs t) ∧ Same (t.toList ++ labels fs) h h' := by
  induction fuel generalizing fs t x n d h with
  | zero =>
    cases fs with
    | nil => cases hx
    | cons => cases hfuel
  | succ fuel ih =>
    cases fs with
    | nil => cases hx
    | cons f fs =>
      cases hx
      have hsib : ∃ e, Balanced f.sibling e (n + 1) := by
        cases hp with
        | red _ h => exact ⟨_, h⟩
        | black _ h => exact ⟨_, h⟩
      obtain ⟨e, hsib⟩ := hsib
      obtain ⟨y, hy⟩ : ∃ y, root f.sibling = some y := by
        cases hs : f.sibling with
        | leaf => rw [hs] at hsib; cases hsib
        | node c l y r => exact ⟨y, rfl⟩
      have hne : root f.sibling ≠ root t := by
        intro he
        rw [hy] at he
        exact (List.nodup_append.mp hh.nodup).2.2 y (root_mem he.symm) y (by simp [root_mem hy]) rfl
      refine child_bind hh.path.1 ?_
      rw [side_of_right hne]
      refine child_bind hh.path.1 ?_
      rw [get_cell_flip, hy]
      refine deref_bind ?_
      cases hc : f.sibling.color with
      | black =>
        refine Ensures.bind (ensures_eraseRaise_black hh hc hy ?_)
        refine (ensures_eraseTurn hh hc hp hy).seq fun r h' hres => ?_
        obtain ⟨hs, hr⟩ := hres
        have hspec := eraseTurn_spec ht hp hc
        rw [eraseFix_black hc]
        match r with
        | none =>
          obtain ⟨t', hh', ht'⟩ := hr
          rw [ht']
          exact ensures_pure ⟨holds_whole.mpr hh', hs⟩
        | some (z, up) =>
          obtain ⟨t', hh', hturn, hz, hup, hl⟩ := hr
          rw [hturn] at hspec ⊢
          obtain ⟨-, hbal, e, hole⟩ := hspec
          have hloop := ih hh' hup hbal hole (Nat.le_of_succ_le_succ hfuel)
          rw [hz] at hloop
          exact hloop.mono fun _ _ hres => ⟨hres.1, hs.trans (hres.2.mono hl)⟩
      | red =>
        obtain ⟨w, near, far, hw⟩ := exists_red f.side hc
        obtain rfl : w = y := by simpa [hw] using hy
        obtain ⟨hnear, hfar⟩ := balanced_red.mp (hw ▸ hsib.red_of_color hc)
        obtain ⟨z, hz⟩ : ∃ z, root near = some z := by
          cases hs : near with
          | leaf => rw [hs] at hnear; cases hnear
          | node c l y r => exact ⟨y, rfl⟩
        refine Ensures.bind (ensures_eraseRaise_red hh hw hz hnear.color_eq fun h₁ hh₁ hs₁ => ?_)
        have hg : Hole (⟨f.side, f.color, w, far⟩ :: fs) .black (n + 1) := by
          cases hp with
          | red _ hb => rw [hb.color_eq] at hc; cases hc
          | black hf _ hp => exact .black hf hfar hp
        have hp₁ : Hole (⟨f.side, .red, f.label, near⟩ :: ⟨f.side, f.color, w, far⟩ :: fs) .red
          (n + 1) := .red rfl hnear (List.cons_ne_nil _ _) hg
        refine (ensures_eraseTurn hh₁ hnear.color_eq hp₁ hz).seq fun r h₂ ⟨hs₂, hr⟩ => ?_
        have hspec := eraseTurn_spec ht hp₁ hnear.color_eq
        have hl : t.toList ++ labels (⟨f.side, .red, f.label, near⟩ ::
            ⟨f.side, f.color, w, far⟩ :: fs) ⊆ t.toList ++ labels (f :: fs) := by
          rw [labels_cons (f := f), hw]
          intro q
          simp only [labels_cons, List.mem_append, mem_bin, List.mem_cons]
          grind
        have hs : Same (t.toList ++ labels (f :: fs)) h h₂ :=
          (hs₁.mono (List.subset_append_right _ _)).trans (hs₂.mono hl)
        rw [eraseFix_red hw]
        match r with
        | none =>
          obtain ⟨t', hh', ht'⟩ := hr
          cases hturn : RedBlack.eraseTurn ⟨f.side, .red, f.label, near⟩ t with
          | inl u =>
            rw [hturn] at ht'
            rw [show Sum.elim id id (.inl u) = u from rfl, show plug _ u = plug _ t' from ht']
            exact ensures_pure ⟨holds_whole.mpr hh', hs⟩
          | inr u =>
            rw [hturn] at hspec
            cases hspec.1
        | some (v, up) =>
          obtain ⟨t', -, hturn, -⟩ := hr
          rw [hturn] at hspec
          cases hspec.1

end XTunnel.RbTree
