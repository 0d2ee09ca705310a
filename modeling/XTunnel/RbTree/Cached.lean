import XTunnel.RbTree.Walk

/-! hev-rbtree-cached.c: a tree with a pointer to its first node, and the insertion of its users. -/
namespace XTunnel.RbTree

open RedBlack Code HevRBTreeNode Spine ColorTree

/-! ### No node is freed -/

section Allocated
variable {p : Ptr}

/-- The node is in the memory. -/
def Allocated (p : Ptr) (h : HevRBTree) : Prop := (h.mem p).isSome

theorem keeps_load (q : Ptr) : Keeps (Allocated p) (load q) := by
  intro h a h' hq hp
  obtain ⟨n, -, hn⟩ := Option.map_eq_some_iff.mp hq
  cases hn
  exact hp

theorem keeps_modify (q : Ptr) (f : HevRBTreeNode → HevRBTreeNode) : Keeps (Allocated p) (modify q f) := by
  intro h a h' hq hp
  obtain ⟨n, -, hn⟩ := Option.map_eq_some_iff.mp hq
  cases hn
  by_cases hpq : p = q
  · subst hpq
    simp [Allocated, HevRBTree.write]
  · simpa [Allocated, HevRBTree.write, hpq] using hp

theorem keeps_setRoot (q : Option Ptr) : Keeps (Allocated p) (setRoot q) := by
  rintro h a h' ⟨⟩ hp
  exact hp

theorem keeps_child (s : Side) (q : Ptr) : Keeps (Allocated p) (child s q) :=
  (keeps_load q).bind fun _ => keeps_pure

theorem keeps_is_red (q : Ptr) : Keeps (Allocated p) (hev_rbtree_node_is_red q) :=
  (keeps_load q).bind fun _ => keeps_pure

theorem keeps_is_black (q : Ptr) : Keeps (Allocated p) (hev_rbtree_node_is_black q) :=
  (keeps_load q).bind fun _ => keeps_pure

theorem keeps_parent (q : Ptr) : Keeps (Allocated p) (hev_rbtree_node_parent q) :=
  (keeps_load q).bind fun _ => keeps_pure

theorem keeps_isBlack? (q : Option Ptr) : Keeps (Allocated p) (isBlack? q) := by
  cases q
  · exact keeps_pure
  · exact keeps_is_black _

theorem keeps_setParentColor? (q up : Option Ptr) (c : Color) :
    Keeps (Allocated p) (setParentColor? q up c) := by
  cases q
  · exact keeps_pure
  · exact keeps_modify _ _

theorem keeps_setParent? (q up : Option Ptr) : Keeps (Allocated p) (setParent? q up) := by
  cases q
  · exact keeps_pure
  · exact keeps_modify _ _

theorem keeps_change_child (old : Ptr) (new parent : Option Ptr) :
    Keeps (Allocated p) (hev_rbtree_change_child old new parent) := by
  cases parent with
  | none => exact keeps_setRoot _
  | some q => exact (keeps_child _ _).bind fun _ => (keeps_modify _ _).ite (keeps_modify _ _)

theorem keeps_rotate_set_parents (old new : Ptr) (c : Color) :
    Keeps (Allocated p) (hev_rbtree_rotate_set_parents old new c) :=
  (keeps_parent _).bind fun _ => (keeps_load _).bind fun _ => (keeps_modify _ _).bind fun _ =>
    (keeps_modify _ _).bind fun _ => keeps_change_child _ _ _

theorem keeps_leftmost (fuel : Nat) (parent successor : Ptr) :
    Keeps (Allocated p) (leftmost fuel parent successor) := by
  induction fuel generalizing parent successor with
  | zero => exact keeps_fault
  | succ fuel ih =>
    refine (keeps_child _ _).bind fun tmp => ?_
    cases tmp
    · exact keeps_pure
    · exact ih _ _

theorem keeps_takeSuccessor (fuel : Nat) (right : Ptr) : Keeps (Allocated p) (takeSuccessor fuel right) := by
  refine (keeps_child _ _).bind fun tmp => ?_
  cases tmp
  · exact (keeps_child _ _).bind fun _ => keeps_pure
  · exact (keeps_leftmost _ _ _).bind fun _ => (keeps_child _ _).bind fun _ => (keeps_modify _ _).bind fun _ =>
      (keeps_modify _ _).bind fun _ => (keeps_modify _ _).bind fun _ => keeps_pure

theorem keeps_eraseNode (fuel : Nat) (node : Ptr) : Keeps (Allocated p) (eraseNode fuel node) := by
  refine (keeps_child _ _).bind fun right => (keeps_child _ _).bind fun tmp => (keeps_load _).bind fun pc => ?_
  cases tmp with
  | none =>
    cases right
    · exact (keeps_change_child _ _ _).bind fun _ => keeps_pure
    · exact (keeps_change_child _ _ _).bind fun _ => (keeps_modify _ _).bind fun _ => keeps_pure
  | some left =>
    cases right with
    | none => exact (keeps_modify _ _).bind fun _ => (keeps_change_child _ _ _).bind fun _ => keeps_pure
    | some right =>
      refine (keeps_takeSuccessor _ _).bind fun r => (keeps_modify _ _).bind fun _ => (keeps_modify _ _).bind
        fun _ => (keeps_load _).bind fun pc => (keeps_change_child _ _ _).bind fun _ => ?_
      obtain ⟨parent, successor, child2⟩ := r
      cases child2
      · exact (keeps_is_black _).bind fun _ => (keeps_modify _ _).bind fun _ => keeps_pure
      · exact (keeps_modify _ _).bind fun _ => (keeps_modify _ _).bind fun _ => keeps_pure

theorem keeps_eraseRotate (s : Side) (parent sibling tmp1 : Ptr) :
    Keeps (Allocated p) (eraseRotate s parent sibling tmp1) :=
  (keeps_child _ _).bind fun _ => (keeps_modify _ _).bind fun _ => (keeps_modify _ _).bind fun _ =>
    (keeps_modify _ _).bind fun _ => (keeps_setParent? _ _).bind fun _ => keeps_rotate_set_parents _ _ _

theorem keeps_eraseTurn (s : Side) (parent sibling : Ptr) :
    Keeps (Allocated p) (eraseTurn s parent sibling) := by
  refine (keeps_child _ _).bind fun tmp1 => (keeps_isBlack? _).bind fun black => Keeps.ite ?_ ?_
  · refine (keeps_child _ _).bind fun tmp2 => (keeps_isBlack? _).bind fun black => Keeps.ite ?_ ?_
    · refine (keeps_modify _ _).bind fun _ => (keeps_is_red _).bind fun red => Keeps.ite ?_ ?_
      · exact (keeps_modify _ _).bind fun _ => keeps_pure
      · refine (keeps_parent _).bind fun up => ?_
        cases up <;> exact keeps_pure
    · exact keeps_deref.bind fun _ => (keeps_child _ _).bind fun _ => (keeps_modify _ _).bind fun _ =>
        (keeps_modify _ _).bind fun _ => (keeps_modify _ _).bind fun _ =>
          (keeps_setParentColor? _ _ _).bind fun _ => (keeps_eraseRotate _ _ _ _).bind fun _ => keeps_pure
  · exact keeps_deref.bind fun _ => (keeps_eraseRotate _ _ _ _).bind fun _ => keeps_pure

theorem keeps_eraseRaise (s : Side) (parent sibling : Ptr) :
    Keeps (Allocated p) (eraseRaise s parent sibling) :=
  (keeps_is_red _).bind fun _ => Keeps.ite
    ((keeps_child _ _).bind fun _ => (keeps_modify _ _).bind fun _ => (keeps_modify _ _).bind fun _ =>
      keeps_deref.bind fun _ => (keeps_modify _ _).bind fun _ => (keeps_rotate_set_parents _ _ _).bind fun _ =>
        keeps_pure)
    keeps_pure

theorem keeps_eraseLoop (fuel : Nat) (node : Option Ptr) (parent : Ptr) :
    Keeps (Allocated p) (eraseLoop fuel node parent) := by
  induction fuel generalizing node parent with
  | zero => exact keeps_fault
  | succ fuel ih =>
    refine (keeps_child _ _).bind fun right => (keeps_child _ _).bind fun _ => keeps_deref.bind fun _ =>
      (keeps_eraseRaise _ _ _).bind fun _ => (keeps_eraseTurn _ _ _).bind fun next => ?_
    cases next
    · exact keeps_pure
    · exact ih _ _

/-- A node that leaves the tree is still there. -/
theorem keeps_erase (fuel : Nat) (node : Ptr) : Keeps (Allocated p) (hev_rbtree_erase fuel node) := by
  refine (keeps_eraseNode _ _).bind fun rebalance => ?_
  cases rebalance
  · exact keeps_pure
  · exact keeps_eraseLoop _ _ _

end Allocated

/-! ### The pointer to the first node -/

structure HevRBTreeCached where
  base : HevRBTree
  leftmost : Option Ptr

namespace HevRBTreeCached

def onBase {α : Type} (x : M α) : Code HevRBTreeCached α := x.on (·.base) fun s base => { s with base }

def hev_rbtree_cached_first : Code HevRBTreeCached (Option Ptr) := fun s => some (s.leftmost, s)

def setLeftmost (leftmost : Option Ptr) : Code HevRBTreeCached Unit := fun s => some ((), { s with leftmost })

def hev_rbtree_cached_insert_color (fuel : Nat) (node : Ptr) (leftmost : Bool) :
    Code HevRBTreeCached Unit := do
  onlyIf leftmost (setLeftmost (some node))
  onBase (hev_rbtree_insert_color fuel node)

def hev_rbtree_cached_erase (fuel : Nat) (node : Ptr) : Code HevRBTreeCached Unit := do
  onlyIf (some node = (← hev_rbtree_cached_first)) do
    setLeftmost (← onBase (hev_rbtree_node_next fuel node))
  onBase (hev_rbtree_erase fuel node)

end HevRBTreeCached

/-- The loop over `new` and `parent` that looks for the place of a new node; `before` tells whether it
comes before a node, and `leftmost` whether it has come before all of them. -/
def place (before : Ptr → Option Bool) : Nat → Option Ptr → Side → Bool → Option Ptr →
    M (Option Ptr × Side × Bool)
  | 0, _, _, _, _ => fault
  | _ + 1, parent, link, leftmost, none => return (parent, link, leftmost)
  | fuel + 1, _, _, leftmost, some new => do
    if ← deref (before new) then place before fuel (some new) .left leftmost (← child .left new)
    else place before fuel (some new) .right false (← child .right new)

/-- A node is put where `before` says. -/
def HevRBTreeCached.insertAt (fuel : Nat) (before : Ptr → Option Bool) (node : Ptr) :
    Code HevRBTreeCached Unit := do
  let (parent, link, leftmost) ← onBase (getRoot >>= place before fuel none .left true)
  onBase (hev_rbtree_node_link node parent link)
  hev_rbtree_cached_insert_color fuel node leftmost

/-- The tree is an index of the addresses, and the pointer is to the first one. -/
structure CachedIndexes (h : HevRBTreeCached) (l : List Ptr) : Prop where
  index : Indexes h.base l
  first : h.leftmost = l.head?

variable {x : Ptr} {l : List Ptr} {t : ColorTree Ptr} {fs : Spine Ptr} {h : HevRBTree} {fuel : Nat}
  {before : Ptr → Option Bool} {goes : Ptr → Bool} {R : Ptr → Ptr → Prop} {m : HevRBTreeNode}

/-- The side of a node on which the new one belongs. -/
def sideOf (goes : Ptr → Bool) (p : Ptr) : Ordering := if goes p then .lt else .gt

theorem ensures_place {leftmost : Bool} (hh : Holds h fs t)
    (hbefore : ∀ p ∈ t.toList, before p = some (goes p)) (hleft : leftmost = true ↔ fs.before = []) (hfuel : t.height < fuel) :
    (place before fuel (top fs) (link fs) leftmost (root t)).Ensures h fun r h' => h' = h ∧
      ∃ q, zoom (sideOf goes) fs t = (q, leaf) ∧ r.1 = top q ∧ r.2.1 = link q ∧
        (r.2.2 = true ↔ q.before = []) := by
  induction fuel generalizing fs t leftmost with
  | zero => cases hfuel
  | succ fuel ih =>
    cases t with
    | leaf => exact ensures_pure ⟨rfl, fs, rfl, rfl, rfl, hleft⟩
    | node c l x r =>
      have hlt : l.height < fuel ∧ r.height < fuel := by
        simp only [ColorTree.height] at hfuel
        omega
      have hx : before x = some (goes x) := hbefore x (by simp [toList])
      show (deref (before x) >>= _).Ensures h _
      rw [hx]
      refine deref_bind ?_
      rw [zoom]
      cases hg : goes x with
      | true =>
        have hl : Holds h (⟨.left, c, x, r⟩ :: fs) l := holds_fill.mp hh
        have hord : sideOf goes x = .lt := if_pos hg
        rw [hord]
        refine child_bind hh.tree.1 ?_
        exact ih hl (fun p hp => hbefore p (by simp [toList, hp])) (by simpa [Spine.before] using hleft) hlt.1
      | false =>
        have hr : Holds h (⟨.right, c, x, l⟩ :: fs) r := holds_fill.mp hh
        have hord : sideOf goes x = .gt := if_neg (by simp [hg])
        rw [hord]
        refine child_bind hh.tree.1 ?_
        exact ih hr (fun p hp => hbefore p (by simp [toList, hp])) (by simp [Spine.before]) hlt.2

theorem sideOf_gt {p : Ptr} : sideOf goes p = .gt ↔ goes p = false := by
  unfold sideOf
  cases goes p <;> simp

theorem sideOf_lt {p : Ptr} : sideOf goes p = .lt ↔ goes p = true := by
  unfold sideOf
  cases goes p <;> simp

/-- The place from the root on. -/
theorem ensures_findPlace (hi : Indexes h l) (hcut : Cut R (sideOf goes)) (hsort : l.Pairwise R)
    (hbefore : ∀ p ∈ l, before p = some (goes p)) (hfuel : levels l.length < fuel) :
    (getRoot >>= place before fuel none .left true).Ensures h fun r h' => h' = h ∧
      Place h l (sideOf goes) r.1 r.2.1 ∧ (r.2.2 = true ↔ ∀ a ∈ l, goes a = true) := by
  obtain ⟨t, hh, hb, rfl⟩ := hi
  have hroot : h.root = root t := hh.path
  refine Ensures.bind ⟨h.root, h, rfl, ?_⟩
  rw [hroot]
  have hleft : true = true ↔ Spine.before ([] : Spine Ptr) = [] := by simp [Spine.before]
  refine (ensures_place hh hbefore hleft
    (Nat.lt_of_le_of_lt hb.height_le hfuel)).mono ?_
  rintro ⟨p, s, leftmost⟩ h' ⟨rfl, q, hz, rfl, rfl, hl⟩
  obtain ⟨hlist, hgt, hlt⟩ := zoom_leaf hcut hsort hz
  have hplug : q.plug leaf = t := plug_zoom hz
  refine ⟨rfl, ⟨q, ?_, hplug ▸ hb, rfl, rfl, hlist, hgt, hlt⟩, hl.trans ⟨fun hnil a ha => ?_, fun hall => ?_⟩⟩
  · rw [← holds_whole, hplug]
    exact hh
  · rw [hlist, hnil] at ha
    exact sideOf_lt.mp (hlt a ha)
  · rw [List.eq_nil_iff_forall_not_mem]
    intro a ha
    have hlt := hall a (hlist ▸ List.mem_append_left _ ha)
    rw [sideOf_gt.mp (hgt a ha)] at hlt
    cases hlt

namespace HevRBTreeCached

variable {c : HevRBTreeCached}

/-- The new node comes behind those that it does not come before. -/
theorem ensures_insertAt (hi : CachedIndexes c l) (hcut : Cut R (sideOf goes)) (hsort : l.Pairwise R)
    (hbefore : ∀ p ∈ l, before p = some (goes p)) (hx : c.base.mem x = some m) (hnew : x ∉ l)
    (hfuel : levels l.length < fuel) : (insertAt fuel before x).Ensures c fun _ c' =>
      Same (x :: l) c.base c'.base ∧ ∃ as bs, l = as ++ bs ∧ CachedIndexes c' (as ++ x :: bs) ∧
        (∀ a ∈ as, goes a = false) ∧ ∀ b ∈ bs, goes b = true := by
  have hplace := ensures_findPlace hi.index hcut hsort hbefore hfuel
  refine (hplace.on (Q := fun r d => d = c ∧ Place c.base l (sideOf goes) r.1 r.2.1 ∧
    (r.2.2 = true ↔ ∀ a ∈ l, goes a = true)) fun r b hr => ⟨by rw [hr.1], hr.2⟩).seq ?_
  rintro ⟨parent, link, leftmost⟩ d ⟨rfl, hp, hl⟩
  -- the pointer to the first node is set between the two parts of the insertion
  refine (ensures_bind.mp (ensures_link hp hx hnew hfuel)).on ?_ |>.bind
  intro _ b hb
  refine (ensures_onlyIf
    (Q := fun _ e => e = { d with base := b, leftmost := if leftmost then some x else d.leftmost })
    (fun ht => ⟨(), _, rfl, by rw [if_pos ht]⟩) (fun hf => by rw [if_neg hf])).seq ?_
  rintro _ _ rfl
  refine hb.on ?_
  rintro _ b' ⟨hs, as, bs, hlist, hi', hgt, hlt⟩
  refine ⟨hs, as, bs, hlist, ⟨hi', ?_⟩, fun a ha => sideOf_gt.mp (hgt a ha),
    fun b hb => sideOf_lt.mp (hlt b hb)⟩
  have hall : leftmost = true ↔ as = [] := by
    rw [hl, List.eq_nil_iff_forall_not_mem, hlist]
    refine ⟨fun hall a ha => ?_, fun has a ha => ?_⟩
    · have hlt := hall a (List.mem_append_left _ ha)
      rw [sideOf_gt.mp (hgt a ha)] at hlt
      cases hlt
    · exact sideOf_lt.mp (hlt a ((List.mem_append.mp ha).resolve_left (has a)))
  by_cases has : as = []
  · rw [if_pos (hall.mpr has), has]
    rfl
  · have hfirst := hi.first
    rw [hlist, List.head?_append_of_ne_nil _ has] at hfirst
    rw [if_neg (fun ht => has (hall.mp ht)), List.head?_append_of_ne_nil _ has]
    exact hfirst

/-- The pointer moves on from a first node that goes away. -/
theorem ensures_erase (hi : CachedIndexes c l) (hx : x ∈ l) (hfuel : levels l.length ≤ fuel) :
    (hev_rbtree_cached_erase fuel x).Ensures c fun _ c' =>
      CachedIndexes c' (l.erase x) ∧ ∀ p, Allocated p c.base → Allocated p c'.base := by
  cases l with
  | nil => cases hx
  | cons y l =>
    refine Ensures.bind ⟨some y, c, by rw [hev_rbtree_cached_first, hi.first]; rfl, ?_⟩
    refine (ensures_onlyIf
      (Q := fun _ d => d.base = c.base ∧ d.leftmost = ((y :: l).erase x).head?) ?_ ?_).seq ?_
    · intro hxy
      obtain rfl : x = y := Option.some.inj hxy
      have hfirst : Indexes c.base ([] ++ x :: l) := hi.index
      refine (ensures_next hfirst hfuel).on (Q := fun r d => d = c ∧ r = l.head?)
        (fun r b hr => ⟨by rw [hr.1], hr.2⟩) |>.seq ?_
      rintro _ _ ⟨rfl, rfl⟩
      exact ⟨(), _, rfl, rfl, by rw [List.erase_cons_head]⟩
    · intro hxy
      refine ⟨rfl, ?_⟩
      rw [List.erase_cons_tail (by simpa using Ne.symm (fun h => hxy (congrArg some h)))]
      exact hi.first
    · rintro _ d ⟨hbase, hleft⟩
      obtain ⟨r, b, he, hb, -⟩ := ensures_unlink hi.index hx hfuel
      have hkeeps : ∀ p, Allocated p c.base → Allocated p b := fun p => keeps_erase fuel x _ r b he
      refine Ensures.on (P := fun _ b' => b' = b) ⟨r, b, hbase ▸ he, rfl⟩ ?_
      rintro _ _ rfl
      exact ⟨⟨hb, hleft⟩, hkeeps⟩

end HevRBTreeCached

end XTunnel.RbTree
