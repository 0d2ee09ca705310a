import XTunnel.RbTree.Erase

/-! The descents of the trees' users, and the walks of hev-rbtree.c. -/
namespace XTunnel.RbTree

open RedBlack Code HevRBTreeNode Spine ColorTree

/-- The loop over `new` and `parent` that looks for a node, or for the place of a new one; `cmp` is the
sign of `res` at a node. -/
def descend (cmp : Ptr → Option Ordering) : Nat → Option Ptr → Side → Option Ptr →
    M (Ptr ⊕ (Option Ptr × Side))
  | 0, _, _, _ => fault
  | _ + 1, parent, link, none => return .inr (parent, link)
  | fuel + 1, _, _, some new => do
    match ← deref (cmp new) with
    | .lt => descend cmp fuel (some new) .left (← child .left new)
    | .gt => descend cmp fuel (some new) .right (← child .right new)
    | .eq => return .inl new

variable {s : Side} {c : Color} {x : Ptr} {l r t : ColorTree Ptr} {f : Frame Ptr} {fs : Spine Ptr}
  {h h' : HevRBTree} {cmp : Ptr → Option Ordering} {ord : Ptr → Ordering} {fuel : Nat}

/-- What the descent finds at the end of `zoom`. -/
def found : Spine Ptr × ColorTree Ptr → Ptr ⊕ (Option Ptr × Side)
  | (_, node _ _ x _) => .inl x
  | (q, leaf) => .inr (top q, link q)

theorem ensures_descend (hh : Holds h fs t) (hcmp : ∀ p ∈ t.toList, cmp p = some (ord p))
    (hfuel : t.height < fuel) : (descend cmp fuel (top fs) (link fs) (root t)).Ensures h
      fun res h' => h' = h ∧ res = found (zoom ord fs t) := by
  induction fuel generalizing fs t with
  | zero => cases hfuel
  | succ fuel ih =>
    cases t with
    | leaf => exact ensures_pure ⟨rfl, rfl⟩
    | node c l x r =>
      have hlt : l.height < fuel ∧ r.height < fuel := by
        simp only [ColorTree.height] at hfuel
        omega
      have hx : cmp x = some (ord x) := hcmp x (by simp [toList])
      show (deref (cmp x) >>= _).Ensures h _
      rw [hx]
      refine deref_bind ?_
      rw [zoom]
      cases hord : ord x with
      | lt =>
        have hl : Holds h (⟨.left, c, x, r⟩ :: fs) l := holds_fill.mp hh
        refine child_bind hh.tree.1 ?_
        exact ih hl (fun p hp => hcmp p (by simp [toList, hp])) hlt.1
      | gt =>
        have hr : Holds h (⟨.right, c, x, l⟩ :: fs) r := holds_fill.mp hh
        refine child_bind hh.tree.1 ?_
        exact ih hr (fun p hp => hcmp p (by simp [toList, hp])) hlt.2
      | eq => exact ensures_pure ⟨rfl, rfl⟩

end XTunnel.RbTree
