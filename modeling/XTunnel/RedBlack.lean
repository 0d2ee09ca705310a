import Mathlib

/-! Red-black trees with a position in them: repair above an inserted node, removal of a node and
repair above a removed one. Both sides of the tree are treated at once. -/
namespace XTunnel.RedBlack

variable {α : Type*}

inductive Color
  | red
  | black
deriving DecidableEq, Repr

inductive Side
  | left
  | right
deriving DecidableEq, Repr

def Side.flip : Side → Side
  | left => right
  | right => left

@[simp] theorem Side.flip_flip (s : Side) : s.flip.flip = s := by cases s <;> rfl

theorem Side.flip_ne (s : Side) : s.flip ≠ s := by cases s <;> decide

theorem Side.eq_flip_of_ne {s t : Side} (h : s ≠ t) : s = t.flip := by
  cases s <;> cases t <;> first | rfl | exact (h rfl).elim

inductive ColorTree (α : Type*)
  | leaf
  | node (color : Color) (left : ColorTree α) (label : α) (right : ColorTree α)
deriving DecidableEq, Repr

namespace ColorTree

/-- The labels from left to right. -/
def toList : ColorTree α → List α
  | leaf => []
  | node _ l x r => l.toList ++ x :: r.toList

/-- A leaf counts as black. -/
def color : ColorTree α → Color
  | leaf => .black
  | node c _ _ _ => c

def paint (c : Color) : ColorTree α → ColorTree α
  | leaf => leaf
  | node _ l x r => node c l x r

/-- A node with `a` on side `s` and `b` on the other one. -/
def bin (s : Side) (c : Color) (x : α) (a b : ColorTree α) : ColorTree α :=
  match s with
  | .left => node c a x b
  | .right => node c b x a

/-- The color, the label, the subtree on side `s` and the other one. -/
def on (s : Side) : ColorTree α → Option (Color × α × ColorTree α × ColorTree α)
  | leaf => none
  | node c l x r =>
    match s with
    | .left => some (c, x, l, r)
    | .right => some (c, x, r, l)

end ColorTree

/-- A node above a position: the position is on `side`, the rest of the node is here. -/
structure Frame (α : Type*) where
  side : Side
  color : Color
  label : α
  sibling : ColorTree α

/-- The nodes above a position, the nearest first. -/
abbrev Spine (α : Type*) := List (Frame α)

namespace Frame

def fill (f : Frame α) (t : ColorTree α) : ColorTree α := .bin f.side f.color f.label t f.sibling

end Frame

namespace Spine

/-- The whole tree with `t` at the position. -/
def plug : Spine α → ColorTree α → ColorTree α
  | [], t => t
  | f :: fs, t => plug fs (f.fill t)

/-- The labels to the left of the position. -/
def before : Spine α → List α
  | [] => []
  | f :: fs => before fs ++ if f.side = .left then [] else f.sibling.toList ++ [f.label]

def after : Spine α → List α
  | [] => []
  | f :: fs => (if f.side = .left then f.label :: f.sibling.toList else []) ++ after fs

end Spine

open ColorTree Spine

section

variable {s : Side} {c : Color} {x : α} {a b t u : ColorTree α} {f g : Frame α} {fs : Spine α}

@[simp] theorem bin_ne_leaf : bin s c x a b ≠ leaf := by cases s <;> exact nofun

@[simp] theorem color_bin : (bin s c x a b).color = c := by cases s <;> rfl

@[simp] theorem paint_bin (d : Color) : (bin s c x a b).paint d = bin s d x a b := by
  cases s <;> rfl

@[simp] theorem on_bin : (bin s c x a b).on s = some (c, x, a, b) := by cases s <;> rfl

theorem bin_flip : bin s.flip c x a b = bin s c x b a := by cases s <;> rfl

@[simp, grind =] theorem toList_paint : (t.paint c).toList = t.toList := by cases t <;> rfl

theorem paint_color : t.paint t.color = t := by cases t <;> rfl

/-- Every node is one seen from either side. -/
theorem exists_bin (s : Side) (h : t ≠ leaf) : ∃ x a b, t = bin s t.color x a b := by
  cases t with
  | leaf => exact (h rfl).elim
  | node c l x r =>
    cases s with
    | left => exact ⟨x, l, r, rfl⟩
    | right => exact ⟨x, r, l, rfl⟩

theorem exists_red (s : Side) (h : t.color = .red) : ∃ x a b, t = bin s .red x a b := by
  have hne : t ≠ leaf := by
    rintro rfl
    cases h
  obtain ⟨x, a, b, ht⟩ := exists_bin s hne
  exact ⟨x, a, b, h ▸ ht⟩

theorem toList_bin_congr {a' b' : ColorTree α} {d : Color} (ha : a.toList = a'.toList)
    (hb : b.toList = b'.toList) : (bin s c x a b).toList = (bin s d x a' b').toList := by
  cases s <;> simp [bin, toList, ha, hb]

/-- A rotation keeps the order of the labels. -/
theorem toList_rotate {c' d d' : Color} {y : α} {z : ColorTree α} :
    (bin s c x (bin s d y a b) z).toList = (bin s c' y a (bin s d' x b z)).toList := by
  cases s <;> simp [bin, toList]

theorem toList_plug (p : Spine α) : (p.plug t).toList = p.before ++ t.toList ++ p.after := by
  induction p generalizing t with
  | nil => simp [plug, before, after]
  | cons f fs ih =>
    rw [plug, ih, Frame.fill]
    cases hs : f.side <;> simp [before, after, bin, toList, hs]

theorem toList_plug_congr (p : Spine α) (h : t.toList = u.toList) :
    (p.plug t).toList = (p.plug u).toList := by
  rw [toList_plug, toList_plug, h]

theorem plug_append (p q : Spine α) : plug (p ++ q) t = q.plug (p.plug t) := by
  induction p generalizing t with
  | nil => rfl
  | cons f fs ih => exact ih

end

/-! ### Balance -/

/-- The tree has the root color and the black height, and no red node has a red child. -/
inductive Balanced : ColorTree α → Color → Nat → Prop
  | leaf : Balanced leaf .black 0
  | red {l r : ColorTree α} {x : α} {n : Nat} :
      Balanced l .black n → Balanced r .black n → Balanced (node .red l x r) .red n
  | black {l r : ColorTree α} {x : α} {c d : Color} {n : Nat} :
      Balanced l c n → Balanced r d n → Balanced (node .black l x r) .black (n + 1)

/-- A red-black tree: balanced, with a black root. -/
def IsRedBlack (t : ColorTree α) : Prop := ∃ n, Balanced t .black n

/-- A tree of black height `n` fits at the position, and the node above it has the color; nothing
above counts as black. -/
inductive Hole : Spine α → Color → Nat → Prop
  | root {n : Nat} : Hole [] .black n
  | red {f : Frame α} {fs : Spine α} {n : Nat} : f.color = .red → Balanced f.sibling .black n →
      fs ≠ [] → Hole fs .black n → Hole (f :: fs) .red n
  | black {f : Frame α} {fs : Spine α} {c d : Color} {n : Nat} : f.color = .black →
      Balanced f.sibling c n → Hole fs d (n + 1) → Hole (f :: fs) .black n

section

variable {s : Side} {c d : Color} {x : α} {a b t : ColorTree α} {f g : Frame α} {fs : Spine α} {n : Nat}

theorem Balanced.color_eq (h : Balanced t c n) : t.color = c := by cases h <;> rfl

theorem balanced_red : Balanced (bin s .red x a b) .red n ↔
    Balanced a .black n ∧ Balanced b .black n := by
  cases s
  · exact ⟨fun h => by cases h; exact ⟨‹_›, ‹_›⟩, fun h => .red h.1 h.2⟩
  · exact ⟨fun h => by cases h; exact ⟨‹_›, ‹_›⟩, fun h => .red h.2 h.1⟩

theorem balanced_black : Balanced (bin s .black x a b) .black (n + 1) ↔
    (∃ c, Balanced a c n) ∧ ∃ d, Balanced b d n := by
  cases s
  · exact ⟨fun h => by cases h; exact ⟨⟨_, ‹_›⟩, _, ‹_›⟩, fun ⟨⟨_, h⟩, _, h'⟩ => .black h h'⟩
  · exact ⟨fun h => by cases h; exact ⟨⟨_, ‹_›⟩, _, ‹_›⟩, fun ⟨⟨_, h⟩, _, h'⟩ => .black h' h⟩

theorem Balanced.bin_black (ha : Balanced a c n) (hb : Balanced b d n) :
    Balanced (bin s .black x a b) .black (n + 1) := balanced_black.mpr ⟨⟨c, ha⟩, d, hb⟩

theorem Balanced.bin_red (ha : Balanced a .black n) (hb : Balanced b .black n) :
    Balanced (bin s .red x a b) .red n := balanced_red.mpr ⟨ha, hb⟩

/-- Painting the root black costs nothing but one more level. -/
theorem Balanced.paint_black (h : Balanced t c n) : ∃ m, Balanced (t.paint .black) .black m := by
  cases h with
  | leaf => exact ⟨0, .leaf⟩
  | red hl hr => exact ⟨_, .black hl hr⟩
  | black hl hr => exact ⟨_, .black hl hr⟩

/-- A fitting tree makes the whole one red-black, if no two reds meet and the root is black. -/
theorem Hole.plug (hp : Hole fs d n) (ht : Balanced t c n)
    (hred : c = .red → d = .black ∧ fs ≠ []) : IsRedBlack (fs.plug t) := by
  induction hp generalizing t c with
  | root =>
    cases c with
    | black => exact ⟨_, ht⟩
    | red => exact ((hred rfl).2 rfl).elim
  | @red f fs n hf hsib hne _ ih =>
    have hc : c = .black := by
      cases c with
      | black => rfl
      | red => cases (hred rfl).1
    subst hc
    refine ih (t := f.fill t) (c := .red) ?_ fun _ => ⟨rfl, hne⟩
    rw [Frame.fill, hf]
    exact ht.bin_red hsib
  | @black f fs e d n hf hsib _ ih =>
    refine ih (t := f.fill t) (c := .black) ?_ nofun
    rw [Frame.fill, hf]
    exact ht.bin_black hsib

theorem Hole.plug_black (hp : Hole fs d n) (ht : Balanced t .black n) : IsRedBlack (fs.plug t) :=
  hp.plug ht nofun

end

/-! ### Repair above an inserted node -/

/-- The tree with the red `t` at the position, below a parent that may be red as well. -/
def insertFix : Spine α → ColorTree α → ColorTree α
  | [], t => t.paint .black
  | [f], t => f.fill t
  | f :: g :: fs, t =>
    if f.color = .black then plug (f :: g :: fs) t
    else if g.sibling.color = .red then
      insertFix fs (bin g.side .red g.label (bin f.side .black f.label t f.sibling)
        (g.sibling.paint .black))
    else if f.side = g.side then
      plug fs (bin g.side .black f.label t (bin g.side .red g.label f.sibling g.sibling))
    else
      match t.on g.side with
      | none => plug (f :: g :: fs) t
      | some (_, x, a, b) =>
        plug fs (bin g.side .black x (bin g.side .red f.label f.sibling a)
          (bin g.side .red g.label b g.sibling))

section

variable {s : Side} {c d : Color} {x : α} {a b t : ColorTree α} {f g : Frame α} {p fs : Spine α} {n : Nat}

theorem eq_bin_of_on (h : t.on s = some (c, x, a, b)) : t = bin s c x a b := by
  cases t with
  | leaf => cases h
  | node d l y r => cases s <;> cases h <;> rfl

theorem insertFix_black (hf : f.color = .black) : insertFix (f :: fs) t = plug (f :: fs) t := by
  cases fs with
  | nil => rfl
  | cons g fs => exact if_pos hf

theorem insertFix_recolor (hf : f.color = .red) (hg : g.sibling.color = .red) :
    insertFix (f :: g :: fs) t = insertFix fs (bin g.side .red g.label
      (bin f.side .black f.label t f.sibling) (g.sibling.paint .black)) := by
  rw [insertFix, if_neg (by rw [hf]; decide), if_pos hg]

theorem insertFix_outer (hf : f.color = .red) (hg : g.sibling.color = .black)
    (hs : f.side = g.side) : insertFix (f :: g :: fs) t =
      plug fs (bin g.side .black f.label t (bin g.side .red g.label f.sibling g.sibling)) := by
  rw [insertFix, if_neg (by rw [hf]; decide), if_neg (by rw [hg]; decide), if_pos hs]

theorem insertFix_inner (hf : f.color = .red) (hg : g.sibling.color = .black)
    (hs : f.side ≠ g.side) : insertFix (f :: g :: fs) (bin g.side c x a b) =
      plug fs (bin g.side .black x (bin g.side .red f.label f.sibling a)
        (bin g.side .red g.label b g.sibling)) := by
  rw [insertFix, if_neg (by rw [hf]; decide), if_neg (by rw [hg]; decide), if_neg hs, on_bin]

/-- The repair moves nothing. -/
theorem toList_insertFix : (insertFix p t).toList = (p.plug t).toList := by
  fun_induction insertFix p t with
  | case1 t => exact toList_paint
  | case2 f t => rfl
  | case3 => rfl
  | case4 f g fs t hf hg ih =>
    rw [ih]
    exact toList_plug_congr fs (toList_bin_congr (toList_bin_congr rfl rfl) toList_paint)
  | case5 f g fs t hf hg hs =>
    refine toList_plug_congr fs ?_
    rw [Frame.fill, Frame.fill, hs]
    exact toList_rotate.symm
  | case6 => rfl
  | case7 f g fs t hf hg hs d x a b ht =>
    refine toList_plug_congr fs ?_
    rw [eq_bin_of_on ht, Frame.fill, Frame.fill, Side.eq_flip_of_ne hs, bin_flip]
    have hinner : (bin g.side .black x (bin g.side .red f.label f.sibling a) b).toList =
        (bin g.side f.color f.label f.sibling (bin g.side d x a b)).toList := toList_rotate
    have houter : (bin g.side .black x (bin g.side .red f.label f.sibling a)
        (bin g.side .red g.label b g.sibling)).toList = (bin g.side g.color g.label
          (bin g.side .black x (bin g.side .red f.label f.sibling a) b) g.sibling).toList :=
      toList_rotate.symm
    exact houter.trans (toList_bin_congr hinner rfl)

/-- Two red children give their color to the node above them. -/
theorem Hole.recolor (ht : Balanced t .red n) (hp : Hole (f :: g :: fs) d n) (hf : f.color = .red)
    (hg : g.sibling.color = .red) :
    Balanced (bin g.side .red g.label (bin f.side .black f.label t f.sibling)
      (g.sibling.paint .black)) .red (n + 1) ∧ ∃ e, Hole fs e (n + 1) := by
  cases hp with
  | black hf' => rw [hf] at hf'; cases hf'
  | red hf' hsib hne hp =>
    cases hp with
    | black hg' huncle hp =>
      obtain ⟨z, a, b, hz⟩ := exists_red g.side hg
      rw [hz] at huncle
      obtain rfl := huncle.color_eq.symm.trans color_bin
      obtain ⟨ha, hb⟩ := balanced_red.mp huncle
      rw [hz, paint_bin]
      exact ⟨(ht.bin_black hsib).bin_red (ha.bin_black hb), _, hp⟩

theorem Balanced.black_of_color (h : Balanced t c n) (ht : t.color = .black) : Balanced t .black n :=
  (h.color_eq.symm.trans ht) ▸ h

theorem Balanced.red_of_color (h : Balanced t c n) (ht : t.color = .red) : Balanced t .red n :=
  (h.color_eq.symm.trans ht) ▸ h

theorem black_of_not_red (h : ¬ c = .red) : c = .black := by
  cases c with
  | red => exact (h rfl).elim
  | black => rfl

theorem red_of_not_black (h : ¬ c = .black) : c = .red := by
  cases c with
  | red => rfl
  | black => exact (h rfl).elim

/-- The repair ends with a red-black tree. -/
theorem isRedBlack_insertFix (ht : Balanced t .red n) (hp : Hole p d n) :
    IsRedBlack (insertFix p t) := by
  fun_induction insertFix p t generalizing n d with
  | case1 t => exact ht.paint_black
  | case2 f t =>
    cases hp with
    | red hf _ hne _ => exact (hne rfl).elim
    | black hf hsib hp =>
      have hfill : Balanced (f.fill t) .black (n + 1) := by
        rw [Frame.fill, hf]
        exact ht.bin_black hsib
      exact hp.plug_black hfill
  | case3 f g fs t hf =>
    cases hp with
    | red hf' => rw [hf] at hf'; cases hf'
    | black hf' hsib hp =>
      refine Hole.plug (.black hf' hsib hp) ht fun _ => ⟨rfl, List.cons_ne_nil _ _⟩
  | case4 f g fs t hf hg ih =>
    obtain ⟨ht', e, hp'⟩ := Hole.recolor ht hp (red_of_not_black hf) hg
    exact ih ht' hp'
  | case5 f g fs t hf hg hs =>
    cases hp with
    | black hf' => exact (hf hf').elim
    | red hf' hsib hne hp =>
      cases hp with
      | black hg' huncle hp =>
        have huncle := huncle.black_of_color (black_of_not_red hg)
        exact hp.plug_black (ht.bin_black (hsib.bin_red huncle))
  | case6 f g fs t hf hg hs ht' =>
    cases ht with
    | red => cases hgs : g.side <;> simp [on, hgs] at ht'
  | case7 f g fs t hf hg hs e x a b hon =>
    obtain rfl := eq_bin_of_on hon
    obtain rfl : e = .red := by simpa using ht.color_eq
    obtain ⟨ha, hb⟩ := balanced_red.mp ht
    cases hp with
    | black hf' => exact (hf hf').elim
    | red hf' hsib hne hp =>
      cases hp with
      | black hg' huncle hp =>
        have huncle := huncle.black_of_color (black_of_not_red hg)
        exact hp.plug_black ((hsib.bin_red ha).bin_black (hb.bin_red huncle))

end

/-! ### Repair above a removed node -/

/-- One level of the repair above `t`, which is one black node short, beside a black sibling. The
result is whole, or it is still one short. -/
def eraseTurn (f : Frame α) (t : ColorTree α) : ColorTree α ⊕ ColorTree α :=
  match f.sibling.on f.side with
  | none => .inl (f.fill t)
  | some (_, y, near, far) =>
    if far.color = .red then
      .inl (bin f.side f.color y (bin f.side .black f.label t near) (far.paint .black))
    else
      match near.on f.side with
      | some (.red, z, a, b) =>
        .inl (bin f.side f.color z (bin f.side .black f.label t a) (bin f.side .black y b far))
      | _ =>
        let u := bin f.side .black f.label t (f.sibling.paint .red)
        if f.color = .red then .inl u else .inr u

/-- A red sibling first takes the place of the parent. -/
def eraseFix : Spine α → ColorTree α → ColorTree α
  | [], t => t
  | f :: fs, t =>
    match f.sibling.on f.side with
    | some (.red, y, near, far) =>
      plug (⟨f.side, f.color, y, far⟩ :: fs)
        (Sum.elim id id (eraseTurn ⟨f.side, .red, f.label, near⟩ t))
    | _ => Sum.elim (plug fs) (eraseFix fs) (eraseTurn f t)

section

variable {s : Side} {c d e : Color} {x y z : α} {a b t u near far : ColorTree α} {f g : Frame α}
  {p fs : Spine α} {n : Nat}

theorem eraseTurn_far (h : f.sibling = bin f.side c y near far) (hfar : far.color = .red) :
    eraseTurn f t =
      .inl (bin f.side f.color y (bin f.side .black f.label t near) (far.paint .black)) := by
  rw [eraseTurn, h, on_bin]
  exact if_pos hfar

theorem eraseTurn_near (h : f.sibling = bin f.side c y (bin f.side .red z a b) far)
    (hfar : far.color = .black) : eraseTurn f t =
      .inl (bin f.side f.color z (bin f.side .black f.label t a) (bin f.side .black y b far)) := by
  rw [eraseTurn, h, on_bin]
  simp [hfar]

theorem eraseTurn_flip (h : f.sibling = bin f.side c y near far) (hnear : near.color = .black)
    (hfar : far.color = .black) : eraseTurn f t =
      if f.color = .red then .inl (bin f.side .black f.label t (bin f.side .red y near far))
      else .inr (bin f.side .black f.label t (bin f.side .red y near far)) := by
  rw [eraseTurn, h, on_bin, paint_bin]
  simp only [hfar]
  split
  · cases ‹_ = Color.red›
  · split
    · rename_i hz
      rw [eq_bin_of_on hz, color_bin] at hnear
      cases hnear
    · rfl

theorem eraseFix_red (h : f.sibling = bin f.side .red y near far) : eraseFix (f :: fs) t =
    plug (⟨f.side, f.color, y, far⟩ :: fs)
      (Sum.elim id id (eraseTurn ⟨f.side, .red, f.label, near⟩ t)) := by
  rw [eraseFix, h, on_bin]

theorem eraseFix_black (h : f.sibling.color = .black) :
    eraseFix (f :: fs) t = Sum.elim (plug fs) (eraseFix fs) (eraseTurn f t) := by
  rw [eraseFix]
  split
  · rename_i hred
    rw [eq_bin_of_on hred, color_bin] at h
    cases h
  · rfl

/-- The sibling is missing, or one of the cases of `eraseTurn`. -/
theorem sibling_cases (f : Frame α) : f.sibling = leaf ∨ ∃ c y near far,
    f.sibling = bin f.side c y near far ∧ (far.color = .red ∨ far.color = .black ∧
      (near.color = .black ∨ ∃ z a b, near = bin f.side .red z a b)) := by
  by_cases hleaf : f.sibling = leaf
  · exact .inl hleaf
  · obtain ⟨y, near, far, h⟩ := exists_bin f.side hleaf
    refine .inr ⟨_, y, near, far, h, ?_⟩
    cases hfar : far.color with
    | red => exact .inl rfl
    | black =>
      refine .inr ⟨rfl, ?_⟩
      cases hnear : near.color with
      | black => exact .inl rfl
      | red => exact .inr (exists_red f.side hnear)

theorem toList_eraseTurn : (Sum.elim id id (eraseTurn f t)).toList = (f.fill t).toList := by
  rcases sibling_cases f with h | ⟨c, y, near, far, h, hfar | ⟨hfar, hnear | ⟨z, a, b, rfl⟩⟩⟩
  · rw [eraseTurn, h]
    rfl
  · rw [eraseTurn_far h hfar, Frame.fill, h]
    have hpaint : (bin f.side f.color y (bin f.side .black f.label t near) (far.paint .black)).toList =
        (bin f.side f.color y (bin f.side .black f.label t near) far).toList :=
      toList_bin_congr rfl toList_paint
    exact hpaint.trans toList_rotate
  · have hpaint : (bin f.side .black f.label t (bin f.side .red y near far)).toList =
        (f.fill t).toList := by
      rw [Frame.fill, h]
      exact toList_bin_congr rfl (toList_bin_congr rfl rfl)
    rw [eraseTurn_flip h hnear hfar]
    split
    · exact hpaint
    · exact hpaint
  · rw [eraseTurn_near h hfar, Frame.fill, h]
    have hinner : (bin f.side c y (bin f.side .red z a b) far).toList =
        (bin f.side .black z a (bin f.side .black y b far)).toList := toList_rotate
    have houter : (bin f.side f.color z (bin f.side .black f.label t a)
        (bin f.side .black y b far)).toList = (bin f.side f.color f.label t
          (bin f.side .black z a (bin f.side .black y b far))).toList := toList_rotate
    exact houter.trans (toList_bin_congr rfl hinner.symm)

/-- The repair moves nothing. -/
theorem toList_eraseFix : (eraseFix p t).toList = (p.plug t).toList := by
  induction p generalizing t with
  | nil => rfl
  | cons f fs ih =>
    cases hc : f.sibling.color with
    | red =>
      obtain ⟨y, near, far, h⟩ := exists_red f.side hc
      have hturn := toList_eraseTurn (f := ⟨f.side, .red, f.label, near⟩) (t := t)
      rw [eraseFix_red h]
      refine toList_plug_congr fs ?_
      rw [Frame.fill, Frame.fill, h]
      refine Eq.trans (toList_bin_congr (d := f.color) hturn rfl) ?_
      exact toList_rotate
    | black =>
      have hturn := toList_eraseTurn (f := f) (t := t)
      rw [eraseFix_black hc]
      cases hu : eraseTurn f t with
      | inl u =>
        rw [hu] at hturn
        exact toList_plug_congr fs hturn
      | inr u =>
        rw [hu] at hturn
        exact ih.trans (toList_plug_congr fs hturn)

/-- A tree in the place of the parent, in its color and with its black height. -/
theorem Hole.replace (hp : Hole (f :: fs) d n) {l r : ColorTree α} (hl : Balanced l .black n)
    (hr : Balanced r .black n) : IsRedBlack (Spine.plug fs (bin f.side f.color y l r)) := by
  cases hp with
  | red hf _ hne hp =>
    rw [hf]
    exact hp.plug (hl.bin_red hr) fun _ => ⟨rfl, hne⟩
  | black hf _ hp =>
    rw [hf]
    exact hp.plug_black (hl.bin_black hr)

/-- What one level of the repair leaves to do. -/
theorem eraseTurn_spec (ht : Balanced t .black n) (hp : Hole (f :: fs) d (n + 1))
    (hblack : f.sibling.color = .black) :
    match eraseTurn f t with
    | .inl u => IsRedBlack (plug fs u)
    | .inr u => f.color = .black ∧ Balanced u .black (n + 1) ∧ ∃ e, Hole fs e (n + 2) := by
  have hsib : Balanced f.sibling .black (n + 1) := by
    cases hp with
    | red _ h => exact h
    | black _ h => exact h.black_of_color hblack
  rcases sibling_cases f with h | ⟨c, y, near, far, h, hcase⟩
  · rw [h] at hsib
    cases hsib
  obtain rfl : c = .black := by simpa [h] using hblack
  rw [h] at hsib
  obtain ⟨⟨c, hnear⟩, e, hfar⟩ := balanced_black.mp hsib
  rcases hcase with hred | ⟨hfarb, hnearb | ⟨z, a, b, rfl⟩⟩
  · rw [eraseTurn_far h hred]
    obtain ⟨z, a, b, rfl⟩ := exists_red f.side hred
    obtain ⟨ha, hb⟩ := balanced_red.mp (hfar.red_of_color hred)
    rw [paint_bin]
    exact hp.replace (ht.bin_black hnear) (ha.bin_black hb)
  · have hu : Balanced (bin f.side .black f.label t (bin f.side .red y near far)) .black (n + 1) :=
      ht.bin_black ((hnear.black_of_color hnearb).bin_red (hfar.black_of_color hfarb))
    rw [eraseTurn_flip h hnearb hfarb]
    cases hp with
    | red hf _ hne hp =>
      rw [if_pos hf]
      exact hp.plug_black hu
    | black hf _ hp =>
      rw [if_neg (by rw [hf]; decide)]
      exact ⟨hf, hu, _, hp⟩
  · obtain ⟨ha, hb⟩ := balanced_red.mp (hnear.red_of_color color_bin)
    rw [eraseTurn_near h hfarb]
    exact hp.replace (ht.bin_black ha) (hb.bin_black hfar)

/-- The repair ends with a red-black tree. -/
theorem isRedBlack_eraseFix (ht : Balanced t .black n) (hp : Hole p d (n + 1)) :
    IsRedBlack (eraseFix p t) := by
  induction p generalizing t n d with
  | nil => exact ⟨n, ht⟩
  | cons f fs ih =>
    cases hc : f.sibling.color with
    | red =>
      obtain ⟨y, near, far, h⟩ := exists_red f.side hc
      rw [eraseFix_red h]
      cases hp with
      | red _ hsib => rw [hsib.color_eq] at hc; cases hc
      | black hf hsib hp =>
        have hsib := hsib.red_of_color hc
        rw [h] at hsib
        obtain ⟨hnear, hfar⟩ := balanced_red.mp hsib
        have hg : Hole (⟨f.side, f.color, y, far⟩ :: fs) .black (n + 1) := .black hf hfar hp
        have hturn := eraseTurn_spec (f := ⟨f.side, .red, f.label, near⟩) ht
          (.red rfl hnear (List.cons_ne_nil _ _) hg) hnear.color_eq
        cases hu : eraseTurn ⟨f.side, .red, f.label, near⟩ t with
        | inl u =>
          rw [hu] at hturn
          exact hturn
        | inr u =>
          rw [hu] at hturn
          cases hturn.1
    | black =>
      have hturn := eraseTurn_spec ht hp hc
      rw [eraseFix_black hc]
      cases hu : eraseTurn f t with
      | inl u =>
        rw [hu] at hturn
        exact hturn
      | inr u =>
        rw [hu] at hturn
        obtain ⟨-, hbu, e, hfs⟩ := hturn
        exact ih hbu hfs

end

/-! ### Removal -/

/-- The leftmost node below a position: the nodes above it, its color, its label and what is to the
right of it. -/
def first : Spine α → ColorTree α → Option (Spine α × Color × α × ColorTree α)
  | _, leaf => none
  | p, node c leaf x r => some (p, c, x, r)
  | p, node c (node d a y b) x r => first (⟨.left, c, x, r⟩ :: p) (node d a y b)

/-- What takes the place of a node with at most one child. -/
def splice (p : Spine α) (c : Color) (child : ColorTree α) : ColorTree α :=
  match c, child with
  | .black, leaf => eraseFix p leaf
  | _, child => p.plug (child.paint c)

/-- The node at the position, with the color `c`, goes. With two children the leftmost node of the
right one takes its place. -/
def remove (p : Spine α) (c : Color) (l r : ColorTree α) : ColorTree α :=
  match l, first [] r with
  | leaf, _ => splice p c r
  | l, none => splice p c l
  | l, some (q, d, y, child) => splice (q ++ ⟨.right, c, y, l⟩ :: p) d child

section

variable {c d : Color} {x y : α} {l r t u child : ColorTree α} {p q : Spine α} {n m : Nat}

/-- The position and the tree there keep the balance, if the whole is balanced. -/
theorem Hole.of_plug (h : Balanced (p.plug t) .black m) : ∃ c d n, Balanced t c n ∧ Hole p d n ∧
    (c = .red → d = .black ∧ p ≠ []) := by
  induction p generalizing t with
  | nil => exact ⟨_, _, _, h, .root, nofun⟩
  | cons f fs ih =>
    obtain ⟨c, d, n, ht, hp, hred⟩ := ih h
    rw [Frame.fill] at ht
    cases hf : f.color with
    | red =>
      rw [hf] at ht
      obtain rfl : c = .red := by simpa using ht.color_eq.symm
      obtain ⟨ht, hsib⟩ := balanced_red.mp ht
      obtain ⟨rfl, hne⟩ := hred rfl
      exact ⟨_, _, _, ht, .red hf hsib hne hp, nofun⟩
    | black =>
      rw [hf] at ht
      obtain rfl : c = .black := by simpa using ht.color_eq.symm
      cases n with
      | zero => cases hs : f.side <;> rw [hs] at ht <;> cases ht
      | succ n =>
        obtain ⟨⟨c, ht⟩, e, hsib⟩ := balanced_black.mp ht
        exact ⟨_, _, _, ht, .black hf hsib hp, fun _ => ⟨rfl, List.cons_ne_nil _ _⟩⟩

theorem first_none : first p t = none ↔ t = leaf := by
  fun_induction first p t with
  | case1 => simp
  | case2 => simp
  | case3 p c x r d a y b ih => simpa using ih

theorem plug_first (h : first p t = some (q, d, y, child)) :
    q.plug (node d leaf y child) = p.plug t := by
  fun_induction first p t with
  | case1 => cases h
  | case2 p c x r => cases h; rfl
  | case3 p c x r d a y b ih => exact ih h

theorem before_first (h : first p t = some (q, d, y, child)) : q.before = p.before := by
  fun_induction first p t with
  | case1 => cases h
  | case2 p c x r => cases h; rfl
  | case3 p c x r d a y b ih => exact (ih h).trans (List.append_nil _)

/-- The descent to the first node goes to the left. -/
theorem first_left (h : first p t = some (q, d, y, child)) :
    ∃ q', q = q' ++ p ∧ ∀ f ∈ q', f.side = .left := by
  fun_induction first p t with
  | case1 => cases h
  | case2 p c x r => cases h; exact ⟨[], rfl, nofun⟩
  | case3 p c e a z b x r ih =>
    obtain ⟨q', rfl, hq⟩ := ih h
    refine ⟨q' ++ [⟨.left, c, x, r⟩], by simp, fun f hf => ?_⟩
    rcases List.mem_append.mp hf with hf | hf
    · exact hq f hf
    · rw [List.mem_singleton.mp hf]

theorem first_append (h : first p t = some (q, d, y, child)) (fs : Spine α) :
    first (p ++ fs) t = some (q ++ fs, d, y, child) := by
  fun_induction first p t with
  | case1 => cases h
  | case2 p c x r => cases h; rfl
  | case3 p c x r d a y b ih => exact ih h

theorem before_append : before (p ++ q) = q.before ++ p.before := by
  induction p with
  | nil => simp [before]
  | cons f fs ih => rw [List.cons_append, before, before, ih, List.append_assoc]

theorem after_append : after (p ++ q) = p.after ++ q.after := by
  induction p with
  | nil => rfl
  | cons f fs ih => rw [List.cons_append, after, after, ih, List.append_assoc]

theorem toList_splice : (splice p c child).toList = p.before ++ child.toList ++ p.after := by
  unfold splice
  split
  · rw [toList_eraseFix, toList_plug]
  · rw [toList_plug, toList_paint]

theorem remove_leaf : remove p c leaf r = splice p c r := rfl

theorem remove_leaf_right : remove p c l leaf = splice p c l := by cases l <;> rfl

theorem remove_two (hl : l ≠ leaf) (hr : first [] r = some (q, d, y, child)) :
    remove p c l r = splice (q ++ ⟨.right, c, y, l⟩ :: p) d child := by
  cases l with
  | leaf => exact (hl rfl).elim
  | node =>
    unfold remove
    rw [hr]

/-- A node has at most one child, or a next one below it. -/
theorem children_cases (l r : ColorTree α) :
    l = leaf ∨ r = leaf ∨ l ≠ leaf ∧ ∃ q d y child, first [] r = some (q, d, y, child) := by
  by_cases hl : l = leaf
  · exact .inl hl
  · cases hr : first [] r with
    | none => exact .inr (.inl (first_none.mp hr))
    | some next => exact .inr (.inr ⟨hl, _, _, _, _, rfl⟩)

/-- The label of the node is gone, and nothing else. -/
theorem toList_remove :
    (remove p c l r).toList = p.before ++ l.toList ++ r.toList ++ p.after := by
  rcases children_cases l r with rfl | rfl | ⟨hl, q, d, y, child, hr⟩
  · rw [remove_leaf, toList_splice]
    simp [toList]
  · rw [remove_leaf_right, toList_splice]
    simp [toList]
  · have hlist : r.toList = y :: child.toList ++ q.after := by
      rw [← show plug [] r = r from rfl, ← plug_first hr, toList_plug, before_first hr]
      rfl
    rw [remove_two hl hr, toList_splice, before_append, after_append, before_first hr, hlist]
    simp [before, after]

/-- A node with at most one child, below balanced nodes, may go. -/
theorem isRedBlack_splice (hp : Hole p d n) (hred : c = .red → d = .black ∧ p ≠ [])
    (ht : Balanced (node c leaf x child) c n ∨ Balanced (node c child x leaf) c n) :
    IsRedBlack (splice p c child) := by
  cases c with
  | red =>
    have hleaf : child = leaf := by
      rcases ht with h | h
      · cases h with
        | red hl hr => cases hl; cases hr; rfl
      · cases h with
        | red hl hr => cases hr; cases hl; rfl
    subst hleaf
    obtain rfl : n = 0 := by
      rcases ht with h | h <;>
        · cases h with
          | red hl hr => cases hl; rfl
    exact hp.plug_black .leaf
  | black =>
    have hchild : ∃ e, Balanced child e 0 ∧ n = 1 := by
      rcases ht with h | h
      · cases h with
        | black hl hr => cases hl; exact ⟨_, hr, rfl⟩
      · cases h with
        | black hl hr => cases hr; exact ⟨_, hl, rfl⟩
    obtain ⟨e, hchild, rfl⟩ := hchild
    cases hchild with
    | leaf => exact isRedBlack_eraseFix .leaf hp
    | red hl hr => exact hp.plug_black (.black hl hr)

theorem IsRedBlack.relabel (h : IsRedBlack (p.plug (node c l x r))) :
    IsRedBlack (p.plug (node c l y r)) := by
  obtain ⟨m, h⟩ := h
  obtain ⟨e, d, n, ht, hp, hred⟩ := Hole.of_plug h
  refine hp.plug (c := e) ?_ hred
  cases ht with
  | red hl hr => exact .red hl hr
  | black hl hr => exact .black hl hr

/-- The tree stays red-black when a node goes. -/
theorem isRedBlack_remove (h : IsRedBlack (p.plug (node c l x r))) : IsRedBlack (remove p c l r) := by
  rcases children_cases l r with rfl | rfl | ⟨hl, q, d, y, child, hr⟩
  · obtain ⟨m, h⟩ := h
    obtain ⟨e, d, n, ht, hp, hred⟩ := Hole.of_plug h
    obtain rfl := ht.color_eq
    exact isRedBlack_splice hp hred (Or.inl ht)
  · obtain ⟨m, h⟩ := h
    obtain ⟨e, d, n, ht, hp, hred⟩ := Hole.of_plug h
    obtain rfl := ht.color_eq
    rw [remove_leaf_right]
    exact isRedBlack_splice hp hred (Or.inr ht)
  · have hplug : plug (q ++ ⟨.right, c, y, l⟩ :: p) (node d leaf y child) =
        p.plug (node c l y r) := by
      rw [plug_append, plug_first hr]
      rfl
    obtain ⟨m, h⟩ := h.relabel (y := y)
    rw [← hplug] at h
    obtain ⟨e, d, n, ht, hp, hred⟩ := Hole.of_plug h
    obtain rfl := ht.color_eq
    rw [remove_two hl hr]
    exact isRedBlack_splice hp hred (Or.inl ht)

end

/-! ### Height -/

def ColorTree.height : ColorTree α → Nat
  | leaf => 0
  | node _ l _ r => max l.height r.height + 1

theorem Balanced.height_le {t : ColorTree α} {c : Color} {n : Nat} (h : Balanced t c n) :
    t.height ≤ 2 * n + if c = .red then 1 else 0 := by
  induction h with
  | leaf => exact Nat.le_refl 0
  | red _ _ ihl ihr =>
    simp only [ColorTree.height, reduceIte] at *
    simp at ihl ihr
    omega
  | @black l r x c d n _ _ ihl ihr =>
    have hl : l.height ≤ 2 * n + 1 := Nat.le_trans ihl (by split <;> omega)
    have hr : r.height ≤ 2 * n + 1 := Nat.le_trans ihr (by split <;> omega)
    simp only [ColorTree.height]
    omega

theorem Balanced.two_pow_le {t : ColorTree α} {c : Color} {n : Nat} (h : Balanced t c n) :
    2 ^ n ≤ t.toList.length + 1 := by
  induction h with
  | leaf => exact Nat.le_refl 1
  | red _ _ ihl ihr =>
    simp only [ColorTree.toList, List.length_append, List.length_cons]
    omega
  | black _ _ ihl ihr =>
    simp only [ColorTree.toList, List.length_append, List.length_cons, Nat.pow_succ]
    omega

/-- The height is logarithmic in the number of labels. -/
theorem IsRedBlack.height_le {t : ColorTree α} (h : IsRedBlack t) :
    t.height ≤ 2 * Nat.log 2 (t.toList.length + 1) := by
  obtain ⟨n, h⟩ := h
  have hheight : t.height ≤ 2 * n := h.height_le
  have hlog : n ≤ Nat.log 2 (t.toList.length + 1) :=
    Nat.le_log_of_pow_le (by decide) h.two_pow_le
  omega

theorem height_plug_congr (p : Spine α) {t u : ColorTree α} (h : t.height = u.height) :
    (p.plug t).height = (p.plug u).height := by
  induction p generalizing t u with
  | nil => exact h
  | cons f fs ih =>
    refine ih ?_
    rw [Frame.fill, Frame.fill]
    cases f.side <;> simp only [bin, ColorTree.height, h]

theorem length_le_height (p : Spine α) (t : ColorTree α) : p.length + t.height ≤ (p.plug t).height := by
  induction p generalizing t with
  | nil => simp [plug]
  | cons f fs ih =>
    have hfill : t.height + 1 ≤ (f.fill t).height := by
      rw [Frame.fill]
      cases f.side
      · exact Nat.succ_le_succ (Nat.le_max_left _ _)
      · exact Nat.succ_le_succ (Nat.le_max_right _ _)
    have hle := ih (f.fill t)
    rw [plug, List.length_cons]
    omega

/-! ### Search -/

/-- The descent by an order of the labels around the sought place, to a node at that place or to the
leaf where it would be. -/
def zoom (ord : α → Ordering) : Spine α → ColorTree α → Spine α × ColorTree α
  | p, leaf => (p, leaf)
  | p, node c l x r =>
    match ord x with
    | .lt => zoom ord (⟨.left, c, x, r⟩ :: p) l
    | .gt => zoom ord (⟨.right, c, x, l⟩ :: p) r
    | .eq => (p, node c l x r)

section

variable {ord : α → Ordering} {c : Color} {x : α} {l r t u : ColorTree α} {p q : Spine α}

theorem plug_zoom (h : zoom ord p t = (q, u)) : q.plug u = p.plug t := by
  fun_induction zoom ord p t with
  | case1 => cases h; rfl
  | case2 p c l x r hx ih => exact ih h
  | case3 p c l x r hx ih => exact ih h
  | case4 => cases h; rfl

/-- Every label has a position. -/
theorem exists_position (hx : x ∈ t.toList) : ∃ p c l r, Spine.plug p (node c l x r) = t := by
  suffices h : ∀ (q : Spine α), ∃ p c l r, Spine.plug p (node c l x r) = q.plug t from h []
  intro q
  induction t generalizing q with
  | leaf => cases hx
  | node c l y r ihl ihr =>
    rcases List.mem_append.mp hx with hx | hx
    · exact ihl hx (⟨.left, c, y, r⟩ :: q)
    · rcases List.mem_cons.mp hx with rfl | hx
      · exact ⟨q, c, l, r, rfl⟩
      · exact ihr hx (⟨.right, c, y, l⟩ :: q)

theorem ord_of_zoom (h : zoom ord p t = (q, node c l x r)) : ord x = .eq := by
  fun_induction zoom ord p t with
  | case1 => cases h
  | case2 p c l x r hx ih => exact ih h
  | case3 p c l x r hx ih => exact ih h
  | case4 p c l x r hx => cases h; exact hx

/-- The labels before the position are on one side of the sought place, those behind it on the
other. -/
structure Around (ord : α → Ordering) (p : Spine α) : Prop where
  before : ∀ a ∈ p.before, ord a = .gt
  after : ∀ a ∈ p.after, ord a = .lt

theorem Around.nil : Around ord ([] : Spine α) := ⟨nofun, nofun⟩

/-- The order agrees with the order `R` of the labels. -/
structure Cut (R : α → α → Prop) (ord : α → Ordering) : Prop where
  gt : ∀ a b, R a b → ord b = .gt → ord a = .gt
  lt : ∀ a b, R a b → ord a = .lt → ord b = .lt

theorem Around.zoom {R : α → α → Prop} (hcut : Cut R ord) (hp : Around ord p)
    (hsort : (p.plug t).toList.Pairwise R) (h : zoom ord p t = (q, u)) : Around ord q := by
  have hnode : ∀ {p : Spine α} {c : Color} {l r : ColorTree α} {x : α},
      (p.plug (node c l x r)).toList.Pairwise R → (∀ a ∈ l.toList, R a x) ∧ ∀ b ∈ r.toList, R x b := by
    intro p c l r x hs
    rw [toList_plug, toList, List.pairwise_append, List.pairwise_append, List.pairwise_append,
      List.pairwise_cons] at hs
    exact ⟨fun a ha => hs.1.2.1.2.2 a ha x List.mem_cons_self, hs.1.2.1.2.1.1⟩
  fun_induction RedBlack.zoom ord p t with
  | case1 => cases h; exact hp
  | case2 p c l x r hx ih =>
    refine ih ⟨?_, ?_⟩ hsort h
    · intro a ha
      exact hp.before a (by simpa [Spine.before] using ha)
    · intro b hb
      rcases List.mem_append.mp hb with hb | hb
      · rcases List.mem_cons.mp hb with rfl | hb
        · exact hx
        · exact hcut.lt x b ((hnode hsort).2 b hb) hx
      · exact hp.after b hb
  | case3 p c l x r hx ih =>
    refine ih ⟨?_, ?_⟩ hsort h
    · intro a ha
      rcases List.mem_append.mp ha with ha | ha
      · exact hp.before a ha
      · rcases List.mem_append.mp ha with ha | ha
        · exact hcut.gt a x ((hnode hsort).1 a ha) hx
        · obtain rfl := List.mem_singleton.mp ha
          exact hx
    · intro b hb
      exact hp.after b hb
  | case4 => cases h; exact hp

/-- The descent finds a label at the sought place if there is one. -/
theorem zoom_leaf {R : α → α → Prop} (hcut : Cut R ord) (hsort : t.toList.Pairwise R)
    (h : zoom ord [] t = (q, leaf)) : t.toList = q.before ++ q.after ∧
      (∀ a ∈ q.before, ord a = .gt) ∧ ∀ b ∈ q.after, ord b = .lt := by
  have hq := Around.nil.zoom hcut hsort h
  have hlist := toList_plug (t := leaf) q
  rw [plug_zoom h] at hlist
  refine ⟨?_, hq.before, hq.after⟩
  simpa [toList, plug] using hlist

end

end XTunnel.RedBlack
