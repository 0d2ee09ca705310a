import XTunnel.Code

/-! hev-list.c: a list through the nodes that are in it. -/
namespace XTunnel

open Code

structure HevListNode where
  next : Option Nat
  prev : Option Nat
deriving DecidableEq, Repr

/-- A list and the memory that its nodes are in. -/
structure HevList where
  head : Option Nat
  tail : Option Nat
  mem : Nat → Option HevListNode

namespace HevList

abbrev M := Code HevList

def write (h : HevList) (p : Nat) (n : HevListNode) : HevList :=
  { h with mem := Function.update h.mem p (some n) }

def load (p : Nat) : M HevListNode := fun h => (h.mem p).map (·, h)

def modify (p : Nat) (f : HevListNode → HevListNode) : M Unit := fun h =>
  (h.mem p).map fun n => ((), h.write p (f n))

/-- `self->tail->next = p`, or `self->head = p` when there is no tail. -/
def setNext (node p : Option Nat) : M Unit :=
  match node with
  | some node => modify node fun n => { n with next := p }
  | none => fun h => some ((), { h with head := p })

def setPrev (node p : Option Nat) : M Unit :=
  match node with
  | some node => modify node fun n => { n with prev := p }
  | none => fun h => some ((), { h with tail := p })

def hev_list_first : M (Option Nat) := fun h => some (h.head, h)

def hev_list_node_next (node : Nat) : M (Option Nat) := do return (← load node).next

def hev_list_add_tail (new : Nat) : M Unit := do
  let tail ← (fun h => some (h.tail, h) : M (Option Nat))
  modify new fun _ => { prev := tail, next := none }
  setNext tail (some new)
  setPrev none (some new)

def hev_list_del (node : Nat) : M Unit := do
  let n ← load node
  setNext n.prev n.next
  let n ← load node
  setPrev n.next n.prev

/-- The memory holds the list `l`. -/
structure Holds (h : HevList) (l : List Nat) : Prop where
  head : h.head = l.head?
  tail : h.tail = l.getLast?
  node : ∀ as x bs, l = as ++ x :: bs → h.mem x = some ⟨bs.head?, as.getLast?⟩
  nodup : l.Nodup

/-- The memory differs at most in the addresses `l`. -/
def Same (l : List Nat) (h h' : HevList) : Prop := ∀ q, q ∉ l → h'.mem q = h.mem q

variable {h h' : HevList} {l as bs : List Nat} {x : Nat} {p q : Option Nat} {n m : HevListNode}
  {α : Type} {k : Unit → M α} {R : α → HevList → Prop}

theorem load_bind {k : HevListNode → M α} (hx : h.mem x = some n) (hk : (k n).Ensures h R) :
    (load x >>= k).Ensures h R := by
  refine Ensures.bind ⟨n, h, ?_, hk⟩
  rw [load, hx]
  rfl

/-- The state after `setNext`. -/
def withNext (h : HevList) (p q : Option Nat) : HevList where
  head := if p = none then q else h.head
  tail := h.tail
  mem z := (h.mem z).map fun n => if p = some z then { n with next := q } else n

def withPrev (h : HevList) (p q : Option Nat) : HevList where
  head := h.head
  tail := if p = none then q else h.tail
  mem z := (h.mem z).map fun n => if p = some z then { n with prev := q } else n

theorem mem_withNext (z : Nat) : (h.withNext p q).mem z =
    (h.mem z).map fun n => if p = some z then { n with next := q } else n := rfl

theorem mem_withPrev (z : Nat) : (h.withPrev p q).mem z =
    (h.mem z).map fun n => if p = some z then { n with prev := q } else n := rfl

theorem update_mem {f : HevListNode → HevListNode} (hx : h.mem x = some n) :
    Function.update h.mem x (some (f n)) =
      fun z => (h.mem z).map fun n => if some x = some z then f n else n := by
  funext z
  by_cases hz : z = x
  · subst hz
    simp [hx]
  · simp [Function.update_of_ne hz, Ne.symm hz]

theorem setNext_bind (hp : ∀ a, p = some a → (h.mem a).isSome)
    (hk : (k ()).Ensures (h.withNext p q) R) : (setNext p q >>= k).Ensures h R := by
  cases p with
  | none =>
    have he : h.withNext none q = { h with head := q } := by simp [withNext]
    exact Ensures.bind ⟨(), _, rfl, he ▸ hk⟩
  | some a =>
    obtain ⟨n, hn⟩ := Option.isSome_iff_exists.mp (hp a rfl)
    have he : h.withNext (some a) q = h.write a { n with next := q } := by
      rw [write, update_mem (f := fun n => { n with next := q }) hn]
      rfl
    refine Ensures.bind ⟨(), h.write a { n with next := q }, ?_, he ▸ hk⟩
    rw [setNext, modify, hn]
    rfl

theorem ensures_setPrev {R : Unit → HevList → Prop} (hp : ∀ a, p = some a → (h.mem a).isSome)
    (hR : R () (h.withPrev p q)) : (setPrev p q).Ensures h R := by
  cases p with
  | none =>
    have he : h.withPrev none q = { h with tail := q } := by simp [withPrev]
    exact ⟨(), _, rfl, he ▸ hR⟩
  | some a =>
    obtain ⟨n, hn⟩ := Option.isSome_iff_exists.mp (hp a rfl)
    have he : h.withPrev (some a) q = h.write a { n with prev := q } := by
      rw [write, update_mem (f := fun n => { n with prev := q }) hn]
      rfl
    refine ⟨(), h.write a { n with prev := q }, ?_, he ▸ hR⟩
    rw [setPrev, modify, hn]
    rfl

theorem Holds.mem (hh : h.Holds l) (hx : x ∈ l) : (h.mem x).isSome := by
  obtain ⟨as, bs, rfl⟩ := List.append_of_mem hx
  rw [hh.node as x bs rfl]
  rfl

theorem getLast?_snoc {a b : Nat} : (as ++ a :: bs.concat b).getLast? = some b := by
  rw [show as ++ a :: bs.concat b = (as ++ a :: bs) ++ [b] by simp, List.getLast?_concat]

/-- A node that is not in the list goes to its end. -/
theorem ensures_add_tail (hh : h.Holds l) (hx : h.mem x = some n) (hnew : x ∉ l) :
    (hev_list_add_tail x).Ensures h fun _ h' => h'.Holds (l ++ [x]) ∧ Same (x :: l) h h' := by
  have hmem : ∀ z, z ≠ x → (h.write x ⟨none, h.tail⟩).mem z = h.mem z := fun z hz =>
    Function.update_of_ne hz _ _
  have hself : (h.write x ⟨none, h.tail⟩).mem x = some ⟨none, h.tail⟩ := Function.update_self _ _ _
  have htail : ∀ a, h.tail = some a → a ∈ l := fun a ha =>
    List.mem_of_getLast? (hh.tail.symm.trans ha)
  refine Ensures.bind ⟨h.tail, h, rfl, Ensures.bind ⟨(), h.write x ⟨none, h.tail⟩, ?_, ?_⟩⟩
  · rw [modify, hx]
    rfl
  refine setNext_bind (fun a ha => ?_) ⟨(), _, rfl, ⟨?_, ?_, ?_, ?_⟩, ?_⟩
  · rw [hmem a (ne_of_mem_of_not_mem (htail a ha) hnew)]
    exact hh.mem (htail a ha)
  · show (if h.tail = none then some x else h.head) = _
    rw [hh.tail, hh.head]
    cases l with
    | nil => rfl
    | cons a l => simp
  · simp
  · intro as z bs he
    rcases bs.eq_nil_or_concat with rfl | ⟨bs, b, rfl⟩
    · obtain ⟨rfl, hxz⟩ := List.append_inj' he rfl
      obtain rfl : x = z := by simpa using hxz
      have hne : h.tail ≠ some x := fun hc => hnew (htail x hc)
      refine (mem_withNext x).trans ?_
      rw [hself, ← hh.tail]
      simp [hne]
    · obtain ⟨rfl, hxb⟩ := List.append_inj' (by simpa using he : l ++ [x] = (as ++ z :: bs) ++ [b]) rfl
      obtain rfl : x = b := by simpa using hxb
      have hz : z ≠ x := fun hc => hnew (by simp [hc])
      have hnode := hh.node as z bs rfl
      rcases bs.eq_nil_or_concat with rfl | ⟨bs, b, rfl⟩
      · refine (mem_withNext z).trans ?_
        rw [hmem z hz, hnode, hh.tail]
        simp
      · have hbz : b ≠ z := by
          have hnd := hh.nodup
          simp [List.nodup_append] at hnd
          exact fun hc => hnd.2.1.1.2 hc.symm
        have hlast : h.tail = some b := hh.tail.trans getLast?_snoc
        refine (mem_withNext z).trans ?_
        rw [hmem z hz, hnode, hlast]
        simp [hbz]
  · exact List.nodup_append.mpr ⟨hh.nodup, List.nodup_singleton x, fun a ha b hb =>
      List.mem_singleton.mp hb ▸ ne_of_mem_of_not_mem ha hnew⟩
  · intro q hq
    simp only [List.mem_cons, not_or] at hq
    show ((h.write x ⟨none, h.tail⟩).mem q).map _ = _
    rw [hmem q hq.1]
    have hne : h.tail ≠ some q := fun hc => hq.2 (htail q hc)
    simp [hne]

/-- An element of two lists in a row is in the second one or in the first one. -/
theorem split_append {z : Nat} {cs ds : List Nat} (he : as ++ bs = cs ++ z :: ds) :
    (∃ e, cs = as ++ e ∧ bs = e ++ z :: ds) ∨ ∃ e, as = cs ++ z :: e ∧ ds = e ++ bs := by
  rcases List.append_eq_append_iff.mp he with h | ⟨e, rfl, hd⟩
  · exact .inl h
  · cases e with
    | nil => exact .inl ⟨[], by simp, hd.symm⟩
    | cons y e =>
      obtain ⟨rfl, rfl⟩ := List.cons.inj hd
      exact .inr ⟨e, rfl, rfl⟩

/-- A node of the list goes. -/
theorem ensures_del (hh : h.Holds (as ++ x :: bs)) :
    (hev_list_del x).Ensures h fun _ h' => h'.Holds (as ++ bs) ∧ Same (as ++ bs) h h' := by
  have hnd := hh.nodup
  simp only [List.nodup_append, List.nodup_cons, List.mem_cons] at hnd
  obtain ⟨hnda, ⟨hxb, hndb⟩, hdis⟩ := hnd
  have hxa : x ∉ as := fun hm => hdis x hm x (.inl rfl) rfl
  have hx := hh.node as x bs rfl
  have hprev : ∀ a, as.getLast? = some a → a ∈ as := fun a => List.mem_of_getLast?
  have hnext : ∀ b, bs.head? = some b → b ∈ bs := fun b => List.mem_of_head?
  have hx₁ : (h.withNext as.getLast? bs.head?).mem x = some ⟨bs.head?, as.getLast?⟩ := by
    rw [mem_withNext, hx, Option.map_some, if_neg fun hc => hxa (hprev x hc)]
  refine load_bind hx (setNext_bind (fun a ha => hh.mem (by simp [hprev a ha]))
    (load_bind hx₁ (ensures_setPrev (fun b hb => ?_) ⟨⟨?_, ?_, ?_, ?_⟩, ?_⟩)))
  · rw [mem_withNext, Option.isSome_map]
    exact hh.mem (by simp [hnext b hb])
  · show (if as.getLast? = none then bs.head? else h.head) = (as ++ bs).head?
    rw [hh.head]
    cases as with
    | nil => rfl
    | cons a as => simp
  · show (if bs.head? = none then as.getLast? else h.tail) = (as ++ bs).getLast?
    rw [hh.tail]
    cases bs with
    | nil => simp
    | cons b bs => simp
  · intro cs z ds he
    rw [mem_withPrev, mem_withNext]
    rcases split_append he with ⟨e, rfl, rfl⟩ | ⟨e, rfl, rfl⟩
    · -- the node is behind the one that goes
      have hz : z ∉ as := fun hm => hdis z hm z (.inr (by simp)) rfl
      have hnode := hh.node (as ++ x :: e) z ds (by simp)
      have ha : as.getLast? ≠ some z := fun hc => hz (hprev z hc)
      rw [hnode, Option.map_some, if_neg ha, Option.map_some]
      cases e with
      | nil => simp
      | cons y e =>
        have hyz : y ≠ z := by
          rintro rfl
          simp at hndb
        simp [hyz]
    · -- it is before
      have hz : z ∉ bs := fun hm => hdis z (by simp) z (.inr hm) rfl
      have hnode := hh.node cs z (e ++ x :: bs) (by simp)
      have hb : bs.head? ≠ some z := fun hc => hz (hnext z hc)
      rw [hnode, Option.map_some, Option.map_some, if_neg hb]
      rcases e.eq_nil_or_concat with rfl | ⟨e, y, rfl⟩
      · simp
      · have hyz : y ≠ z := by
          rintro rfl
          simp [List.nodup_append] at hnda
        rw [getLast?_snoc]
        simp [hyz]
  · exact List.nodup_append.mpr ⟨hnda, hndb, fun a ha b hb => hdis a ha b (.inr hb)⟩
  · intro q hq
    simp only [List.mem_append, not_or] at hq
    rw [mem_withPrev, mem_withNext, Option.map_map]
    have ha : as.getLast? ≠ some q := fun hc => hq.1 (hprev q hc)
    have hb : bs.head? ≠ some q := fun hc => hq.2 (hnext q hc)
    cases h.mem q <;> simp [ha, hb]

/-- A node goes to the end of the list that it is in. -/
theorem ensures_move_tail (hh : h.Holds l) (hx : x ∈ l) :
    (hev_list_del x >>= fun _ => hev_list_add_tail x).Ensures h fun _ h' =>
      h'.Holds (l.erase x ++ [x]) ∧ Same l h h' := by
  obtain ⟨as, bs, rfl⟩ := List.append_of_mem hx
  have hn := hh.nodup
  have hxa : x ∉ as := by
    rw [List.nodup_append] at hn
    exact fun hm => hn.2.2 x hm x List.mem_cons_self rfl
  have hxb : x ∉ bs := by
    rw [List.nodup_append, List.nodup_cons] at hn
    exact hn.2.1.1
  have hxab : x ∉ as ++ bs := by simp [hxa, hxb]
  rw [List.erase_append_right _ hxa, List.erase_cons_head]
  refine (ensures_del hh).seq fun _ h₁ ⟨hh₁, hs₁⟩ => ?_
  have hx₁ := (hs₁ x hxab).trans (hh.node as x bs rfl)
  refine (ensures_add_tail hh₁ hx₁ hxab).mono fun _ h₂ ⟨hh₂, hs₂⟩ => ⟨hh₂, fun q hq => ?_⟩
  have hq' : q ∉ x :: (as ++ bs) := fun hm => hq (by
    simp only [List.mem_cons, List.mem_append] at hm ⊢
    tauto)
  exact (hs₂ q hq').trans (hs₁ q fun hm => hq' (List.mem_cons_of_mem _ hm))

theorem ensures_del_mem (hh : h.Holds l) (hx : x ∈ l) :
    (hev_list_del x).Ensures h fun _ h' => h'.Holds (l.erase x) ∧ Same l h h' := by
  obtain ⟨as, bs, rfl⟩ := List.append_of_mem hx
  have hxa : x ∉ as := by
    have hn := hh.nodup
    rw [List.nodup_append] at hn
    exact fun hm => hn.2.2 x hm x List.mem_cons_self rfl
  rw [List.erase_append_right _ hxa, List.erase_cons_head]
  refine (ensures_del hh).mono fun _ h' hres => ⟨hres.1, fun q hq => hres.2 q fun hm => hq ?_⟩
  simp only [List.mem_append, List.mem_cons] at hm ⊢
  tauto

/-- Memory outside of the list does not matter. -/
theorem Holds.congr (hh : h.Holds l) (hhead : h'.head = h.head) (htail : h'.tail = h.tail)
    (hs : ∀ q ∈ l, h'.mem q = h.mem q) : h'.Holds l where
  head := hhead.trans hh.head
  tail := htail.trans hh.tail
  node as x bs he := (hs x (by simp [he])).trans (hh.node as x bs he)
  nodup := hh.nodup

end HevList

end XTunnel
