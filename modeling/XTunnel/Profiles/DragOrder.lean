import Mathlib.Data.List.Chain
import XTunnel.ListMove
import XTunnel.Profiles.Registry

/-! A row of the list screen is dragged to another place, and the new order is saved. -/
namespace XTunnel.Profiles.MainActivity

open ListMove Preferences

/-- `ProfileAdapter.onItemMove`. -/
def onItemMove (items : List ProfileItem) (fromPosition toPosition : Int) : List ProfileItem :=
  if fromPosition < 0 ∨ toPosition < 0 ∨ items.length ≤ fromPosition ∨
      items.length ≤ toPosition then items
  else if fromPosition < toPosition then
    swapUp items fromPosition.toNat (toPosition - fromPosition).toNat
  else swapDown items fromPosition.toNat (fromPosition - toPosition).toNat

/-- `ProfileAdapter.getProfileIdsOrder`. -/
def getProfileIdsOrder (items : List ProfileItem) : List String := items.map ProfileItem.id

/-- The fields of the touch callback and the list of the adapter. -/
structure Drag where
  dragFrom : Int
  dragTo : Int
  items : List ProfileItem

namespace Drag

def start (items : List ProfileItem) : Drag := ⟨-1, -1, items⟩

def onMove (s : Drag) (fromPos toPos : Int) : Drag :=
  if fromPos < 0 ∨ toPos < 0 ∨ fromPos = toPos then s
  else
    { dragFrom := if s.dragFrom = -1 then fromPos else s.dragFrom
      dragTo := toPos
      items := onItemMove s.items fromPos toPos }

/-- The row is let go. -/
def clearView (s : Drag) (p : Preferences) : Drag × Preferences :=
  (start s.items,
    if s.dragFrom ≠ -1 ∧ s.dragTo ≠ -1 ∧ s.dragFrom ≠ s.dragTo then
      p.setProfileOrder (getProfileIdsOrder s.items)
    else p)

def onMoves (s : Drag) (moves : List (Int × Int)) : Drag :=
  moves.foldl (fun s m => s.onMove m.1 m.2) s

end Drag

/-- Every move starts where the one before it ended, and stays in the list. -/
structure Walk (items : List ProfileItem) (moves : List (Int × Int)) : Prop where
  chain : moves.IsChain fun m m' => m'.1 = m.2
  inside : ∀ m ∈ moves, (0 ≤ m.1 ∧ m.1 < items.length) ∧ 0 ≤ m.2 ∧ m.2 < items.length

/-- The entry at `dragFrom` stands at `dragTo`, the others are in their order. Nothing is saved when
these are one place, as nothing has changed; otherwise what is shown is saved. -/
structure Persists (items : List ProfileItem) (p : Preferences) (s : Drag) : Prop where
  moved : s = Drag.start items ∨ ∃ (dragFrom dragTo : Nat) (item : ProfileItem),
    s.dragFrom = dragFrom ∧ s.dragTo = dragTo ∧ items[dragFrom]? = some item ∧
      s.items[dragTo]? = some item ∧ s.items.eraseIdx dragTo = items.eraseIdx dragFrom
  unmoved : s.dragFrom = s.dragTo → s.items = items ∧ (s.clearView p).2 = p
  saved : s.dragFrom ≠ s.dragTo →
    (s.clearView p).2 = p.setProfileOrder (getProfileIdsOrder s.items) ∧
      (getProfileIdsOrder s.items).Perm (getProfileIdsOrder items)
  stored : s.dragFrom ≠ s.dragTo → (∀ id ∈ getProfileIdsOrder items, isBlank id = false) →
    (s.clearView p).2.getProfileOrder = getProfileIdsOrder s.items

variable {items rest : List ProfileItem} {item : ProfileItem} {moves : List (Int × Int)} {s : Drag}
  {i j : Nat} {fromPos toPos : Int}

theorem onItemMove_insertIdx (hi : i ≤ rest.length) (hj : j ≤ rest.length) :
    onItemMove (rest.insertIdx i item) i j = rest.insertIdx j item := by
  have hlen := List.length_insertIdx_of_le_length hi item
  rw [onItemMove, if_neg (by omega)]
  split
  · have hup := swapUp_insertIdx (a := item) (show i + (j - i) ≤ rest.length by omega)
    rw [show ((i : Int).toNat) = i from rfl, show ((j : Int) - i).toNat = j - i by omega, hup]
    congr 1
    omega
  · have hdown := swapDown_insertIdx (a := item) (show i - j ≤ i by omega) hi
    rw [show ((i : Int).toNat) = i from rfl, show ((i : Int) - j).toNat = i - j by omega, hdown]
    congr 1
    omega

/-- No move yet, or the entry from `dragFrom` is at `position` among the others. -/
def Dragged (items : List ProfileItem) (s : Drag) (position : Int) : Prop :=
  s = Drag.start items ∨ ∃ (dragFrom dragTo : Nat) (item : ProfileItem),
    s.dragFrom = dragFrom ∧ s.dragTo = dragTo ∧ position = dragTo ∧ dragTo < items.length ∧
      items[dragFrom]? = some item ∧ s.items = (items.eraseIdx dragFrom).insertIdx dragTo item

theorem dragged_first (hi : i < items.length) (hj : j < items.length) (hne : i ≠ j) :
    Dragged items ((Drag.start items).onMove i j) j := by
  right
  refine ⟨i, j, items[i], ?_, ?_, rfl, hj, List.getElem?_eq_getElem hi, ?_⟩
  · rw [Drag.onMove, if_neg (by omega)]
    rfl
  · rw [Drag.onMove, if_neg (by omega)]
  · have hlen := List.length_eraseIdx_of_lt hi
    have hmove : onItemMove ((items.eraseIdx i).insertIdx i items[i]) i j =
        (items.eraseIdx i).insertIdx j items[i] := onItemMove_insertIdx (by omega) (by omega)
    rw [List.insertIdx_eraseIdx_getElem hi] at hmove
    rw [Drag.onMove, if_neg (by omega)]
    exact hmove

theorem dragged_next {dragFrom : Nat} (hs : s.dragFrom = dragFrom)
    (hitems : s.items = (items.eraseIdx dragFrom).insertIdx i item)
    (hitem : items[dragFrom]? = some item) (hi : i < items.length) (hj : j < items.length)
    (hne : i ≠ j) : Dragged items (s.onMove i j) j := by
  right
  obtain ⟨hlt, -⟩ := List.getElem?_eq_some_iff.mp hitem
  have hlen := List.length_eraseIdx_of_lt hlt
  refine ⟨dragFrom, j, item, ?_, ?_, rfl, hj, hitem, ?_⟩
  · rw [Drag.onMove, if_neg (by omega)]
    dsimp only
    rw [if_neg (by omega), hs]
  · rw [Drag.onMove, if_neg (by omega)]
  · rw [Drag.onMove, if_neg (by omega)]
    dsimp only
    rw [hitems]
    exact onItemMove_insertIdx (by omega) (by omega)

/-- One move takes the entry from its place to another one. -/
theorem dragged_step (hs : Dragged items s fromPos)
    (hfrom : 0 ≤ fromPos ∧ fromPos < items.length) (hto : 0 ≤ toPos ∧ toPos < items.length) :
    Dragged items (s.onMove fromPos toPos) toPos := by
  obtain ⟨i, rfl⟩ := Int.eq_ofNat_of_zero_le hfrom.1
  obtain ⟨j, rfl⟩ := Int.eq_ofNat_of_zero_le hto.1
  by_cases hne : i = j
  · subst hne
    rw [Drag.onMove, if_pos (Or.inr (Or.inr rfl))]
    exact hs
  · rcases hs with rfl | ⟨dragFrom, dragTo, item, hf, -, hpos, -, hitem, hitems⟩
    · exact dragged_first (by omega) (by omega) hne
    · obtain rfl : i = dragTo := Int.ofNat_inj.mp hpos
      exact dragged_next hf hitems hitem (by omega) (by omega) hne

/-- The induction is on the moves: the other entries keep their order through all of them. -/
theorem dragged_moves (hs : Dragged items s fromPos)
    (hhead : ∀ m ∈ moves.head?, m.1 = fromPos ∨ s = Drag.start items) (hw : Walk items moves) :
    ∃ position, Dragged items (s.onMoves moves) position := by
  induction moves generalizing s fromPos with
  | nil => exact ⟨fromPos, hs⟩
  | cons m moves ih =>
    obtain ⟨hfrom, hto⟩ := hw.inside m List.mem_cons_self
    have hsm : Dragged items s m.1 := by
      rcases hhead m rfl with hm | hstart
      · rw [hm]
        exact hs
      · exact Or.inl hstart
    have hnext := dragged_step hsm hfrom hto
    have hchain := List.isChain_cons.mp hw.chain
    exact ih hnext (fun m' hm' => Or.inl (hchain.1 m' hm'))
      ⟨hchain.2, fun m' hm' => hw.inside m' (List.mem_cons_of_mem m hm')⟩

/-- An entry that is taken out and put in again at the same place leaves the list as it was. -/
theorem insertIdx_eraseIdx_of_getElem? (h : items[i]? = some item) :
    (items.eraseIdx i).insertIdx i item = items := by
  obtain ⟨hi, rfl⟩ := List.getElem?_eq_some_iff.mp h
  exact List.insertIdx_eraseIdx_getElem hi

theorem moved_perm (h : items[i]? = some item) (hj : j < items.length) :
    ((items.eraseIdx i).insertIdx j item).Perm items := by
  obtain ⟨hi, -⟩ := List.getElem?_eq_some_iff.mp h
  have hlen := List.length_eraseIdx_of_lt hi
  have hi' := List.perm_insertIdx item (items.eraseIdx i) (show i ≤ _ by omega)
  have hj' := List.perm_insertIdx item (items.eraseIdx i) (show j ≤ _ by omega)
  rw [insertIdx_eraseIdx_of_getElem? h] at hi'
  exact hj'.trans hi'.symm

theorem dragged_persists (p : Preferences) (hs : Dragged items s fromPos) : Persists items p s := by
  rcases hs with rfl | ⟨dragFrom, dragTo, item, hf, ht, -, hlt, hitem, hitems⟩
  · refine ⟨Or.inl rfl, fun _ => ⟨rfl, rfl⟩, ?_, ?_⟩
    · intro hne
      exact (hne rfl).elim
    · intro hne
      exact (hne rfl).elim
  · obtain ⟨hfl, -⟩ := List.getElem?_eq_some_iff.mp hitem
    have hlen := List.length_eraseIdx_of_lt hfl
    have hperm : (getProfileIdsOrder s.items).Perm (getProfileIdsOrder items) := by
      rw [hitems]
      exact (moved_perm hitem hlt).map _
    have hsave : s.dragFrom ≠ s.dragTo →
        (s.clearView p).2 = p.setProfileOrder (getProfileIdsOrder s.items) := by
      intro hne
      exact if_pos ⟨by omega, by omega, hne⟩
    refine ⟨Or.inr ⟨dragFrom, dragTo, item, hf, ht, hitem, ?_, ?_⟩, ?_, ?_, ?_⟩
    · rw [hitems, List.getElem?_insertIdx_self, if_pos (by omega)]
    · rw [hitems, List.eraseIdx_insertIdx_self]
    · intro heq
      obtain rfl : dragFrom = dragTo := by omega
      refine ⟨?_, if_neg fun h => h.2.2 heq⟩
      rw [hitems]
      exact insertIdx_eraseIdx_of_getElem? hitem
    · intro hne
      exact ⟨hsave hne, hperm⟩
    · intro hne hblank
      rw [hsave hne, getProfileOrder_setProfileOrder, List.filter_eq_self]
      intro id hid
      rw [hblank id (hperm.mem_iff.mp hid)]
      rfl

/-- A drag of any number of moves shows the list with one entry moved, and saves what it shows. -/
theorem drag_persists (p : Preferences) (hw : Walk items moves) :
    Persists items p ((Drag.start items).onMoves moves) := by
  have hstart : Dragged items (Drag.start items) 0 := Or.inl rfl
  obtain ⟨position, hs⟩ := dragged_moves hstart (fun _ _ => Or.inr rfl) hw
  exact dragged_persists p hs

/-- A row of the list with this id. -/
def row (id : String) : ProfileItem := ⟨id, id, "", false, 3, false, 0⟩

/-- The first of three rows goes to the end and one place back. -/
theorem drag_persists_three : Persists [row "a", row "b", row "c"] ⟨fun _ => none, "a"⟩
    ((Drag.start [row "a", row "b", row "c"]).onMoves [(0, 2), (2, 1)]) :=
  drag_persists _ ⟨by simp, by simp⟩

end XTunnel.Profiles.MainActivity
