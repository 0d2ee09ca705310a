import XTunnel.LinkedMap
import XTunnel.Profiles.Idempotence
import XTunnel.Profiles.Registry

/-! The stored order after a sync, and the list screen that reads it. -/
namespace XTunnel.Profiles

open Preferences MainActivity

variable {hash : HashOrder} {p : Preferences} {nodes : List SubNode} {uuid : Nat → String}
  {id x : String} {keep : String → Bool} {ids r o v : List String}

/-- The ids of the old order that are still valid, each at its first place, then the other
subscription ids, then any others. -/
def orderAfterSync (oldOrder subs allValidIds : List String) : List String :=
  let kept := (oldOrder.filter allValidIds.contains).eraseDups
  kept ++ subs.removeAll kept ++ allValidIds.removeAll (kept ++ subs)

/-- The ids of the nodes, each at its first node. -/
def subscriptionOrder (p : Preferences) (nodes : List SubNode) (uuid : Nat → String) :
    List String :=
  ((assigned p nodes uuid).map Prod.fst).eraseDups

theorem foldl_addIfAbsent_eq (l r : List String) :
    l.foldl addIfAbsent r = r ++ (l.removeAll r).eraseDups := by
  induction l generalizing r with
  | nil => simp [List.removeAll]
  | cons a l ih =>
    rw [List.foldl_cons, ih, List.cons_removeAll]
    by_cases ha : a ∈ r
    · have hadd : addIfAbsent r a = r := if_pos (List.contains_iff_mem.mpr ha)
      rw [hadd, List.contains_iff_mem.mpr ha]
      rfl
    · have hadd : addIfAbsent r a = r ++ [a] := if_neg (mt List.contains_iff_mem.mp ha)
      have hnew : r.contains a = false := by simpa using ha
      have hlater : l.removeAll (r ++ [a]) = (l.removeAll r).filter fun b => !b == a := by
        rw [List.removeAll, List.removeAll, List.filter_filter]
        refine List.filter_congr fun b _ => ?_
        by_cases hb : b = a <;> simp [hb]
      rw [hadd, hnew, hlater]
      simp [List.eraseDups_cons]

theorem retained_eq : retained p nodes uuid = subscriptionOrder p nodes uuid := by
  rw [retained, foldl_addIfAbsent_eq, List.removeAll_nil, List.nil_append, subscriptionOrder]

theorem mergeOrder_parts (hr : r.Nodup) (hv : v.Nodup) :
    mergeOrder o r v = orderAfterSync o r v := by
  have hsub : ∀ {l m : List String}, l.Nodup → (l.removeAll m).eraseDups = l.removeAll m :=
    fun hl => eraseDups_of_nodup (hl.filter _)
  have hkept : ∀ {l m : List String}, m.removeAll (l ++ r.removeAll l) = m.removeAll (l ++ r) := by
    intro l m
    refine List.filter_congr fun y _ => ?_
    by_cases hl : y ∈ l <;> simp [List.removeAll, hl]
  rw [mergeOrder_eq, foldl_addIfAbsent_eq, foldl_addIfAbsent_eq, foldl_addIfAbsent_eq,
    List.removeAll_nil, List.nil_append, hsub hr, hsub hv, hkept]
  rfl

section Cleanup

/-- Removal takes no other id out of the order, blank ones apart. -/
theorem removeProfile_order_filter (hid : keep id = false)
    (hb : ∀ x, keep x = true → isBlank x = false) :
    (p.removeProfile hash id).getProfileOrder.filter keep = p.getProfileOrder.filter keep := by
  by_cases hm : id ∈ p.getProfileIds.elems
  · rw [removeProfile_of_mem hm]
    split
    · have hnot : id ∉ p.getProfileOrder.filter keep := by
        intro h
        rw [List.mem_filter, hid] at h
        cases h.2
      have hboth : ∀ l : List String,
          (l.filter fun id => !isBlank id).filter keep = l.filter keep := by
        intro l
        rw [List.filter_filter]
        refine List.filter_congr fun y _ => ?_
        cases hy : keep y with
        | true => simp [hb y hy]
        | false => rfl
      rw [getProfileOrder_setProfileOrder, hboth, ← List.erase_filter, List.erase_of_not_mem hnot]
    · have hsame : (p.eraseProfile hash id).getProfileOrder = p.getProfileOrder :=
        getProfileOrder_congr (by simp [eraseProfile_get, Key.ownedBy])
      rw [hsame]
  · rw [removeProfile_of_notMem hm]

theorem stale_of_removeProfile (h : Stale (p.removeProfile hash id) r x) : Stale p r x := by
  by_cases hm : id ∈ p.getProfileIds.elems
  · have hget : (p.removeProfile hash id).get (.profile .PROFILE_IS_SUB x) =
        if x = id then none else p.get (.profile .PROFILE_IS_SUB x) := by
      rw [removeProfile_get hm (by simp), eraseProfile_get]
      simp [Key.ownedBy]
    by_cases hx : x = id
    · rw [if_pos hx] at hget
      have hflag : (p.removeProfile hash id).isSubProfile x = false :=
        SharedPreferences.getBoolean_congr (s := fun _ => none) hget false
      rw [h.1] at hflag
      cases hflag
    · rw [if_neg hx] at hget
      exact (stale_congr hget).mp h
  · rwa [removeProfile_of_notMem hm] at h

theorem removeStale_order_filter (hkeep : ∀ x ∈ ids, Stale p r x → keep x = false)
    (hb : ∀ x, keep x = true → isBlank x = false) :
    (removeStale hash p ids r).getProfileOrder.filter keep = p.getProfileOrder.filter keep := by
  induction ids generalizing p with
  | nil => rfl
  | cons a ids ih =>
    have htail : ∀ x ∈ ids, Stale p r x → keep x = false :=
      fun x hx => hkeep x (List.mem_cons_of_mem a hx)
    rw [removeStale_cons]
    split
    · rename_i hs
      have ha : keep a = false := hkeep a List.mem_cons_self (by simpa [Stale] using hs)
      rw [ih fun x hx hx' => htail x hx (stale_of_removeProfile hx')]
      exact removeProfile_order_filter ha hb
    · exact ih htail

/-- Among the ids that are valid after the cleanup, the cleanup leaves the order alone. -/
theorem swept_order_filter (hp : NonBlankIds p) :
    let valid := (swept hash p nodes uuid).getProfileIds.elems.contains
    (swept hash p nodes uuid).getProfileOrder.filter valid = p.getProfileOrder.filter valid := by
  intro valid
  have hq : NonBlankIds (applySubNodes hash p nodes uuid).1 := nonBlankIds_applySubNodes hp
  have hb : ∀ x, valid x = true → isBlank x = false := by
    intro x hx
    have hm : x ∈ (swept hash p nodes uuid).getProfileIds.elems := List.contains_iff_mem.mp hx
    rw [← applySubNodes_getProfileIds] at hm
    exact hq x hm
  have hkeep : ∀ x ∈ p.getProfileIds.elems,
      Stale (writeNodes hash p (assigned p nodes uuid)) (retained p nodes uuid) x →
        valid x = false := by
    intro x hx hs
    rw [Bool.eq_false_iff]
    intro hv
    exact ((swept_cleaned.mem x).mp (List.contains_iff_mem.mp hv)).2 ⟨hx, hs⟩
  have hwrites : (writeNodes hash p (assigned p nodes uuid)).getProfileOrder = p.getProfileOrder :=
    getProfileOrder_congr (writeNodes_get_global (by decide))
  rw [← hwrites]
  exact removeStale_order_filter hkeep hb

end Cleanup

theorem orderEnumerates_applySubNodes (hp : NonBlankIds p) :
    OrderEnumerates (applySubNodes hash p nodes uuid).1 where
  nodup := applySubNodes_order_nodup
  mem_iff x := by
    constructor
    · exact fun hx => (applySubNodes_order_mem hx).2
    · exact fun hx => mem_applySubNodes_order (nonBlankIds_applySubNodes hp x hx) hx

theorem applySubNodes_order_eq (hp : NonBlankIds p) :
    (applySubNodes hash p nodes uuid).1.getProfileOrder = orderAfterSync p.getProfileOrder
      (subscriptionOrder p nodes uuid)
      (applySubNodes hash p nodes uuid).1.getProfileIds.elems := by
  have hnonblank : NonBlankIds (applySubNodes hash p nodes uuid).1 := nonBlankIds_applySubNodes hp
  rw [applySubNodes_getProfileOrder, List.filter_eq_self.mpr]
  · have hr : (retained p nodes uuid).Nodup := foldl_addIfAbsent_nodup List.nodup_nil
    rw [newOrder, mergeOrder_parts hr (StringSet.nodup _), applySubNodes_getProfileIds, retained_eq]
    simp only [orderAfterSync, swept_order_filter hp]
  · intro x hx
    rw [newOrder, mem_mergeOrder, mem_retained] at hx
    have hm : x ∈ (swept hash p nodes uuid).getProfileIds.elems := by
      rcases hx with hx | hx
      · exact swept_mem.mpr (Or.inl hx)
      · exact hx
    rw [← applySubNodes_getProfileIds] at hm
    rw [hnonblank x hm]
    rfl

/-- A list screen over a stored order that enumerates the ids shows it as it stands. -/
theorem getSortedProfileItems_of_enumerates (h : OrderEnumerates p) :
    (getSortedProfileItems p).1.map (·.id) = p.getProfileOrder ∧
      (getSortedProfileItems p).2 = p := by
  have hvalid : p.getProfileOrder.filter p.getProfileIds.elems.contains = p.getProfileOrder := by
    rw [List.filter_eq_self]
    exact fun x hx => List.contains_iff_mem.mpr ((h.mem_iff x).mp hx)
  have hnothing : p.getProfileIds.elems.removeAll p.getProfileOrder = [] := by
    rw [List.removeAll, List.filter_eq_nil_iff]
    intro x hx
    simpa using (h.mem_iff x).mpr hx
  have hfinal : finalOrder p.getProfileOrder p.getProfileIds.elems = p.getProfileOrder := by
    rw [finalOrder_eq, mergeOrder_eq, hvalid, foldl_addIfAbsent_nil h.nodup, List.foldl_nil,
      foldl_addIfAbsent_eq, hnothing]
    exact List.append_nil _
  constructor
  · rw [getSortedProfileItems_ids, hfinal]
  · unfold getSortedProfileItems
    dsimp only
    rw [hfinal, if_neg (not_not.mpr rfl)]

/-- Each registered id once: the survivors of the old order, the other nodes, then any others. The
list screen, whose own instance may show another current profile, reads it back unchanged. -/
theorem applySubNodes_order (hp : NonBlankIds p) :
    let q := (applySubNodes hash p nodes uuid).1
    OrderEnumerates q ∧
      q.getProfileOrder = orderAfterSync p.getProfileOrder (subscriptionOrder p nodes uuid)
        q.getProfileIds.elems ∧
      (∀ id, id ∈ subscriptionOrder p nodes uuid ↔ Flagged q id) ∧
      ∀ shown, (getSortedProfileItems ⟨q.prefs, shown⟩).1.map (·.id) = q.getProfileOrder ∧
        (getSortedProfileItems ⟨q.prefs, shown⟩).2 = ⟨q.prefs, shown⟩ := by
  intro q
  have hq : OrderEnumerates q := orderEnumerates_applySubNodes hp
  refine ⟨hq, applySubNodes_order_eq hp, ?_, ?_⟩
  · intro id
    rw [subscriptionOrder, List.mem_eraseDups]
    exact applySubNodes_flagged.symm
  · intro shown
    have hshown : OrderEnumerates ⟨q.prefs, shown⟩ := ⟨hq.nodup, hq.mem_iff⟩
    exact getSortedProfileItems_of_enumerates hshown

theorem applySubNodes_order_again :
    let q := (applySubNodes newestFirst afterFirstSync twoIps nextUuids).1
    OrderEnumerates q ∧
      q.getProfileOrder = orderAfterSync afterFirstSync.getProfileOrder
        (subscriptionOrder afterFirstSync twoIps nextUuids) q.getProfileIds.elems ∧
      (∀ id, id ∈ subscriptionOrder afterFirstSync twoIps nextUuids ↔ Flagged q id) ∧
      ∀ shown, (getSortedProfileItems ⟨q.prefs, shown⟩).1.map (·.id) = q.getProfileOrder ∧
        (getSortedProfileItems ⟨q.prefs, shown⟩).2 = ⟨q.prefs, shown⟩ :=
  applySubNodes_order (nonBlankIds_applySubNodes (nonBlankIds_initProfiles
    fun _ hx => (List.not_mem_nil hx).elim))

end XTunnel.Profiles
