import XTunnel.Profiles.Manual

/-! When a sync repeated with the same nodes changes nothing. -/
namespace XTunnel.Profiles

open Preferences

variable {hash : HashOrder} {p q : Preferences} {nodes : List SubNode} {uuid again : Nat → String}
  {id x : String} {node : SubNode}

/-- The same profiles with the same entries, in the same order, under the same current id. -/
structure SameProfiles (p q : Preferences) : Prop where
  ids : ∀ x, x ∈ q.getProfileIds.elems ↔ x ∈ p.getProfileIds.elems
  entries : ∀ f x, q.get (.profile f x) = p.get (.profile f x)
  order : q.getProfileOrder = p.getProfileOrder
  current : q.getCurrentProfileId = p.getCurrentProfileId
  storedCurrent : q.get (.global .CURRENT_PROFILE_ID) = p.get (.global .CURRENT_PROFILE_ID)

/-- Every node has a server, and nodes share one only if a flagged profile has it already. -/
structure StableNodes (p : Preferences) (nodes : List SubNode) : Prop where
  server : ∀ node ∈ nodes, trim node.server ≠ ""
  shared : nodes.Pairwise fun a b => trim a.server = trim b.server → OldServer p (trim a.server)

instance : Decidable (OldServer p x) := by
  unfold OldServer
  infer_instance

theorem assigned_of_lt {i : Nat} (hi : i < nodes.length) :
    nodeId (oldSubServerToId p p.getProfileIds.elems) uuid nodes[i] i ∈
      (assigned p nodes uuid).map Prod.fst :=
  List.mem_map_of_mem (f := Prod.fst) (mem_assigned.mpr ⟨i, hi, rfl⟩)

/-- After the sync an assigned id has the server of a node it was assigned to. -/
theorem applySubNodes_server (hash : HashOrder) (hx : x ∈ (assigned p nodes uuid).map Prod.fst) :
    ∃ m, ∃ hm : m < nodes.length,
      x = nodeId (oldSubServerToId p p.getProfileIds.elems) uuid nodes[m] m ∧
        (applySubNodes hash p nodes uuid).1.getWssAddr x = nodes[m].server := by
  obtain ⟨node, hn⟩ := lastNode_of_mem hx
  obtain ⟨m, hm, he⟩ := mem_assigned.mp (lastNode_mem hn)
  obtain ⟨rfl, rfl⟩ := Prod.mk.inj he
  exact ⟨m, hm, rfl, (applySubNodes_carries hn).server⟩

/-- The ids of nodes with other servers never meet. -/
theorem applySubNodes_server_eq (hash : HashOrder) (hf : FreshUuids p uuid nodes.length) {i : Nat}
    (hi : i < nodes.length) :
    trim ((applySubNodes hash p nodes uuid).1.getWssAddr
      (nodeId (oldSubServerToId p p.getProfileIds.elems) uuid nodes[i] i)) =
        trim nodes[i].server := by
  obtain ⟨m, hm, he, hs⟩ := applySubNodes_server hash (assigned_of_lt hi)
  rw [hs]
  by_cases hmi : i = m
  · subst hmi
    rfl
  · exact ((nodeId_eq_iff hf hi hm hmi).mp he).1.symm

theorem shared_old (h : StableNodes p nodes) {i j : Nat} (hi : i < nodes.length)
    (hj : j < nodes.length) (hij : i ≠ j) (he : trim nodes[i].server = trim nodes[j].server) :
    OldServer p (trim nodes[i].server) := by
  have hp := List.pairwise_iff_getElem.mp h.shared
  rcases Nat.lt_or_gt_of_ne hij with hlt | hgt
  · exact hp i j hi hj hlt he
  · rw [he]
    exact hp j i hj hi hgt he.symm

/-- The second run finds every node under the id that the first run gave it. -/
theorem resync_nodeId (hf : FreshUuids p uuid nodes.length) (h : StableNodes p nodes) {i : Nat}
    (hi : i < nodes.length) :
    let q := (applySubNodes hash p nodes uuid).1
    nodeId (oldSubServerToId q q.getProfileIds.elems) again nodes[i] i =
      nodeId (oldSubServerToId p p.getProfileIds.elems) uuid nodes[i] i := by
  intro q
  have hserver : trim (q.getWssAddr
      (nodeId (oldSubServerToId p p.getProfileIds.elems) uuid nodes[i] i)) =
      trim nodes[i].server := applySubNodes_server_eq hash hf hi
  have hflag : Flagged q (nodeId (oldSubServerToId p p.getProfileIds.elems) uuid nodes[i] i) :=
    applySubNodes_flagged.mpr (assigned_of_lt hi)
  have hold : OldServer q (trim nodes[i].server) :=
    ⟨h.server _ (List.getElem_mem hi), _, hflag.1, hflag.2, hserver⟩
  rcases nodeId_cases q again nodes[i] i with ⟨-, id, hm, hs, ht, hid⟩ | ⟨hno, -⟩
  · rw [hid]
    obtain ⟨m, hm', rfl, hw⟩ := applySubNodes_server hash (applySubNodes_flagged.mp ⟨hm, hs⟩)
    by_cases hmi : m = i
    · subst hmi
      rfl
    · have he : trim nodes[m].server = trim nodes[i].server := by rw [← ht, ← hw]
      exact (nodeId_eq_iff hf hm' hi hmi).mpr ⟨he, shared_old h hm' hi hmi he⟩
  · exact (hno hold).elim

theorem resync_assigned (hf : FreshUuids p uuid nodes.length) (h : StableNodes p nodes) :
    assigned (applySubNodes hash p nodes uuid).1 nodes again = assigned p nodes uuid := by
  apply List.ext_getElem
  · rw [assigned_length, assigned_length]
  · intro i hi hi'
    have hn : i < nodes.length := by rwa [assigned_length] at hi
    rw [assigned_getElem hn, assigned_getElem hn, resync_nodeId hf h hn]

/-- With the same assignment again, the cleanup loop finds nothing to remove. -/
theorem resync_swept {q : Preferences} (hq : q = (applySubNodes hash p nodes uuid).1)
    (ha : assigned q nodes again = assigned p nodes uuid) :
    swept hash q nodes again = writeNodes hash q (assigned p nodes uuid) := by
  rw [← ha]
  apply swept_cleaned.untouched
  intro x hx hs
  obtain ⟨-, hsub, hn⟩ := stale_writeNodes.mp ⟨hx, hs⟩
  rw [ha] at hn
  apply hn
  rw [← @applySubNodes_flagged hash, ← hq]
  exact ⟨hx, hsub⟩

theorem resync_entry {f : Field} (hf : FreshUuids p uuid nodes.length) (h : StableNodes p nodes) :
    let q := (applySubNodes hash p nodes uuid).1
    (swept hash q nodes again).get (.profile f x) = q.get (.profile f x) := by
  intro q
  have hget : q.get (.profile f x) = (swept hash p nodes uuid).get (.profile f x) :=
    applySubNodes_get (by simp) (by simp)
  have hglobal : q.get (.global .GLOBAL_WS_CONN) = p.get (.global .GLOBAL_WS_CONN) := by
    rw [applySubNodes_get (by decide) (by decide), swept_get_global (by decide) (by decide)]
  rw [resync_swept rfl (resync_assigned hf h), writeNodes_get_profile]
  cases hl : lastNode (assigned p nodes uuid) x with
  | none => rfl
  | some node =>
    -- the first run stored the same values, so only the fields no node stores are read back
    change (nodeValue q node f).or (q.get (.profile f x)) = q.get (.profile f x)
    rw [hget, swept_get_node hl, nodeValue_congr hglobal]
    cases nodeValue p node f <;> simp

theorem resync_ids : let q := (applySubNodes hash p nodes uuid).1
    assigned q nodes again = assigned p nodes uuid →
      (x ∈ (swept hash q nodes again).getProfileIds.elems ↔ x ∈ q.getProfileIds.elems) := by
  intro q ha
  rw [swept_mem, ha]
  constructor
  · rintro (hx | ⟨hx, -⟩)
    · exact (applySubNodes_flagged.mpr hx).1
    · exact hx
  · intro hx
    cases hs : q.isSubProfile x with
    | true => exact Or.inl (applySubNodes_flagged.mp ⟨hx, hs⟩)
    | false => exact Or.inr ⟨hx, rfl⟩

/-- A sync of nodes with servers leaves a registered current profile that has one. -/
theorem applySubNodes_current (hash : HashOrder) (hf : FreshUuids p uuid nodes.length) (hne : nodes ≠ [])
    (hserver : ∀ node ∈ nodes, trim node.server ≠ "") :
    let q := (applySubNodes hash p nodes uuid).1
    q.currentProfileId ∈ q.getProfileIds.elems ∧
      trim (q.getWssAddr q.currentProfileId) ≠ "" := by
  intro q
  have hw : ∀ x, q.getWssAddr x = (swept hash p nodes uuid).getWssAddr x :=
    fun x => getWssAddr_congr (applySubNodes_get (by simp) (by simp))
  by_cases h : CurrentStillExists hash p nodes uuid
  · have hcur : q.currentProfileId = p.currentProfileId := by
      change (applySubNodes hash p nodes uuid).1.currentProfileId = _
      rw [applySubNodes_eq]
      dsimp only
      rw [if_pos h]
      exact swept_currentProfileId
    rw [hcur, hw, applySubNodes_getProfileIds]
    exact h
  · obtain ⟨node, rest, rfl⟩ := List.exists_cons_of_ne_nil hne
    have hcur : q.currentProfileId =
        nodeId (oldSubServerToId p p.getProfileIds.elems) uuid node 0 := by
      change (applySubNodes hash p (node :: rest) uuid).1.currentProfileId = _
      rw [applySubNodes_eq]
      dsimp only
      rw [if_neg h]
      rfl
    have hi : 0 < (node :: rest).length := Nat.succ_pos _
    rw [hcur]
    refine ⟨(applySubNodes_flagged.mpr (assigned_of_lt hi)).1, ?_⟩
    have hs := applySubNodes_server_eq hash hf hi
    exact fun he => hserver node List.mem_cons_self (hs.symm.trans he)

/-- Ids that are all valid and unrepeated keep their places. -/
theorem foldl_addIfAbsent_nil {o : List String} (h : o.Nodup) : o.foldl addIfAbsent [] = o := by
  suffices ∀ r : List String, (r ++ o).Nodup → o.foldl addIfAbsent r = r ++ o from this [] h
  clear h
  induction o with
  | nil => simp
  | cons a o ih =>
    intro r hr
    have ha : addIfAbsent r a = r ++ [a] := by
      have : a ∉ r := fun hm => List.disjoint_of_nodup_append hr hm List.mem_cons_self
      simp [addIfAbsent, this]
    rw [List.foldl_cons, ha, ih _ (by simpa using hr), List.append_assoc]
    rfl

/-- A stored order that lists every non-blank valid id, and valid ids only, is kept. -/
theorem mergeOrder_filter {o r v : List String} (hn : o.Nodup) (hv : ∀ x ∈ o, x ∈ v)
    (hb : ∀ x ∈ o, isBlank x = false) (hr : ∀ x ∈ r, x ∈ v)
    (hall : ∀ x ∈ v, isBlank x = false → x ∈ o) :
    ((mergeOrder o r v).filter fun id => !isBlank id) = o := by
  have hkept : o.filter v.contains = o := by
    rw [List.filter_eq_self]
    intro x hx
    exact List.contains_iff_mem.mpr (hv x hx)
  rw [mergeOrder_eq, hkept, foldl_addIfAbsent_nil hn, foldl_addIfAbsent_filter,
    foldl_addIfAbsent_filter, List.filter_eq_self]
  · intro x hx
    simp [hb x hx]
  · intro x hx hk
    exact hall x (hr x hx) (by simpa using hk)
  · intro x hx hk
    exact foldl_addIfAbsent_mem.mpr (Or.inl (hall x hx (by simpa using hk)))

theorem applySubNodes_order_mem (hx : x ∈ (applySubNodes hash p nodes uuid).1.getProfileOrder) :
    isBlank x = false ∧ x ∈ (applySubNodes hash p nodes uuid).1.getProfileIds.elems := by
  rw [applySubNodes_getProfileOrder, List.mem_filter, newOrder, mem_mergeOrder] at hx
  refine ⟨by simpa using hx.2, ?_⟩
  rw [applySubNodes_getProfileIds]
  rcases hx.1 with hr | hv
  · exact swept_mem.mpr (Or.inl (mem_retained.mp hr))
  · exact hv

theorem resync_order (hf : FreshUuids p uuid nodes.length) (h : StableNodes p nodes) :
    let q := (applySubNodes hash p nodes uuid).1
    (applySubNodes hash q nodes again).1.getProfileOrder = q.getProfileOrder := by
  intro q
  have ha : assigned q nodes again = assigned p nodes uuid := resync_assigned hf h
  have hold : (swept hash q nodes again).getProfileOrder = q.getProfileOrder := by
    apply getProfileOrder_congr
    rw [resync_swept rfl ha, writeNodes_get_global (by decide)]
  rw [applySubNodes_getProfileOrder, newOrder, hold]
  apply mergeOrder_filter applySubNodes_order_nodup
  · exact fun x hx => (resync_ids ha).mpr (applySubNodes_order_mem hx).2
  · exact fun x hx => (applySubNodes_order_mem hx).1
  · exact fun x hx => swept_mem.mpr (Or.inl (mem_retained.mp hx))
  · exact fun x hx hb => mem_applySubNodes_order hb ((resync_ids ha).mp hx)

theorem resync_same (hf : FreshUuids p uuid nodes.length) (hne : nodes ≠ [])
    (h : StableNodes p nodes) :
    let q := (applySubNodes hash p nodes uuid).1
    SameProfiles q (applySubNodes hash q nodes again).1 := by
  intro q
  have ha : assigned q nodes again = assigned p nodes uuid := resync_assigned hf h
  have hcur := applySubNodes_current hash hf hne h.server
  have hstill : CurrentStillExists hash q nodes again := by
    refine ⟨(resync_ids ha).mpr hcur.1, ?_⟩
    rw [getWssAddr_congr (resync_entry hf h)]
    exact hcur.2
  have heq : (applySubNodes hash q nodes again).1 =
      (swept hash q nodes again).setProfileOrder (newOrder hash q nodes again) := by
    rw [applySubNodes_eq]
    exact if_pos hstill
  refine ⟨?_, ?_, resync_order hf h, ?_, ?_⟩
  · intro x
    rw [applySubNodes_getProfileIds]
    exact resync_ids ha
  · intro f x
    rw [applySubNodes_get (by simp) (by simp)]
    exact resync_entry hf h
  · rw [heq]
    exact swept_currentProfileId
  · rw [heq, setProfileOrder_get _ (by decide), swept_get_global (by decide) (by decide)]

/-- A repeated sync that changes nothing finds every flagged profile under its server. -/
theorem stable_of_same (hf : FreshUuids p uuid nodes.length) {q : Preferences}
    (hq : q = (applySubNodes hash p nodes uuid).1) (hf' : FreshUuids q again nodes.length)
    (h : SameProfiles q (applySubNodes hash q nodes again).1) : StableNodes p nodes := by
  have hback : ∀ x, Flagged q x ↔ x ∈ (assigned q nodes again).map Prod.fst := by
    intro x
    rw [← @applySubNodes_flagged hash, Flagged, Flagged, h.ids,
      isSubProfile_congr (h.entries _ x)]
  constructor
  · intro node hm hblank
    obtain ⟨i, hi, rfl⟩ := List.mem_iff_getElem.mp hm
    have hfl := (hback _).mpr (assigned_of_lt hi)
    rcases nodeId_cases q again nodes[i] i with ⟨ho, -⟩ | ⟨-, hid⟩
    · exact ho.1 hblank
    · rw [hid] at hfl
      exact hf'.absent i hi hfl.1
  · apply List.pairwise_iff_getElem.mpr
    intro i j hi hj hij he
    by_contra hno
    -- the second run finds one id only for the shared server
    have hfound : ∀ k (hk : k < nodes.length), trim nodes[k].server = trim nodes[i].server →
        ∃ a, ∃ ha : a < nodes.length, trim nodes[a].server = trim nodes[i].server ∧
          OldServer q (trim nodes[i].server) ∧
          nodeId (oldSubServerToId p p.getProfileIds.elems) uuid nodes[k] k =
            nodeId (oldSubServerToId q q.getProfileIds.elems) again nodes[a] a := by
      intro k hk hki
      have hfl : Flagged q (nodeId (oldSubServerToId p p.getProfileIds.elems) uuid nodes[k] k) := by
        rw [hq]
        exact applySubNodes_flagged.mpr (assigned_of_lt hk)
      have hserver : trim (q.getWssAddr
          (nodeId (oldSubServerToId p p.getProfileIds.elems) uuid nodes[k] k)) =
          trim nodes[i].server := by
        rw [hq, applySubNodes_server_eq hash hf hk, hki]
      obtain ⟨b, hb, hbid⟩ := List.mem_map.mp ((hback _).mp hfl)
      obtain ⟨a, ha, rfl⟩ := mem_assigned.mp hb
      dsimp only at hbid
      rcases nodeId_cases q again nodes[a] a with ⟨ho, id, -, -, ht, hid⟩ | ⟨-, hid⟩
      · have hta : trim nodes[a].server = trim nodes[i].server := by
          rw [← ht, ← hid, hbid, hserver]
        exact ⟨a, ha, hta, hta ▸ ho, hbid.symm⟩
      · rw [← hbid, hid] at hfl
        exact (hf'.absent a ha hfl.1).elim
    obtain ⟨a, ha, hta, ho, hia⟩ := hfound i hi rfl
    obtain ⟨b, hb, htb, -, hjb⟩ := hfound j hj he.symm
    have hab : nodeId (oldSubServerToId q q.getProfileIds.elems) again nodes[a] a =
        nodeId (oldSubServerToId q q.getProfileIds.elems) again nodes[b] b := by
      by_cases hne : a = b
      · subst hne
        rfl
      · exact (nodeId_eq_iff hf' ha hb hne).mpr ⟨hta.trans htb.symm, hta ▸ ho⟩
    have hsame := (nodeId_eq_iff hf hi hj (Nat.ne_of_lt hij)).mp (hia.trans (hab.trans hjb.symm))
    exact hno hsame.2

theorem resync_same_iff (hne : nodes ≠ []) (hf : FreshUuids p uuid nodes.length)
    (hf' : FreshUuids (applySubNodes hash p nodes uuid).1 again nodes.length) :
    SameProfiles (applySubNodes hash p nodes uuid).1
        (applySubNodes hash (applySubNodes hash p nodes uuid).1 nodes again).1 ↔
      StableNodes p nodes := by
  constructor
  · exact stable_of_same hf rfl hf'
  · exact resync_same hf hne

/-- The second sync of two nodes with their own servers changes nothing. -/
theorem resync_same_iff_servers :
    SameProfiles serversSynced (applySubNodes newestFirst serversSynced twoServers nextUuids).1 :=
  have hf : FreshUuids freshInstall firstUuids twoServers.length := freshUuids_first
  (resync_same_iff (List.cons_ne_nil _ _) hf freshUuids_servers).mpr
    ⟨by decide, List.pairwise_pair.mpr fun h => absurd h (by decide)⟩

/-- The second of two equal syncs takes a profile away. -/
theorem resync_drops_profile : FreshUuids freshInstall firstUuids twoIps.length ∧
    FreshUuids afterFirstSync nextUuids twoIps.length ∧
    ¬ SameProfiles afterFirstSync
      (applySubNodes newestFirst afterFirstSync twoIps nextUuids).1 := by
  refine ⟨freshUuids_first, freshUuids_next, fun h => ?_⟩
  have hid := (h.ids "sub_00000001").mpr (by decide)
  revert hid
  decide

end XTunnel.Profiles
