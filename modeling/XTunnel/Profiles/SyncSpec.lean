import XTunnel.Profiles.Sync

/-! What one sync leaves in the store: one lemma for each part of `applySubNodes`. -/
namespace XTunnel.Profiles

open Preferences

variable {hash : HashOrder} {p : Preferences} {nodes : List SubNode} {uuid : Nat → String}
  {k : Key} {f : Field} {id x : String} {node : SubNode} {l : List (String × SubNode)}

/-- The value that the node loop stores in each field, if it stores one. -/
def nodeValue (p : Preferences) (node : SubNode) : Field → Option Value
  | .PROFILE_NAME => some (.string node.name)
  | .PROFILE_IS_SUB => some (.boolean true)
  | .WSS_ADDR => some (.string node.server)
  | .TOKEN => some (.string node.token)
  | .PREF_IP => some (.string node.ip)
  | .WS_CONN => some (.int (effectiveConn p node))
  | .UDP_BLOCK_PORTS => some (.string node.block)
  | .ECH_DNS => some (.string "https://doh.pub/dns-query")
  | .ECH_DOMAIN => some (.string "cloudflare-ech.com")
  | .DISABLE_ECH => some (.boolean node.fallback)
  | .INSECURE => some (.boolean node.insecure)
  | .IPS_PREF | .PROFILE_LATENCY => none

theorem effectiveConn_congr {q : Preferences}
    (h : q.get (.global .GLOBAL_WS_CONN) = p.get (.global .GLOBAL_WS_CONN)) :
    effectiveConn q node = effectiveConn p node := by
  have hn : q.getGlobalWsConn = p.getGlobalWsConn := SharedPreferences.getInt_congr h _
  unfold effectiveConn hasCustomGlobalWsConn
  rw [h, hn]

theorem effectiveConn_put {v : Value} (hk : k ≠ .global .GLOBAL_WS_CONN) :
    effectiveConn (p.put k v) node = effectiveConn p node :=
  effectiveConn_congr (by rw [get_put, if_neg hk.symm])

theorem nodeValue_congr {q : Preferences}
    (h : q.get (.global .GLOBAL_WS_CONN) = p.get (.global .GLOBAL_WS_CONN)) :
    nodeValue q node f = nodeValue p node f := by
  cases f <;> simp only [nodeValue, effectiveConn_congr h]

/-- Every node stores the same fields. -/
theorem nodeValue_isSome (p q : Preferences) (n m : SubNode) :
    (nodeValue p n f).isSome = (nodeValue q m f).isSome := by
  cases f <;> rfl

theorem writeNode_get_profile : (writeNode hash p id node).get (.profile f x) =
    if x = id then (nodeValue p node f).or (p.get (.profile f x)) else p.get (.profile f x) := by
  simp only [writeNode, setInsecure, setDisableEch, setEchDomain, setEchDns, setUdpBlockPorts,
    setWsConn, setPrefIp, setToken, setWssAddr, setProfileIsSub, addProfile, get_put,
    Key.profile.injEq]
  by_cases hx : x = id
  · cases f <;> simp [hx, nodeValue, effectiveConn_put]
  · simp [hx]

theorem writeNode_get_global {g : Global} : (writeNode hash p id node).get (.global g) =
    if g = .PROFILES then some (.stringSet (p.getProfileIds.add hash id))
    else p.get (.global g) := by
  simp only [writeNode, setInsecure, setDisableEch, setEchDomain, setEchDns, setUdpBlockPorts,
    setWsConn, setPrefIp, setToken, setWssAddr, setProfileIsSub, get_put, addProfile_get]
  simp

theorem writeNode_getProfileIds :
    (writeNode hash p id node).getProfileIds = p.getProfileIds.add hash id :=
  SharedPreferences.getStringSet_of_get (writeNode_get_global.trans (if_pos rfl))

theorem writeNode_currentProfileId :
    (writeNode hash p id node).currentProfileId = p.currentProfileId := by
  simp only [writeNode, setInsecure, setDisableEch, setEchDomain, setEchDns, setUdpBlockPorts,
    setWsConn, setPrefIp, setToken, setWssAddr, setProfileIsSub, addProfile,
    currentProfileId_put]

/-- The writes of the node loop, in order. -/
def writeNodes (hash : HashOrder) (p : Preferences) (l : List (String × SubNode)) : Preferences :=
  l.foldl (fun p a => writeNode hash p a.1 a.2) p

/-- The last node assigned to an id. -/
def lastNode : List (String × SubNode) → String → Option SubNode
  | [], _ => none
  | a :: l, x => (lastNode l x).or (if a.1 = x then some a.2 else none)

theorem lastNode_mem (h : lastNode l x = some node) : (x, node) ∈ l := by
  induction l with
  | nil => cases h
  | cons a l ih =>
    rw [lastNode, Option.or_eq_some_iff] at h
    rcases h with h | ⟨-, h⟩
    · exact List.mem_cons_of_mem _ (ih h)
    · split at h
      · rename_i he
        cases h
        subst he
        exact List.mem_cons_self
      · cases h

theorem lastNode_eq_none : lastNode l x = none ↔ x ∉ l.map Prod.fst := by
  induction l with
  | nil => simp [lastNode]
  | cons a l ih =>
    rw [lastNode, Option.or_eq_none_iff, ih, List.map_cons, List.mem_cons, not_or, and_comm]
    simp [eq_comm]

theorem lastNode_of_mem (h : x ∈ l.map Prod.fst) : ∃ node, lastNode l x = some node := by
  cases he : lastNode l x with
  | none => exact (lastNode_eq_none.mp he h).elim
  | some node => exact ⟨node, rfl⟩

theorem writeNodes_get_global {g : Global} (hg : g ≠ .PROFILES) :
    (writeNodes hash p l).get (.global g) = p.get (.global g) := by
  induction l generalizing p with
  | nil => rfl
  | cons a l ih =>
    have hs := ih (p := writeNode hash p a.1 a.2)
    rw [writeNode_get_global, if_neg hg] at hs
    exact hs

/-- The last node assigned to an id decides its fields; fields no node stores stay. -/
theorem writeNodes_get_profile : (writeNodes hash p l).get (.profile f x) =
    match lastNode l x with
    | some node => (nodeValue p node f).or (p.get (.profile f x))
    | none => p.get (.profile f x) := by
  induction l generalizing p with
  | nil => rfl
  | cons a l ih =>
    have hs := ih (p := writeNode hash p a.1 a.2)
    have hg : (writeNode hash p a.1 a.2).get (.global .GLOBAL_WS_CONN) =
        p.get (.global .GLOBAL_WS_CONN) := by rw [writeNode_get_global, if_neg (by decide)]
    change (writeNodes hash (writeNode hash p a.1 a.2) l).get (.profile f x) = _
    rw [hs, lastNode]
    cases hl : lastNode l x with
    | none =>
      rw [writeNode_get_profile]
      by_cases hx : x = a.1
      · simp [hx]
      · simp [hx, Ne.symm hx]
    | some n =>
      simp only [Option.some_or]
      rw [nodeValue_congr hg, writeNode_get_profile]
      by_cases hx : x = a.1
      · have hsome := nodeValue_isSome (f := f) p p n a.2
        rw [if_pos hx]
        cases hn : nodeValue p n f <;> cases ha : nodeValue p a.2 f <;> simp_all
      · rw [if_neg hx]

theorem writeNodes_mem : x ∈ (writeNodes hash p l).getProfileIds.elems ↔
    x ∈ l.map Prod.fst ∨ x ∈ p.getProfileIds.elems := by
  induction l generalizing p with
  | nil => simp [writeNodes]
  | cons a l ih =>
    have hs := ih (p := writeNode hash p a.1 a.2)
    rw [writeNode_getProfileIds, StringSet.mem_add] at hs
    change x ∈ (writeNodes hash (writeNode hash p a.1 a.2) l).getProfileIds.elems ↔ _
    rw [hs, List.map_cons, List.mem_cons]
    tauto

theorem writeNodes_currentProfileId :
    (writeNodes hash p l).currentProfileId = p.currentProfileId := by
  induction l generalizing p with
  | nil => rfl
  | cons a l ih => exact (ih (p := writeNode hash p a.1 a.2)).trans writeNode_currentProfileId

theorem addIfAbsent_mem {l : List String} : x ∈ addIfAbsent l id ↔ x ∈ l ∨ x = id := by
  unfold addIfAbsent
  split
  · rename_i h
    rw [List.contains_iff_mem] at h
    constructor
    · exact Or.inl
    · rintro (h' | rfl) <;> assumption
  · simp

theorem addIfAbsent_nodup {l : List String} (h : l.Nodup) : (addIfAbsent l id).Nodup := by
  unfold addIfAbsent
  split
  · exact h
  · rename_i hc
    rw [List.contains_iff_mem] at hc
    exact h.append (List.nodup_singleton id) (List.disjoint_singleton.mpr hc)

theorem foldl_addIfAbsent_mem {l r : List String} :
    x ∈ l.foldl addIfAbsent r ↔ x ∈ r ∨ x ∈ l := by
  induction l generalizing r with
  | nil => simp
  | cons a l ih =>
    rw [List.foldl_cons, ih, addIfAbsent_mem, List.mem_cons, or_assoc]

theorem foldl_addIfAbsent_nodup {l r : List String} (h : r.Nodup) :
    (l.foldl addIfAbsent r).Nodup := by
  induction l generalizing r with
  | nil => exact h
  | cons a l ih => exact ih (addIfAbsent_nodup h)

/-- Adding ids that a filter drops, or that are present, is invisible through the filter. -/
theorem foldl_addIfAbsent_filter {l r : List String} {keep : String → Bool}
    (h : ∀ x ∈ l, keep x = true → x ∈ r) :
    (l.foldl addIfAbsent r).filter keep = r.filter keep := by
  induction l generalizing r with
  | nil => rfl
  | cons a l ih =>
    rw [List.foldl_cons, ih]
    · unfold addIfAbsent
      split
      · rfl
      · rename_i hc
        rw [List.contains_iff_mem] at hc
        have hk : keep a = false := by
          by_contra hk
          exact hc (h a List.mem_cons_self (by simpa using hk))
        simp [hk]
    · intro x hx hk
      exact addIfAbsent_mem.mpr (Or.inl (h x (List.mem_cons_of_mem _ hx) hk))

/-- The ids that the node loop assigns, each with its node. -/
def assigned (p : Preferences) (nodes : List SubNode) (uuid : Nat → String) :
    List (String × SubNode) :=
  nodes.zipIdx.map fun n =>
    (nodeId (oldSubServerToId p p.getProfileIds.elems) uuid n.1 n.2, n.1)

/-- The node loop as a fold over the assigned ids. -/
theorem syncLoop_eq (servers : List (String × String)) (ns : List (SubNode × Nat))
    (r : List String) (first : Option String) :
    ns.foldl (syncNode hash servers uuid) ⟨p, r, first⟩ =
      let l := ns.map fun n => (nodeId servers uuid n.1 n.2, n.1)
      ⟨writeNodes hash p l, (l.map Prod.fst).foldl addIfAbsent r,
        first.or (l.map Prod.fst).head?⟩ := by
  induction ns generalizing p r first with
  | nil => simp [writeNodes]
  | cons n ns ih =>
    rw [List.foldl_cons, syncNode, ih]
    cases first <;> simp [writeNodes]

/-- The retained ids, in subscription order. -/
def retained (p : Preferences) (nodes : List SubNode) (uuid : Nat → String) : List String :=
  ((assigned p nodes uuid).map Prod.fst).foldl addIfAbsent []

theorem mem_retained :
    x ∈ retained p nodes uuid ↔ x ∈ (assigned p nodes uuid).map Prod.fst := by
  simp [retained, foldl_addIfAbsent_mem]

/-- A flagged profile has this server address. -/
def OldServer (p : Preferences) (server : String) : Prop :=
  server ≠ "" ∧ ∃ id ∈ p.getProfileIds.elems,
    p.isSubProfile id = true ∧ trim (p.getWssAddr id) = server

/-- The server map answers with the first flagged id that has the server. -/
theorem lookup_oldSubServerToId (ids : List String) (server : String) :
    (oldSubServerToId p ids).lookup server =
      if server = "" then none
      else ids.find? fun id => p.isSubProfile id && trim (p.getWssAddr id) == server := by
  suffices h : ∀ m : List (String × String),
      (ids.foldl (fun m id =>
        if p.isSubProfile id then
          let server := trim (p.getWssAddr id)
          if !server.isEmpty && (m.lookup server).isNone then m ++ [(server, id)] else m
        else m) m).lookup server =
      (m.lookup server).or (if server = "" then none
        else ids.find? fun id => p.isSubProfile id && trim (p.getWssAddr id) == server) by
    exact h []
  induction ids with
  | nil => intro m; simp
  | cons a ids ih =>
    intro m
    rw [List.foldl_cons, ih, List.find?_cons]
    by_cases hs : p.isSubProfile a = true
    · by_cases hq : trim (p.getWssAddr a) = server
      · by_cases he : server = ""
        · simp [hs, hq, he]
        · cases hl : m.lookup server <;> simp [hs, hq, he, hl, List.lookup_append]
      · have hb : (trim (p.getWssAddr a) == server) = false := beq_eq_false_iff_ne.mpr hq
        have hb' : (server == trim (p.getWssAddr a)) = false := beq_eq_false_iff_ne.mpr (Ne.symm hq)
        simp only [hs, hb, if_true, Bool.and_false]
        split
        · simp [List.lookup_append, List.lookup_cons, hb']
        · rfl
    · simp [hs]

theorem serverId_some {server : String}
    (h : (oldSubServerToId p p.getProfileIds.elems).lookup server = some id) :
    id ∈ p.getProfileIds.elems ∧ p.isSubProfile id = true ∧
      trim (p.getWssAddr id) = server ∧ server ≠ "" := by
  rw [lookup_oldSubServerToId] at h
  split at h
  · cases h
  · rename_i hz
    have hp := List.find?_some h
    simp only [Bool.and_eq_true, beq_iff_eq] at hp
    exact ⟨List.mem_of_find?_eq_some h, hp.1, hp.2, hz⟩

theorem serverId_isSome {server : String} :
    (∃ id, (oldSubServerToId p p.getProfileIds.elems).lookup server = some id) ↔
      OldServer p server := by
  constructor
  · rintro ⟨id, h⟩
    obtain ⟨hm, hs, ht, hz⟩ := serverId_some h
    exact ⟨hz, id, hm, hs, ht⟩
  · rintro ⟨hz, id, hm, hs, ht⟩
    rw [lookup_oldSubServerToId, if_neg hz, ← Option.isSome_iff_exists, List.find?_isSome]
    exact ⟨id, hm, by simp [hs, ht]⟩

theorem assigned_length : (assigned p nodes uuid).length = nodes.length := by
  simp [assigned]

theorem assigned_getElem {i : Nat} (hi : i < nodes.length)
    (h : i < (assigned p nodes uuid).length) : (assigned p nodes uuid)[i] =
      (nodeId (oldSubServerToId p p.getProfileIds.elems) uuid nodes[i] i, nodes[i]) := by
  simp [assigned]

theorem mem_assigned {a : String × SubNode} : a ∈ assigned p nodes uuid ↔
    ∃ i, ∃ hi : i < nodes.length,
      a = (nodeId (oldSubServerToId p p.getProfileIds.elems) uuid nodes[i] i, nodes[i]) := by
  rw [List.mem_iff_getElem]
  constructor
  · rintro ⟨i, hi, rfl⟩
    exact ⟨i, assigned_length ▸ hi, assigned_getElem _ hi⟩
  · rintro ⟨i, hi, rfl⟩
    have h : i < (assigned p nodes uuid).length := assigned_length ▸ hi
    exact ⟨i, h, assigned_getElem hi h⟩

/-- A node of an old server gets a registered id, any other node its own new one. -/
theorem nodeId_cases (p : Preferences) (uuid : Nat → String) (node : SubNode) (i : Nat) :
    (OldServer p (trim node.server) ∧ ∃ id, id ∈ p.getProfileIds.elems ∧
      p.isSubProfile id = true ∧ trim (p.getWssAddr id) = trim node.server ∧
      nodeId (oldSubServerToId p p.getProfileIds.elems) uuid node i = id) ∨
    (¬ OldServer p (trim node.server) ∧
      nodeId (oldSubServerToId p p.getProfileIds.elems) uuid node i = subId (uuid i)) := by
  cases h : (oldSubServerToId p p.getProfileIds.elems).lookup (trim node.server) with
  | some id =>
    obtain ⟨hm, hs, ht, hz⟩ := serverId_some h
    exact Or.inl ⟨⟨hz, id, hm, hs, ht⟩, id, hm, hs, ht, by simp [nodeId, h]⟩
  | none =>
    refine Or.inr ⟨fun ho => ?_, by simp [nodeId, h]⟩
    obtain ⟨id, hid⟩ := serverId_isSome.mpr ho
    rw [h] at hid
    cases hid

theorem subId_injective {a b : String} (h : subId a = subId b) : a = b := by
  simpa [subId] using h

/-- Two positions share an id exactly when they share the server of a flagged profile. -/
theorem nodeId_eq_iff (hf : FreshUuids p uuid nodes.length) {i j : Nat} (hi : i < nodes.length)
    (hj : j < nodes.length) (hij : i ≠ j) :
    nodeId (oldSubServerToId p p.getProfileIds.elems) uuid nodes[i] i =
        nodeId (oldSubServerToId p p.getProfileIds.elems) uuid nodes[j] j ↔
      trim nodes[i].server = trim nodes[j].server ∧ OldServer p (trim nodes[i].server) := by
  constructor
  · intro h
    rcases nodeId_cases p uuid nodes[i] i with ⟨ho, a, hm, -, ha, hia⟩ | ⟨-, hia⟩ <;>
      rcases nodeId_cases p uuid nodes[j] j with ⟨-, b, hmb, -, hb, hjb⟩ | ⟨-, hjb⟩
    · rw [hia, hjb] at h
      subst h
      exact ⟨ha.symm.trans hb, ho⟩
    · rw [hia, hjb] at h
      exact (hf.absent j hj (h ▸ hm)).elim
    · rw [hia, hjb] at h
      exact (hf.absent i hi (h ▸ hmb)).elim
    · rw [hia, hjb] at h
      exact (hij (hf.injective i hi j hj (subId_injective h))).elim
  · rintro ⟨he, ho⟩
    obtain ⟨id, hid⟩ := serverId_isSome.mpr ho
    simp [nodeId, ← he, hid]

/-- A fresh id is not that of an unflagged registered profile, and neither is a retained one. -/
theorem manual_notMem_assigned (hf : FreshUuids p uuid nodes.length)
    (hx : x ∈ p.getProfileIds.elems) (hman : p.isSubProfile x = false) :
    x ∉ (assigned p nodes uuid).map Prod.fst := by
  intro hm
  obtain ⟨a, ha, rfl⟩ := List.mem_map.mp hm
  obtain ⟨i, hi, rfl⟩ := mem_assigned.mp ha
  rcases nodeId_cases p uuid nodes[i] i with ⟨-, id, -, hs, -, hid⟩ | ⟨-, hid⟩
  · rw [hid, hs] at hman
    cases hman
  · rw [hid] at hx
    exact hf.absent i hi hx

/-- The store after the cleanup loop. -/
def swept (hash : HashOrder) (p : Preferences) (nodes : List SubNode) (uuid : Nat → String) :
    Preferences :=
  removeStale hash (writeNodes hash p (assigned p nodes uuid)) p.getProfileIds.elems
    (retained p nodes uuid)

/-- An id that the cleanup loop removes. -/
def Stale (p : Preferences) (retained : List String) (x : String) : Prop :=
  p.isSubProfile x = true ∧ x ∉ retained

/-- What the cleanup loop leaves, when the ids it visits are registered. -/
structure Cleaned (p : Preferences) (ids retained : List String) (q : Preferences) : Prop where
  mem : ∀ x, x ∈ q.getProfileIds.elems ↔
    x ∈ p.getProfileIds.elems ∧ ¬ (x ∈ ids ∧ Stale p retained x)
  kept : ∀ f x, ¬ (x ∈ ids ∧ Stale p retained x) →
    q.get (.profile f x) = p.get (.profile f x)
  gone : ∀ f x, x ∈ ids → Stale p retained x → q.get (.profile f x) = none
  globals : ∀ g, g ≠ .PROFILES → g ≠ .PROFILE_ORDER → q.get (.global g) = p.get (.global g)
  current : q.currentProfileId = p.currentProfileId
  untouched : (∀ x ∈ ids, ¬ Stale p retained x) → q = p

theorem stale_congr {q : Preferences} {r : List String}
    (h : q.get (.profile .PROFILE_IS_SUB x) = p.get (.profile .PROFILE_IS_SUB x)) :
    Stale q r x ↔ Stale p r x := by
  unfold Stale
  rw [isSubProfile_congr h]

theorem removeStale_cons {ids r : List String} : removeStale hash p (id :: ids) r =
    removeStale hash (if p.isSubProfile id && !r.contains id then p.removeProfile hash id else p)
      ids r := rfl

theorem removeStale_spec {ids r : List String} (hn : ids.Nodup)
    (hm : ∀ x ∈ ids, x ∈ p.getProfileIds.elems) : Cleaned p ids r (removeStale hash p ids r) := by
  induction ids generalizing p with
  | nil => exact ⟨by simp [removeStale], fun _ _ _ => rfl, by simp, fun _ _ _ => rfl, rfl,
      fun _ => rfl⟩
  | cons a ids ih =>
    obtain ⟨han, hn'⟩ := List.nodup_cons.mp hn
    rw [removeStale_cons]
    by_cases hs : Stale p r a
    · have ha := hm a List.mem_cons_self
      have hif : (p.isSubProfile a && !r.contains a) = true := by
        simpa [Stale] using hs
      rw [if_pos hif]
      -- the removal of `a` changes no other id's entries, so the tail sees the same stale ids
      have hget : ∀ f x, x ≠ a →
          (p.removeProfile hash a).get (.profile f x) = p.get (.profile f x) := by
        intro f x hx
        rw [removeProfile_get ha (by simp), eraseProfile_get]
        simp [Key.ownedBy, hx]
      have hids : ∀ x, x ∈ (p.removeProfile hash a).getProfileIds.elems ↔
          x ≠ a ∧ x ∈ p.getProfileIds.elems := by
        intro x
        rw [removeProfile_getProfileIds ha, StringSet.mem_remove]
      have hne : ∀ x ∈ ids, x ≠ a := fun x hx he => han (he ▸ hx)
      have ih' := ih (p := p.removeProfile hash a) hn' fun x hx =>
        (hids x).mpr ⟨hne x hx, hm x (List.mem_cons_of_mem _ hx)⟩
      have hst : ∀ x, x ≠ a → (Stale (p.removeProfile hash a) r x ↔ Stale p r x) :=
        fun x hx => stale_congr (hget _ x hx)
      refine ⟨?_, ?_, ?_, ?_, ?_, ?_⟩
      · intro x
        rw [ih'.mem, hids]
        by_cases hx : x = a
        · simp [hx, hs]
        · simp [hx, hst x hx]
      · intro f x hx
        have hxa : x ≠ a := by
          rintro rfl
          exact hx ⟨List.mem_cons_self, hs⟩
        rw [ih'.kept f x fun h => hx ⟨List.mem_cons_of_mem _ h.1, (hst x hxa).mp h.2⟩,
          hget f x hxa]
      · intro f x hx hsx
        rcases List.mem_cons.mp hx with rfl | hx
        · rw [ih'.kept f x fun h => han h.1, removeProfile_get ha (by simp), eraseProfile_get]
          simp [Key.ownedBy]
        · exact ih'.gone f x hx ((hst x (hne x hx)).mpr hsx)
      · intro g hg ho
        rw [ih'.globals g hg ho, removeProfile_get ha (by simpa using ho), eraseProfile_get]
        simp [Key.ownedBy, hg]
      · rw [ih'.current, removeProfile_currentProfileId]
      · intro h
        exact (h a List.mem_cons_self hs).elim
    · have hif : ¬ (p.isSubProfile a && !r.contains a) = true := by
        simpa [Stale] using hs
      rw [if_neg hif]
      have ih' := ih (p := p) hn' fun x hx => hm x (List.mem_cons_of_mem _ hx)
      have hiff : ∀ x, x ∈ a :: ids ∧ Stale p r x ↔ x ∈ ids ∧ Stale p r x := by
        intro x
        rw [List.mem_cons]
        constructor
        · rintro ⟨rfl | hx, hsx⟩
          · exact (hs hsx).elim
          · exact ⟨hx, hsx⟩
        · exact fun h => ⟨Or.inr h.1, h.2⟩
      refine ⟨?_, ?_, ?_, ih'.globals, ih'.current, ?_⟩
      · intro x
        rw [ih'.mem, hiff]
      · intro f x hx
        exact ih'.kept f x fun h => hx ((hiff x).mpr h)
      · intro f x hx hsx
        exact ih'.gone f x ((hiff x).mp ⟨hx, hsx⟩).1 hsx
      · intro h
        exact ih'.untouched fun x hx => h x (List.mem_cons_of_mem _ hx)

theorem isSub_writeNodes : (writeNodes hash p l).isSubProfile x =
    if x ∈ l.map Prod.fst then true else p.isSubProfile x := by
  have hg : (writeNodes hash p l).get (.profile .PROFILE_IS_SUB x) = _ := writeNodes_get_profile
  split
  · rename_i hx
    obtain ⟨node, hn⟩ := lastNode_of_mem hx
    rw [hn] at hg
    exact SharedPreferences.getBoolean_of_get hg
  · rename_i hx
    rw [lastNode_eq_none.mpr hx] at hg
    exact isSubProfile_congr hg

/-- The cleanup loop after the node loop removes the flagged profiles that got no node. -/
theorem stale_writeNodes : x ∈ p.getProfileIds.elems ∧
    Stale (writeNodes hash p (assigned p nodes uuid)) (retained p nodes uuid) x ↔
      x ∈ p.getProfileIds.elems ∧ p.isSubProfile x = true ∧
        x ∉ (assigned p nodes uuid).map Prod.fst := by
  unfold Stale
  rw [mem_retained, isSub_writeNodes]
  by_cases hx : x ∈ (assigned p nodes uuid).map Prod.fst <;> simp [hx]

theorem swept_cleaned : Cleaned (writeNodes hash p (assigned p nodes uuid)) p.getProfileIds.elems
    (retained p nodes uuid) (swept hash p nodes uuid) :=
  removeStale_spec p.getProfileIds.nodup fun _ hx => writeNodes_mem.mpr (Or.inr hx)

/-- The profiles that are registered after a sync: the nodes' and the unflagged ones. -/
theorem swept_mem : x ∈ (swept hash p nodes uuid).getProfileIds.elems ↔
    x ∈ (assigned p nodes uuid).map Prod.fst ∨
      (x ∈ p.getProfileIds.elems ∧ p.isSubProfile x = false) := by
  rw [swept_cleaned.mem, writeNodes_mem, stale_writeNodes]
  cases hf : p.isSubProfile x
  · simp
  · simp
    tauto

theorem swept_get_node (h : lastNode (assigned p nodes uuid) x = some node) :
    (swept hash p nodes uuid).get (.profile f x) =
      (nodeValue p node f).or (p.get (.profile f x)) := by
  have hx : x ∈ (assigned p nodes uuid).map Prod.fst := by
    by_contra hn
    rw [lastNode_eq_none.mpr hn] at h
    cases h
  rw [swept_cleaned.kept f x fun hs => (stale_writeNodes.mp hs).2.2 hx, writeNodes_get_profile, h]

/-- The sync touches no entry of an unflagged profile that gets no node. -/
theorem swept_get_manual (hx : x ∉ (assigned p nodes uuid).map Prod.fst)
    (hman : p.isSubProfile x = false) :
    (swept hash p nodes uuid).get (.profile f x) = p.get (.profile f x) := by
  rw [swept_cleaned.kept f x, writeNodes_get_profile, lastNode_eq_none.mpr hx]
  intro hs
  rw [(stale_writeNodes.mp hs).2.1] at hman
  cases hman

theorem swept_get_global {g : Global} (hg : g ≠ .PROFILES) (ho : g ≠ .PROFILE_ORDER) :
    (swept hash p nodes uuid).get (.global g) = p.get (.global g) := by
  rw [swept_cleaned.globals g hg ho, writeNodes_get_global hg]

theorem swept_currentProfileId :
    (swept hash p nodes uuid).currentProfileId = p.currentProfileId := by
  rw [swept_cleaned.current, writeNodes_currentProfileId]

/-- After the sync exactly the nodes' profiles are flagged. -/
theorem swept_flagged : x ∈ (swept hash p nodes uuid).getProfileIds.elems ∧
    (swept hash p nodes uuid).isSubProfile x = true ↔
      x ∈ (assigned p nodes uuid).map Prod.fst := by
  constructor
  · rintro ⟨hm, hs⟩
    rcases swept_mem.mp hm with h | ⟨-, hman⟩
    · exact h
    · by_contra hx
      rw [isSubProfile_congr (swept_get_manual hx hman), hman] at hs
      cases hs
  · intro hx
    obtain ⟨node, hn⟩ := lastNode_of_mem hx
    exact ⟨swept_mem.mpr (Or.inl hx), SharedPreferences.getBoolean_of_get (swept_get_node hn)⟩

/-- The order that a sync merges. -/
def newOrder (hash : HashOrder) (p : Preferences) (nodes : List SubNode) (uuid : Nat → String) :
    List String :=
  mergeOrder (swept hash p nodes uuid).getProfileOrder (retained p nodes uuid)
    (swept hash p nodes uuid).getProfileIds.elems

/-- The current profile is registered after the sync and has a server address. -/
def CurrentStillExists (hash : HashOrder) (p : Preferences) (nodes : List SubNode)
    (uuid : Nat → String) : Prop :=
  p.currentProfileId ∈ (swept hash p nodes uuid).getProfileIds.elems ∧
    trim ((swept hash p nodes uuid).getWssAddr p.currentProfileId) ≠ ""

instance : Decidable (CurrentStillExists hash p nodes uuid) := by
  unfold CurrentStillExists
  infer_instance

/-- The store that `applySubNodes` returns, from its parts. -/
theorem applySubNodes_eq : (applySubNodes hash p nodes uuid).1 =
    let q := (swept hash p nodes uuid).setProfileOrder (newOrder hash p nodes uuid)
    if CurrentStillExists hash p nodes uuid then q
    else q.setCurrentProfileId (fallbackCurrent p.currentProfileId
      ((assigned p nodes uuid).map Prod.fst).head? (newOrder hash p nodes uuid)
      (swept hash p nodes uuid).getProfileIds.elems) := by
  have hw : ((swept hash p nodes uuid).setProfileOrder (newOrder hash p nodes uuid)).getWssAddr
      p.currentProfileId = (swept hash p nodes uuid).getWssAddr p.currentProfileId :=
    getWssAddr_congr (setProfileOrder_get _ (by simp))
  have hc : ((swept hash p nodes uuid).getProfileIds.elems.contains p.currentProfileId &&
      !(trim (((swept hash p nodes uuid).setProfileOrder (newOrder hash p nodes uuid)).getWssAddr
        p.currentProfileId)).isEmpty) = true ↔ CurrentStillExists hash p nodes uuid := by
    rw [hw]
    simp [CurrentStillExists]
  unfold applySubNodes
  dsimp only
  rw [syncLoop_eq]
  by_cases h : CurrentStillExists hash p nodes uuid
  · rw [if_pos h]
    exact congrArg Prod.fst (if_pos (hc.mpr h))
  · rw [if_neg h]
    exact congrArg Prod.fst (if_neg (mt hc.mp h))

theorem applySubNodes_get (ho : k ≠ .global .PROFILE_ORDER)
    (hc : k ≠ .global .CURRENT_PROFILE_ID) :
    (applySubNodes hash p nodes uuid).1.get k = (swept hash p nodes uuid).get k := by
  rw [applySubNodes_eq]
  dsimp only
  split
  · exact setProfileOrder_get _ ho
  · rw [setCurrentProfileId_get hc, setProfileOrder_get _ ho]

theorem applySubNodes_getProfileIds : (applySubNodes hash p nodes uuid).1.getProfileIds =
    (swept hash p nodes uuid).getProfileIds :=
  getProfileIds_congr (applySubNodes_get (by decide) (by decide))

theorem applySubNodes_getProfileOrder : (applySubNodes hash p nodes uuid).1.getProfileOrder =
    (newOrder hash p nodes uuid).filter fun id => !isBlank id := by
  rw [applySubNodes_eq]
  dsimp only
  split
  · exact getProfileOrder_setProfileOrder _
  · rw [getProfileOrder_congr (setCurrentProfileId_get (by decide))]
    exact getProfileOrder_setProfileOrder _

end XTunnel.Profiles
