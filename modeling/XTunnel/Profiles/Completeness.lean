import XTunnel.Profiles.SyncSpec
import Mathlib.Data.Finset.Card
import Mathlib.Data.Fintype.Card

/-! When a sync gives every node a profile of its own. -/
namespace XTunnel.Profiles

open Preferences

variable {hash : HashOrder} {p q : Preferences} {nodes : List SubNode} {uuid : Nat → String}
  {id x : String} {node : SubNode}

/-- Registered and flagged as a subscription profile. -/
def Flagged (p : Preferences) (id : String) : Prop :=
  id ∈ p.getProfileIds.elems ∧ p.isSubProfile id = true

/-- The profile carries what the node says. -/
structure Carries (p : Preferences) (id : String) (node : SubNode) : Prop where
  name : p.getProfileName id = node.name
  server : p.getWssAddr id = node.server
  token : p.getToken id = node.token
  ip : p.getPrefIp id = node.ip
  block : p.getUdpBlockPorts id = node.block
  disableEch : p.getDisableEch id = node.fallback
  insecure : p.getInsecure id = node.insecure

/-- The flagged profiles are in one-to-one correspondence with the nodes. -/
def SyncComplete (p : Preferences) (nodes : List SubNode) : Prop :=
  ∃ profile : Fin nodes.length → String, Function.Injective profile ∧
    (∀ i, Flagged p (profile i) ∧ Carries p (profile i) (nodes.get i)) ∧
    ∀ id, Flagged p id → ∃ i, profile i = id

/-- No two nodes share the server of a profile that was flagged before. -/
def NoSharedOldServer (p : Preferences) (nodes : List SubNode) : Prop :=
  nodes.Pairwise fun a b => trim a.server = trim b.server → ¬ OldServer p (trim a.server)

theorem carries_of_get (h : ∀ f v, nodeValue p node f = some v →
    q.get (.profile f id) = some v) : Carries q id node := by
  have hs : ∀ f v d, nodeValue p node f = some (.string v) →
      q.prefs.getString (.profile f id) d = v :=
    fun f v _ hv => SharedPreferences.getString_of_get (h f (.string v) hv)
  have hb : ∀ f v d, nodeValue p node f = some (.boolean v) →
      q.prefs.getBoolean (.profile f id) d = v :=
    fun f v _ hv => SharedPreferences.getBoolean_of_get (h f (.boolean v) hv)
  refine ⟨?_, hs .WSS_ADDR _ _ rfl, hs .TOKEN _ _ rfl, hs .PREF_IP _ _ rfl,
    hs .UDP_BLOCK_PORTS _ _ rfl, hb .DISABLE_ECH _ _ rfl, hb .INSECURE _ _ rfl⟩
  unfold getProfileName
  split
  · rename_i hd
    subst hd
    exact hs .PROFILE_NAME _ _ rfl
  · exact hs .PROFILE_NAME _ _ rfl

theorem applySubNodes_flagged : Flagged (applySubNodes hash p nodes uuid).1 x ↔
    x ∈ (assigned p nodes uuid).map Prod.fst := by
  unfold Flagged
  rw [applySubNodes_getProfileIds,
    isSubProfile_congr (applySubNodes_get (by simp) (by simp)), swept_flagged]

/-- The last node assigned to an id is the one its profile carries. -/
theorem applySubNodes_carries (h : lastNode (assigned p nodes uuid) x = some node) :
    Carries (applySubNodes hash p nodes uuid).1 x node := by
  apply carries_of_get (p := p)
  intro f v hv
  rw [applySubNodes_get (by simp) (by simp), swept_get_node h, hv]
  rfl

/-- Under distinct ids a position's node is the last one assigned to its id. -/
theorem lastNode_of_nodup {l : List (String × SubNode)} (hn : (l.map Prod.fst).Nodup)
    (hm : (x, node) ∈ l) : lastNode l x = some node := by
  obtain ⟨n, hl⟩ := lastNode_of_mem (List.mem_map_of_mem (f := Prod.fst) hm)
  have he : (x, n) = (x, node) := List.inj_on_of_nodup_map hn (lastNode_mem hl) hm rfl
  rw [hl, (Prod.mk.inj he).2]

theorem assignedIds_length :
    ((assigned p nodes uuid).map Prod.fst).length = nodes.length := by
  rw [List.length_map, assigned_length]

theorem assignedIds_getElem {i : Nat} (hi : i < nodes.length)
    (h : i < ((assigned p nodes uuid).map Prod.fst).length) :
    ((assigned p nodes uuid).map Prod.fst)[i] =
      nodeId (oldSubServerToId p p.getProfileIds.elems) uuid nodes[i] i := by
  rw [List.getElem_map, assigned_getElem hi]

theorem assigned_nodup_iff (hf : FreshUuids p uuid nodes.length) :
    ((assigned p nodes uuid).map Prod.fst).Nodup ↔ NoSharedOldServer p nodes := by
  unfold NoSharedOldServer List.Nodup
  rw [List.pairwise_iff_getElem, List.pairwise_iff_getElem]
  constructor
  · intro h i j hi hj hij he ho
    refine h i j (by rwa [assignedIds_length]) (by rwa [assignedIds_length]) hij ?_
    rw [assignedIds_getElem hi, assignedIds_getElem hj]
    exact (nodeId_eq_iff hf hi hj (by omega)).mpr ⟨he, ho⟩
  · intro h i j hi hj hij heq
    have hi' : i < nodes.length := by rwa [assignedIds_length] at hi
    have hj' : j < nodes.length := by rwa [assignedIds_length] at hj
    rw [assignedIds_getElem hi', assignedIds_getElem hj'] at heq
    obtain ⟨he, ho⟩ := (nodeId_eq_iff hf hi' hj' (by omega)).mp heq
    exact h i j hi' hj' hij he ho

/-- A one-to-one correspondence leaves no id to share: the ids are as many as the nodes. -/
theorem assigned_nodup_of_complete
    (h : SyncComplete (applySubNodes hash p nodes uuid).1 nodes) :
    ((assigned p nodes uuid).map Prod.fst).Nodup := by
  obtain ⟨profile, hinj, hcar, -⟩ := h
  have hsub : Finset.univ.image profile ⊆ ((assigned p nodes uuid).map Prod.fst).toFinset := by
    intro x hx
    obtain ⟨i, -, rfl⟩ := Finset.mem_image.mp hx
    exact List.mem_toFinset.mpr (applySubNodes_flagged.mp (hcar i).1)
  have hcard := Finset.card_le_card hsub
  rw [Finset.card_image_of_injective _ hinj, Finset.card_univ, Fintype.card_fin] at hcard
  have hle := List.toFinset_card_le ((assigned p nodes uuid).map Prod.fst)
  rw [← Multiset.coe_nodup, ← Multiset.toFinset_card_eq_card_iff_nodup]
  exact le_antisymm hle (by rw [Multiset.coe_card, assignedIds_length]; exact hcard)

theorem sync_complete_iff (hf : FreshUuids p uuid nodes.length) :
    SyncComplete (applySubNodes hash p nodes uuid).1 nodes ↔ NoSharedOldServer p nodes := by
  constructor
  · intro h
    exact (assigned_nodup_iff hf).mp (assigned_nodup_of_complete h)
  · intro h
    have hn := (assigned_nodup_iff hf).mpr h
    let servers := oldSubServerToId p p.getProfileIds.elems
    have hm : ∀ i : Fin nodes.length,
        (nodeId servers uuid (nodes.get i) i, nodes.get i) ∈ assigned p nodes uuid :=
      fun i => mem_assigned.mpr ⟨i, i.2, rfl⟩
    refine ⟨fun i => nodeId servers uuid (nodes.get i) i, ?_, ?_, ?_⟩
    · intro i j hij
      have hlen : ∀ k : Fin nodes.length, k.1 < ((assigned p nodes uuid).map Prod.fst).length :=
        fun k => by rw [assignedIds_length]; exact k.2
      have hi := hlen i
      have hj := hlen j
      have hget : ((assigned p nodes uuid).map Prod.fst)[i.1] =
          ((assigned p nodes uuid).map Prod.fst)[j.1] := by
        rw [assignedIds_getElem i.2, assignedIds_getElem j.2]
        exact hij
      exact Fin.ext (hn.getElem_inj_iff.mp hget)
    · intro i
      exact ⟨applySubNodes_flagged.mpr (List.mem_map_of_mem (f := Prod.fst) (hm i)),
        applySubNodes_carries (lastNode_of_nodup hn (hm i))⟩
    · intro x hx
      obtain ⟨a, ha, rfl⟩ := List.mem_map.mp (applySubNodes_flagged.mp hx)
      obtain ⟨i, hi, rfl⟩ := mem_assigned.mp ha
      exact ⟨⟨i, hi⟩, rfl⟩

/-- The registry that the constructor builds over an empty store. -/
def freshInstall : Preferences := initProfiles newestFirst fun _ => none

/-- Two nodes of one server behind different addresses. -/
def twoIps : List SubNode :=
  [⟨"a", "wss://cdn.example/ws", "t1", "1.1.1.1", true, false, 3, "443"⟩,
    ⟨"b", "wss://cdn.example/ws", "t2", "2.2.2.2", true, false, 3, "443"⟩]

def firstUuids (i : Nat) : String := if i = 0 then "00000001" else "00000002"

def nextUuids (i : Nat) : String := if i = 0 then "00000003" else "00000004"

def afterFirstSync : Preferences := (applySubNodes newestFirst freshInstall twoIps firstUuids).1

theorem freshUuids_first : FreshUuids freshInstall firstUuids twoIps.length :=
  ⟨by decide, by decide⟩

theorem freshUuids_next : FreshUuids afterFirstSync nextUuids twoIps.length :=
  ⟨by decide, by decide⟩

/-- Two nodes of two servers. -/
def twoServers : List SubNode :=
  [⟨"a", "wss://a.example/ws", "t1", "", true, false, 3, "443"⟩,
    ⟨"b", "wss://b.example/ws", "t2", "", true, false, 3, "443"⟩]

def serversSynced : Preferences := (applySubNodes newestFirst freshInstall twoServers firstUuids).1

theorem freshUuids_servers : FreshUuids serversSynced nextUuids twoServers.length :=
  ⟨by decide, by decide⟩

/-- The second sync of two nodes with their own servers is complete. -/
theorem sync_complete_iff_servers :
    SyncComplete (applySubNodes newestFirst serversSynced twoServers nextUuids).1 twoServers :=
  (sync_complete_iff freshUuids_servers).mpr (List.pairwise_pair.mpr fun h => absurd h (by decide))

/-- The second sync of the same two nodes gives both the same profile. -/
theorem resync_incomplete : FreshUuids afterFirstSync nextUuids twoIps.length ∧
    ¬ SyncComplete (applySubNodes newestFirst afterFirstSync twoIps nextUuids).1 twoIps := by
  refine ⟨freshUuids_next, fun h => ?_⟩
  have hn := assigned_nodup_of_complete h
  revert hn
  decide

end XTunnel.Profiles
