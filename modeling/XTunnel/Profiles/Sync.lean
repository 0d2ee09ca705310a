import XTunnel.Profiles.Preferences

/-! `SubscriptionManager.applySubNodes`: the subscription sync over the flat store. -/
namespace XTunnel.Profiles

open Preferences

structure SubNode where
  name : String
  server : String
  token : String
  ip : String
  fallback : Bool := true
  insecure : Bool := false
  connections : Int := 3
  block : String := "443"
deriving DecidableEq, Repr

structure ApplyResult where
  count : Nat
  currentProfileChanged : Bool
  previousProfileId : String
  currentProfileId : String
  currentProfileName : String

/-- `"sub_" + UUID.randomUUID().toString().substring(0, 8)`. -/
def subId (uuid : String) : String := "sub_" ++ uuid

/-- Appending to a list, or to a `LinkedHashSet`, unless the id is in it already. -/
def addIfAbsent (l : List String) (id : String) : List String :=
  if l.contains id then l else l ++ [id]

/-- The servers of the flagged profiles, each with the first id that has it. -/
def oldSubServerToId (p : Preferences) (oldIds : List String) : List (String × String) :=
  oldIds.foldl (fun m id =>
    if p.isSubProfile id then
      let server := trim (p.getWssAddr id)
      if !server.isEmpty && (m.lookup server).isNone then m ++ [(server, id)] else m
    else m) []

/-- The state of the node loop. -/
structure SyncLoop where
  prefs : Preferences
  retainedOrNewSubIds : List String
  firstSubId : Option String

/-- The user's global connection count, if one is set, before the node's own. -/
def effectiveConn (p : Preferences) (node : SubNode) : Int :=
  if p.hasCustomGlobalWsConn then p.getGlobalWsConn else clampWsConn node.connections

section

variable (hash : HashOrder)

/-- The writes that store a node under its profile id. -/
def writeNode (p : Preferences) (id : String) (node : SubNode) : Preferences :=
  let p := p.addProfile hash id node.name
  let p := p.setProfileIsSub id true
  let p := p.setWssAddr id node.server
  let p := p.setToken id node.token
  let p := p.setPrefIp id node.ip
  let p := p.setWsConn id (effectiveConn p node)
  let p := p.setUdpBlockPorts id node.block
  let p := p.setEchDns id "https://doh.pub/dns-query"
  let p := p.setEchDomain id "cloudflare-ech.com"
  let p := p.setDisableEch id node.fallback
  p.setInsecure id node.insecure

/-- The id of the node at position `i`: the old id of its server, or a new one. -/
def nodeId (servers : List (String × String)) (uuid : Nat → String) (node : SubNode) (i : Nat) :
    String :=
  (servers.lookup (trim node.server)).getD (subId (uuid i))

def syncNode (servers : List (String × String)) (uuid : Nat → String) (loop : SyncLoop)
    (node : SubNode × Nat) : SyncLoop :=
  let id := nodeId servers uuid node.1 node.2
  { prefs := writeNode hash loop.prefs id node.1
    retainedOrNewSubIds := addIfAbsent loop.retainedOrNewSubIds id
    firstSubId := some (loop.firstSubId.getD id) }

/-- Old subscription nodes that the new list does not have are removed. -/
def removeStale (p : Preferences) (oldIds retained : List String) : Preferences :=
  oldIds.foldl (fun p id =>
    if p.isSubProfile id && !retained.contains id then p.removeProfile hash id else p) p

/-- Ids that still exist keep their place, subscription nodes follow, then any others. -/
def mergeOrder (oldOrder retained allValidIds : List String) : List String :=
  let kept := oldOrder.foldl (fun l id =>
    if allValidIds.contains id then addIfAbsent l id else l) []
  let withSubs := retained.foldl addIfAbsent kept
  allValidIds.foldl addIfAbsent withSubs

/-- The node that is current afterwards, when the old one is gone. -/
def fallbackCurrent (currentIdBefore : String) (firstSubId : Option String)
    (newOrder allValidIds : List String) : String :=
  match firstSubId with
  | some id => id
  | none =>
    match newOrder with
    | id :: _ => id
    | [] => allValidIds.head?.getD currentIdBefore

/-- `uuid i` is the random text drawn for the node at position `i`, if it needs a new id. -/
def applySubNodes (p : Preferences) (newNodes : List SubNode) (uuid : Nat → String) :
    Preferences × ApplyResult :=
  let oldIds := p.getProfileIds.elems
  let currentIdBefore := p.getCurrentProfileId
  let servers := oldSubServerToId p oldIds
  let loop := newNodes.zipIdx.foldl (syncNode hash servers uuid) ⟨p, [], none⟩
  let p := removeStale hash loop.prefs oldIds loop.retainedOrNewSubIds
  let oldOrder := p.getProfileOrder
  let allValidIds := p.getProfileIds.elems
  let newOrder := mergeOrder oldOrder loop.retainedOrNewSubIds allValidIds
  let p := p.setProfileOrder newOrder
  let currentStillExists :=
    allValidIds.contains currentIdBefore && !(trim (p.getWssAddr currentIdBefore)).isEmpty
  if currentStillExists then
    (p, ⟨newNodes.length, false, currentIdBefore, currentIdBefore,
      p.getProfileName currentIdBefore⟩)
  else
    let newCurrentId := fallbackCurrent currentIdBefore loop.firstSubId newOrder allValidIds
    let p := p.setCurrentProfileId newCurrentId
    (p, ⟨newNodes.length, true, currentIdBefore, newCurrentId, p.getProfileName newCurrentId⟩)

end

/-- The random ids are new: unequal to each other and to every registered id. -/
structure FreshUuids (p : Preferences) (uuid : Nat → String) (n : Nat) : Prop where
  injective : ∀ i < n, ∀ j < n, uuid i = uuid j → i = j
  absent : ∀ i < n, subId (uuid i) ∉ p.getProfileIds.elems

end XTunnel.Profiles
