import XTunnel.Profiles.Store

/-! The profile registry of Preferences.java over the flat store. -/
namespace XTunnel.Profiles

/-- The shared store and the id that this instance holds in its own field. -/
structure Preferences where
  prefs : SharedPreferences
  currentProfileId : String

def defaultProfileName : String := "默认节点"

namespace Preferences

variable (hash : HashOrder)

def get (p : Preferences) (k : Key) : Option Value := p.prefs.get k

def put (p : Preferences) (k : Key) (v : Value) : Preferences :=
  { p with prefs := p.prefs.put k v }

def remove (p : Preferences) (k : Key) : Preferences :=
  { p with prefs := p.prefs.remove k }

def getProfileIds (p : Preferences) : StringSet :=
  p.prefs.getStringSet (.global .PROFILES) .empty

def getCurrentProfileId (p : Preferences) : String := p.currentProfileId

def setCurrentProfileId (p : Preferences) (id : String) : Preferences :=
  { p with currentProfileId := id }.put (.global .CURRENT_PROFILE_ID) (.string id)

def getProfileName (p : Preferences) (id : String) : String :=
  if id = "default" then p.prefs.getString (.profile .PROFILE_NAME "default") defaultProfileName
  else p.prefs.getString (.profile .PROFILE_NAME id) ("Node " ++ id)

def setProfileName (p : Preferences) (id name : String) : Preferences :=
  p.put (.profile .PROFILE_NAME id) (.string name)

def hasProfileName (p : Preferences) (name : String) (excludeId : Option String) : Bool :=
  p.getProfileIds.elems.any fun id => excludeId != some id && name == p.getProfileName id

def addProfile (p : Preferences) (id name : String) : Preferences :=
  (p.put (.global .PROFILES) (.stringSet (p.getProfileIds.add hash id))).put
    (.profile .PROFILE_NAME id) (.string name)

def getProfileOrder (p : Preferences) : List String :=
  p.prefs.getJsonArray (.global .PROFILE_ORDER)

/-- Blank ids are not stored. -/
def setProfileOrder (p : Preferences) (order : List String) : Preferences :=
  p.put (.global .PROFILE_ORDER) (.jsonArray (order.filter fun id => !isBlank id))

/-- The setting keys that `removeProfile` deletes and `copyProfile` writes. -/
def settingKeys : List Field :=
  [.WSS_ADDR, .ECH_DNS, .ECH_DOMAIN, .PREF_IP, .IPS_PREF, .UDP_BLOCK_PORTS, .INSECURE, .TOKEN,
    .WS_CONN, .DISABLE_ECH]

/-- The commit of `removeProfile`: the id leaves the set and all its entries go. -/
def eraseProfile (p : Preferences) (id : String) : Preferences :=
  let p := p.put (.global .PROFILES) (.stringSet (p.getProfileIds.remove hash id))
  let p := p.remove (.profile .PROFILE_NAME id)
  let p := settingKeys.foldl (fun p k => p.remove (.profile k id)) p
  let p := p.remove (.profile .PROFILE_IS_SUB id)
  p.remove (.profile .PROFILE_LATENCY id)

def removeProfile (p : Preferences) (id : String) : Preferences :=
  if !p.getProfileIds.contains id then p
  else
    let p := p.eraseProfile hash id
    let order := p.getProfileOrder
    if order.contains id then p.setProfileOrder (order.erase id) else p

def getWssAddr (p : Preferences) (id : String) : String :=
  p.prefs.getString (.profile .WSS_ADDR id) ""

def setWssAddr (p : Preferences) (id addr : String) : Preferences :=
  p.put (.profile .WSS_ADDR id) (.string addr)

def getEchDns (p : Preferences) (id : String) : String :=
  p.prefs.getString (.profile .ECH_DNS id) "https://doh.pub/dns-query"

def setEchDns (p : Preferences) (id addr : String) : Preferences :=
  p.put (.profile .ECH_DNS id) (.string addr)

def getEchDomain (p : Preferences) (id : String) : String :=
  p.prefs.getString (.profile .ECH_DOMAIN id) "cloudflare-ech.com"

def setEchDomain (p : Preferences) (id d : String) : Preferences :=
  p.put (.profile .ECH_DOMAIN id) (.string d)

def getPrefIp (p : Preferences) (id : String) : String :=
  p.prefs.getString (.profile .PREF_IP id) ""

def setPrefIp (p : Preferences) (id ip : String) : Preferences :=
  p.put (.profile .PREF_IP id) (.string ip)

def getIpsPref (p : Preferences) (id : String) : String :=
  p.prefs.getString (.profile .IPS_PREF id) ""

def setIpsPref (p : Preferences) (id ips : String) : Preferences :=
  p.put (.profile .IPS_PREF id) (.string ips)

def getUdpBlockPorts (p : Preferences) (id : String) : String :=
  p.prefs.getString (.profile .UDP_BLOCK_PORTS id) "443"

def setUdpBlockPorts (p : Preferences) (id ports : String) : Preferences :=
  p.put (.profile .UDP_BLOCK_PORTS id) (.string ports)

def getInsecure (p : Preferences) (id : String) : Bool :=
  p.prefs.getBoolean (.profile .INSECURE id) false

def setInsecure (p : Preferences) (id : String) (enable : Bool) : Preferences :=
  p.put (.profile .INSECURE id) (.boolean enable)

def getToken (p : Preferences) (id : String) : String :=
  p.prefs.getString (.profile .TOKEN id) ""

def setToken (p : Preferences) (id t : String) : Preferences :=
  p.put (.profile .TOKEN id) (.string t)

def getGlobalWsConn (p : Preferences) : Int :=
  p.prefs.getInt (.global .GLOBAL_WS_CONN) 3

def hasCustomGlobalWsConn (p : Preferences) : Bool :=
  (p.get (.global .GLOBAL_WS_CONN)).isSome

def clampWsConn (n : Int) : Int :=
  if n < 1 then 1 else if n > 32 then 32 else n

def getWsConn (p : Preferences) (id : String) : Int :=
  p.prefs.getInt (.profile .WS_CONN id) p.getGlobalWsConn

def setWsConn (p : Preferences) (id : String) (n : Int) : Preferences :=
  p.put (.profile .WS_CONN id) (.int n)

def getDisableEch (p : Preferences) (id : String) : Bool :=
  p.prefs.getBoolean (.profile .DISABLE_ECH id) false

def setDisableEch (p : Preferences) (id : String) (disable : Bool) : Preferences :=
  p.put (.profile .DISABLE_ECH id) (.boolean disable)

def isSubProfile (p : Preferences) (id : String) : Bool :=
  p.prefs.getBoolean (.profile .PROFILE_IS_SUB id) false

def setProfileIsSub (p : Preferences) (id : String) (isSub : Bool) : Preferences :=
  p.put (.profile .PROFILE_IS_SUB id) (.boolean isSub)

/-- `prefs.getString(CURRENT_PROFILE_ID, null)`. -/
def storedCurrentId (prefs : SharedPreferences) : Option String :=
  match prefs.get (.global .CURRENT_PROFILE_ID) with
  | some (.string id) => some id
  | _ => none

/-- The constructor over the stored contents. An empty registry gets the default profile, and a
current id that is not registered gives way to the first id of the set. -/
def initProfiles (prefs : SharedPreferences) : Preferences :=
  let p : Preferences := ⟨prefs, (storedCurrentId prefs).getD ""⟩
  match p.getProfileIds.elems with
  | [] => (p.addProfile hash "default" defaultProfileName).setCurrentProfileId "default"
  | first :: _ =>
    match storedCurrentId prefs with
    | none => p.setCurrentProfileId first
    | some id => if p.getProfileIds.contains id then p else p.setCurrentProfileId first

section Entries

variable {hash} {p : Preferences} {k l : Key} {v : Value} {id x : String}

@[simp] theorem get_put : (p.put k v).get l = if l = k then some v else p.get l :=
  SharedPreferences.get_put

@[simp] theorem get_remove : (p.remove k).get l = if l = k then none else p.get l :=
  SharedPreferences.get_remove

@[simp] theorem currentProfileId_put : (p.put k v).currentProfileId = p.currentProfileId := rfl

@[simp] theorem currentProfileId_remove : (p.remove k).currentProfileId = p.currentProfileId := rfl

theorem getProfileIds_congr {q : Preferences}
    (h : q.get (.global .PROFILES) = p.get (.global .PROFILES)) :
    q.getProfileIds = p.getProfileIds :=
  SharedPreferences.getStringSet_congr h _

theorem isSubProfile_congr {q : Preferences}
    (h : q.get (.profile .PROFILE_IS_SUB id) = p.get (.profile .PROFILE_IS_SUB id)) :
    q.isSubProfile id = p.isSubProfile id :=
  SharedPreferences.getBoolean_congr h _

theorem getWssAddr_congr {q : Preferences}
    (h : q.get (.profile .WSS_ADDR id) = p.get (.profile .WSS_ADDR id)) :
    q.getWssAddr id = p.getWssAddr id :=
  SharedPreferences.getString_congr h _

theorem getProfileOrder_congr {q : Preferences}
    (h : q.get (.global .PROFILE_ORDER) = p.get (.global .PROFILE_ORDER)) :
    q.getProfileOrder = p.getProfileOrder :=
  SharedPreferences.getJsonArray_congr h

theorem addProfile_get (name : String) :
    (p.addProfile hash id name).get k =
      if k = .profile .PROFILE_NAME id then some (.string name)
      else if k = .global .PROFILES then some (.stringSet (p.getProfileIds.add hash id))
      else p.get k := by
  simp only [addProfile, get_put]

theorem addProfile_getProfileIds (name : String) :
    (p.addProfile hash id name).getProfileIds = p.getProfileIds.add hash id :=
  SharedPreferences.getStringSet_of_get (addProfile_get name)

theorem getProfileOrder_setProfileOrder (order : List String) :
    (p.setProfileOrder order).getProfileOrder = order.filter fun id => !isBlank id := by
  apply SharedPreferences.getJsonArray_of_get
  exact get_put.trans (if_pos rfl)

theorem setProfileOrder_get (order : List String) (h : k ≠ .global .PROFILE_ORDER) :
    (p.setProfileOrder order).get k = p.get k := by
  simp [setProfileOrder, h]

theorem setCurrentProfileId_get (h : k ≠ .global .CURRENT_PROFILE_ID) :
    (p.setCurrentProfileId id).get k = p.get k := by
  rw [setCurrentProfileId, get_put, if_neg h]
  rfl

theorem foldl_remove_get (ks : List Field) :
    (ks.foldl (fun p f => p.remove (.profile f id)) p).get l =
      if l ∈ ks.map (Key.profile · id) then none else p.get l := by
  induction ks generalizing p with
  | nil => simp
  | cons f ks ih =>
    rw [List.foldl_cons, ih, get_remove, List.map_cons]
    by_cases h : l ∈ ks.map (Key.profile · id)
    · rw [if_pos h, if_pos (List.mem_cons_of_mem _ h)]
    · simp only [if_neg h, List.mem_cons, or_iff_left h]

theorem foldl_remove_currentProfileId (ks : List Field) :
    (ks.foldl (fun p f => p.remove (.profile f id)) p).currentProfileId = p.currentProfileId := by
  induction ks generalizing p with
  | nil => rfl
  | cons f ks ih => rw [List.foldl_cons, ih, currentProfileId_remove]

/-- What is under a key after the commit of `removeProfile`. -/
theorem eraseProfile_get : (p.eraseProfile hash id).get k =
    if k.ownedBy id then none
    else if k = .global .PROFILES then some (.stringSet (p.getProfileIds.remove hash id))
    else p.get k := by
  simp only [eraseProfile, get_remove, foldl_remove_get, get_put]
  cases k with
  | global g => simp [Key.ownedBy]
  | profile f x =>
    by_cases hx : x = id
    · subst x
      cases f <;> simp [Key.ownedBy, settingKeys]
    · simp [Key.ownedBy, hx, settingKeys]

theorem eraseProfile_currentProfileId :
    (p.eraseProfile hash id).currentProfileId = p.currentProfileId := by
  simp only [eraseProfile, currentProfileId_remove, foldl_remove_currentProfileId,
    currentProfileId_put]

theorem removeProfile_of_notMem (h : id ∉ p.getProfileIds.elems) :
    p.removeProfile hash id = p := by
  simp [removeProfile, StringSet.contains, h]

theorem removeProfile_of_mem (h : id ∈ p.getProfileIds.elems) :
    p.removeProfile hash id =
      if id ∈ p.getProfileOrder then
        (p.eraseProfile hash id).setProfileOrder (p.getProfileOrder.erase id)
      else p.eraseProfile hash id := by
  have ho : (p.eraseProfile hash id).getProfileOrder = p.getProfileOrder :=
    getProfileOrder_congr (by simp [eraseProfile_get, Key.ownedBy])
  simp [removeProfile, StringSet.contains, h, ho]

/-- What is under a key, other than the order, after a registered profile is removed. -/
theorem removeProfile_get (h : id ∈ p.getProfileIds.elems) (hk : k ≠ .global .PROFILE_ORDER) :
    (p.removeProfile hash id).get k = (p.eraseProfile hash id).get k := by
  rw [removeProfile_of_mem h]
  split
  · exact setProfileOrder_get _ hk
  · rfl

theorem removeProfile_getProfileIds (h : id ∈ p.getProfileIds.elems) :
    (p.removeProfile hash id).getProfileIds = p.getProfileIds.remove hash id := by
  apply SharedPreferences.getStringSet_of_get
  change (p.removeProfile hash id).get _ = _
  rw [removeProfile_get h (by decide), eraseProfile_get]
  simp [Key.ownedBy]

theorem removeProfile_currentProfileId :
    (p.removeProfile hash id).currentProfileId = p.currentProfileId := by
  by_cases h : id ∈ p.getProfileIds.elems
  · rw [removeProfile_of_mem h]
    split
    · rw [setProfileOrder, currentProfileId_put, eraseProfile_currentProfileId]
    · exact eraseProfile_currentProfileId
  · rw [removeProfile_of_notMem h]

/-- Removal deletes one occurrence of the id from the order and keeps the others in place. -/
theorem removeProfile_getProfileOrder (h : id ∈ p.getProfileIds.elems)
    (hb : ∀ x ∈ p.getProfileOrder, isBlank x = false) :
    (p.removeProfile hash id).getProfileOrder = p.getProfileOrder.erase id := by
  rw [removeProfile_of_mem h]
  split
  · rw [getProfileOrder_setProfileOrder, List.filter_eq_self]
    intro x hx
    rw [hb x (List.mem_of_mem_erase hx)]
    rfl
  · rename_i hne
    rw [List.erase_of_not_mem hne]
    exact getProfileOrder_congr (by simp [eraseProfile_get, Key.ownedBy])

end Entries
end Preferences
end XTunnel.Profiles
