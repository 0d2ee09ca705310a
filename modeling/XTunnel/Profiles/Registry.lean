import XTunnel.Profiles.Manual

/-! The operations of the list screen on one `Preferences` instance, and what they keep. -/
namespace XTunnel.Profiles

/-- The text of `UUID.randomUUID()`, which is never blank. -/
structure UUID where
  text : String
  nonblank : isBlank text = false

namespace Preferences

variable (hash : HashOrder)

def getProfileLatency (p : Preferences) (id : String) : Int :=
  p.prefs.getInt (.profile .PROFILE_LATENCY id) 0

/-- One commit; the copy of the connection count does not fall back to the global one. -/
def copyProfile (p : Preferences) (fromId toId : String) : Preferences :=
  let src := p.prefs
  let p := p.setWssAddr toId (src.getString (.profile .WSS_ADDR fromId) "")
  let p := p.setEchDns toId (src.getString (.profile .ECH_DNS fromId) "https://doh.pub/dns-query")
  let p := p.setEchDomain toId (src.getString (.profile .ECH_DOMAIN fromId) "cloudflare-ech.com")
  let p := p.setPrefIp toId (src.getString (.profile .PREF_IP fromId) "")
  let p := p.setIpsPref toId (src.getString (.profile .IPS_PREF fromId) "")
  let p := p.setUdpBlockPorts toId (src.getString (.profile .UDP_BLOCK_PORTS fromId) "443")
  let p := p.setInsecure toId (src.getBoolean (.profile .INSECURE fromId) false)
  let p := p.setToken toId (src.getString (.profile .TOKEN fromId) "")
  let p := p.setWsConn toId (src.getInt (.profile .WS_CONN fromId) 3)
  p.setDisableEch toId (src.getBoolean (.profile .DISABLE_ECH fromId) false)

/-- One turn of the loop of `clearAllSubProfiles`. -/
def clearSubProfile (acc : Preferences × Nat) (id : String) : Preferences × Nat :=
  if acc.1.isSubProfile id then (acc.1.removeProfile hash id, acc.2 + 1) else acc

/-- An empty registry gets the default profile again, a current id that is gone the first id. -/
def restoreCurrent (p : Preferences) : Preferences :=
  match p.getProfileIds.elems with
  | [] => (p.addProfile hash "default" defaultProfileName).setCurrentProfileId "default"
  | first :: _ =>
    if !p.getProfileIds.contains p.getCurrentProfileId then p.setCurrentProfileId first else p

def clearAllSubProfiles (p : Preferences) : Preferences × Nat :=
  let allIds := hash.order p.getProfileIds.elems
  let (p, count) := allIds.foldl (clearSubProfile hash) (p, 0)
  let p := p.restoreCurrent hash
  (p.setProfileOrder (p.getProfileOrder.filter p.getProfileIds.contains), count)

end Preferences

namespace MainActivity

open Preferences

variable (hash : HashOrder)

/-- A row of the list; server, security and connections make its summary. -/
structure ProfileItem where
  id : String
  name : String
  server : String
  insecure : Bool
  wsConn : Int
  isSub : Bool
  latency : Int
deriving DecidableEq

def profileItem (p : Preferences) (id : String) : ProfileItem :=
  ⟨id, p.getProfileName id, trim (p.getWssAddr id), p.getInsecure id, clampWsConn (p.getWsConn id),
    p.isSubProfile id, p.getProfileLatency id⟩

/-- Saved ids that are registered, then the other registered ids. -/
def finalOrder (savedOrder allIds : List String) : List String :=
  let kept := savedOrder.foldl (fun l id => if allIds.contains id then addIfAbsent l id else l) []
  allIds.foldl addIfAbsent kept

/-- The refresh of the list. The order is written back only when it differs. -/
def getSortedProfileItems (p : Preferences) : List ProfileItem × Preferences :=
  let allIds := p.getProfileIds.elems
  let savedOrder := p.getProfileOrder
  let order := finalOrder savedOrder allIds
  let p := if order ≠ savedOrder then p.setProfileOrder order else p
  (order.map (profileItem p), p)

def copyProfile (p : Preferences) (sourceId name : String) (newId : UUID) : Preferences :=
  let name := trim name
  if name.isEmpty then p
  else if p.hasProfileName name none then p
  else
    let p := p.addProfile hash newId.text name
    (p.copyProfile sourceId newId.text).setCurrentProfileId newId.text

def renameProfile (p : Preferences) (profileId name : String) : Preferences :=
  let name := trim name
  if name.isEmpty then p
  else if p.hasProfileName name (some profileId) then p
  else p.setProfileName profileId name

/-- The last profile stays; a deleted current one gives way to the first of the list. -/
def deleteProfile (p : Preferences) (profileId : String) : Preferences :=
  if p.getProfileIds.elems.length ≤ 1 then p
  else
    let p := p.removeProfile hash profileId
    if profileId = p.getCurrentProfileId then
      match getSortedProfileItems p with
      | ([], p) => p
      | (item :: _, p) => p.setCurrentProfileId item.id
    else p

/-- A node without a server address is not selected. -/
def selectProfile (p : Preferences) (id : String) : Preferences :=
  if id = p.getCurrentProfileId then p
  else if (trim (p.getWssAddr id)).isEmpty then p
  else p.setCurrentProfileId id

end MainActivity

open Preferences MainActivity

/-- What is done to the registry of one instance. -/
inductive Operation
  | newProfile (uuid : UUID) (form : ProfileForm)
  | edit (id : String) (form : ProfileForm)
  | copy (sourceId name : String) (uuid : UUID)
  | rename (id name : String)
  | delete (id : String)
  | clearAllSubProfiles
  | applySubNodes (nodes : List SubNode) (uuid : Nat → String)
  | select (id : String)
  | refresh

namespace Operation

def apply (hash : HashOrder) (p : Preferences) : Operation → Preferences
  | newProfile uuid form => saveProfile hash p true "" uuid.text form
  | edit id form => saveProfile hash p false id "" form
  | copy sourceId name uuid => MainActivity.copyProfile hash p sourceId name uuid
  | rename id name => renameProfile p id name
  | delete id => deleteProfile hash p id
  | clearAllSubProfiles => (p.clearAllSubProfiles hash).1
  | applySubNodes nodes uuid => (Profiles.applySubNodes hash p nodes uuid).1
  | select id => selectProfile p id
  | refresh => (getSortedProfileItems p).2

/-- Selections are of listed profiles, syncs bring at least one node. -/
def Offered (p : Preferences) : Operation → Prop
  | select id => id ∈ p.getProfileIds.elems
  | applySubNodes nodes _ => nodes ≠ []
  | _ => True

def Step (hash : HashOrder) (p : Preferences) (op : Operation) (q : Preferences) : Prop :=
  op.Offered p ∧ q = op.apply hash p

end Operation

/-- The form has a name that no other profile has. -/
def SaveAccepted (p : Preferences) (isNew : Bool) (profileId : String) (form : ProfileForm) : Prop :=
  trim form.profileName ≠ "" ∧
    p.hasProfileName (trim form.profileName) (if isNew then none else some profileId) = false

/-- An edit that is accepted is of a profile that is still registered. -/
def Operation.EditsRegistered (p : Preferences) : Operation → Prop
  | edit id form => SaveAccepted p false id form → id ∈ p.getProfileIds.elems
  | _ => True

/-- The current profile is registered, and stored as current. -/
structure CurrentRegistered (p : Preferences) : Prop where
  current_mem : p.currentProfileId ∈ p.getProfileIds.elems
  stored : storedCurrentId p.prefs = some p.currentProfileId

/-- The stored order lists each registered id once, and nothing else. -/
structure OrderEnumerates (p : Preferences) : Prop where
  nodup : p.getProfileOrder.Nodup
  mem_iff : ∀ id, id ∈ p.getProfileOrder ↔ id ∈ p.getProfileIds.elems

variable {hash : HashOrder} {p q : Preferences} {id x : String} {op : Operation}
  {prefs : SharedPreferences}

section Current

theorem storedCurrentId_congr
    (h : q.get (.global .CURRENT_PROFILE_ID) = p.get (.global .CURRENT_PROFILE_ID)) :
    storedCurrentId q.prefs = storedCurrentId p.prefs := by
  unfold storedCurrentId
  change q.prefs.get _ = p.prefs.get _ at h
  rw [h]

theorem getProfileIds_setCurrentProfileId :
    (p.setCurrentProfileId id).getProfileIds = p.getProfileIds :=
  getProfileIds_congr (setCurrentProfileId_get (by decide))

theorem CurrentRegistered.setCurrent (hid : id ∈ p.getProfileIds.elems) :
    CurrentRegistered (p.setCurrentProfileId id) where
  current_mem := by
    rw [getProfileIds_setCurrentProfileId]
    exact hid
  stored := by
    have h : (p.setCurrentProfileId id).prefs.get (.global .CURRENT_PROFILE_ID) =
        some (.string id) := get_put.trans (if_pos rfl)
    rw [storedCurrentId, h]
    rfl

/-- Operations that leave the set and the current id alone keep the current profile registered. -/
theorem CurrentRegistered.of_same (hp : CurrentRegistered p)
    (hids : q.getProfileIds = p.getProfileIds) (hcur : q.currentProfileId = p.currentProfileId)
    (hget : q.get (.global .CURRENT_PROFILE_ID) = p.get (.global .CURRENT_PROFILE_ID)) :
    CurrentRegistered q where
  current_mem := by
    rw [hids, hcur]
    exact hp.current_mem
  stored := by
    rw [storedCurrentId_congr hget, hcur]
    exact hp.stored

theorem NonBlankIds.of_ids (hp : NonBlankIds p)
    (h : ∀ x ∈ q.getProfileIds.elems, x ∈ p.getProfileIds.elems) : NonBlankIds q :=
  fun x hx => hp x (h x hx)

theorem NonBlankIds.of_eq (hp : NonBlankIds p) (h : q.getProfileIds = p.getProfileIds) :
    NonBlankIds q := by
  unfold NonBlankIds
  rw [h]
  exact hp

theorem NonBlankIds.setCurrent (hp : NonBlankIds p) : NonBlankIds (p.setCurrentProfileId id) :=
  hp.of_eq getProfileIds_setCurrentProfileId

theorem NonBlankIds.of_add (hp : NonBlankIds p) (hid : isBlank id = false)
    (h : q.getProfileIds = p.getProfileIds.add hash id) : NonBlankIds q := by
  intro x hx
  rw [h, StringSet.mem_add] at hx
  rcases hx with rfl | hx
  · exact hid
  · exact hp x hx

theorem mem_of_add (h : q.getProfileIds = p.getProfileIds.add hash id) :
    id ∈ q.getProfileIds.elems := by
  rw [h]
  exact StringSet.mem_add.mpr (Or.inl rfl)

theorem currentRegistered_initProfiles (prefs : SharedPreferences) :
    CurrentRegistered (initProfiles hash prefs) := by
  unfold initProfiles
  dsimp only
  split
  · exact .setCurrent (mem_of_add (addProfile_getProfileIds _))
  · rename_i first rest hids
    have hfirst : first ∈ (⟨prefs, (storedCurrentId prefs).getD ""⟩ :
        Preferences).getProfileIds.elems := by
      rw [hids]
      exact List.mem_cons_self
    split
    · exact .setCurrent hfirst
    · rename_i id hs
      split
      · rename_i hc
        rw [hs] at hc ⊢
        exact ⟨List.contains_iff_mem.mp hc, hs⟩
      · exact .setCurrent hfirst

/-- A new instance over such a store writes nothing and reports the same current profile. -/
theorem CurrentRegistered.initProfiles_eq (hp : CurrentRegistered p) :
    initProfiles hash p.prefs = p := by
  have hcur : (⟨p.prefs, (storedCurrentId p.prefs).getD ""⟩ : Preferences) = p := by
    rw [hp.stored]
    rfl
  unfold initProfiles
  dsimp only
  rw [hcur]
  cases hids : p.getProfileIds.elems with
  | nil =>
    have hm := hp.current_mem
    rw [hids] at hm
    cases hm
  | cons first rest =>
    dsimp only
    rw [hp.stored]
    exact if_pos (List.contains_iff_mem.mpr hp.current_mem)

end Current

section Refresh

theorem finalOrder_eq (savedOrder allIds : List String) :
    finalOrder savedOrder allIds = mergeOrder savedOrder [] allIds := rfl

theorem getSortedProfileItems_get {k : Key} (h : k ≠ .global .PROFILE_ORDER) :
    (getSortedProfileItems p).2.get k = p.get k := by
  unfold getSortedProfileItems
  dsimp only
  split
  · exact setProfileOrder_get _ h
  · rfl

theorem getSortedProfileItems_getProfileIds :
    (getSortedProfileItems p).2.getProfileIds = p.getProfileIds :=
  getProfileIds_congr (getSortedProfileItems_get (by decide))

theorem getSortedProfileItems_ids : (getSortedProfileItems p).1.map (·.id) =
    finalOrder p.getProfileOrder p.getProfileIds.elems := by
  unfold getSortedProfileItems
  dsimp only
  rw [List.map_map]
  exact List.map_id _

/-- With no blank id the refresh leaves its own order in the store. -/
theorem getSortedProfileItems_getProfileOrder (hp : NonBlankIds p) :
    (getSortedProfileItems p).2.getProfileOrder =
      finalOrder p.getProfileOrder p.getProfileIds.elems := by
  unfold getSortedProfileItems
  dsimp only
  split
  · rw [getProfileOrder_setProfileOrder, List.filter_eq_self]
    intro x hx
    rw [finalOrder_eq, mem_mergeOrder] at hx
    rw [hp x (hx.resolve_left List.not_mem_nil)]
    rfl
  · rename_i h
    exact (not_not.mp h).symm

theorem mem_finalOrder (savedOrder : List String) {allIds : List String} :
    x ∈ finalOrder savedOrder allIds ↔ x ∈ allIds := by
  rw [finalOrder_eq, mem_mergeOrder]
  simp

theorem orderEnumerates_refresh (hp : NonBlankIds p) :
    OrderEnumerates (getSortedProfileItems p).2 where
  nodup := by
    rw [getSortedProfileItems_getProfileOrder hp, finalOrder_eq]
    exact mergeOrder_nodup _ _ _
  mem_iff id := by
    rw [getSortedProfileItems_getProfileOrder hp, getSortedProfileItems_getProfileIds,
      mem_finalOrder]

theorem currentProfileId_refresh :
    (getSortedProfileItems p).2.currentProfileId = p.currentProfileId := by
  unfold getSortedProfileItems
  dsimp only
  split <;> rfl

theorem CurrentRegistered.refresh (hp : CurrentRegistered p) :
    CurrentRegistered (getSortedProfileItems p).2 :=
  hp.of_same getSortedProfileItems_getProfileIds currentProfileId_refresh
    (getSortedProfileItems_get (by decide))

end Refresh

section Operations

theorem copySettings_get {fromId toId : String} {g : Global} :
    (p.copyProfile fromId toId).get (.global g) = p.get (.global g) := by
  simp [Preferences.copyProfile, setWssAddr, setToken, setPrefIp, setIpsPref, setWsConn,
    setUdpBlockPorts, setEchDns, setEchDomain, setInsecure, setDisableEch]

/-- A copy that is refused changes nothing; otherwise the new profile becomes current. -/
theorem copyProfile_cases (hash : HashOrder) (p : Preferences) (sourceId name : String)
    (uuid : UUID) : MainActivity.copyProfile hash p sourceId name uuid = p ∨
      ∃ r : Preferences, MainActivity.copyProfile hash p sourceId name uuid =
          r.setCurrentProfileId uuid.text ∧
        r.getProfileIds = p.getProfileIds.add hash uuid.text := by
  unfold MainActivity.copyProfile
  dsimp only
  split
  · exact Or.inl rfl
  · split
    · exact Or.inl rfl
    · refine Or.inr ⟨_, rfl, ?_⟩
      rw [← addProfile_getProfileIds (trim name)]
      exact getProfileIds_congr copySettings_get

theorem CurrentRegistered.copy {sourceId name : String} {uuid : UUID} (hp : CurrentRegistered p) :
    CurrentRegistered (MainActivity.copyProfile hash p sourceId name uuid) := by
  rcases copyProfile_cases hash p sourceId name uuid with h | ⟨r, h, hids⟩
  · rw [h]
    exact hp
  · rw [h]
    exact .setCurrent (mem_of_add hids)

theorem NonBlankIds.copy {sourceId name : String} {uuid : UUID} (hp : NonBlankIds p) :
    NonBlankIds (MainActivity.copyProfile hash p sourceId name uuid) := by
  rcases copyProfile_cases hash p sourceId name uuid with h | ⟨r, h, hids⟩
  · rw [h]
    exact hp
  · rw [h]
    exact (hp.of_add uuid.nonblank hids).setCurrent

theorem renameProfile_cases (p : Preferences) (id name : String) :
    renameProfile p id name = p ∨ renameProfile p id name = p.setProfileName id (trim name) := by
  unfold renameProfile
  dsimp only
  split
  · exact Or.inl rfl
  · split
    · exact Or.inl rfl
    · exact Or.inr rfl

theorem getProfileIds_setProfileName {name : String} :
    (p.setProfileName id name).getProfileIds = p.getProfileIds :=
  getProfileIds_congr (by simp [setProfileName])

theorem CurrentRegistered.rename {name : String} (hp : CurrentRegistered p) :
    CurrentRegistered (renameProfile p id name) := by
  rcases renameProfile_cases p id name with h | h
  · rw [h]
    exact hp
  · rw [h]
    exact hp.of_same getProfileIds_setProfileName rfl (by simp [setProfileName])

theorem NonBlankIds.rename {name : String} (hp : NonBlankIds p) :
    NonBlankIds (renameProfile p id name) := by
  rcases renameProfile_cases p id name with h | h
  · rw [h]
    exact hp
  · rw [h]
    exact hp.of_eq getProfileIds_setProfileName

/-- A form that is refused changes nothing; what an accepted one leaves behind: its profile is
current, and registered if it is new. -/
theorem saveProfile_cases (hash : HashOrder) (p : Preferences) (isNew : Bool)
    (profileId uuid : String) (form : ProfileForm) :
    ¬ SaveAccepted p isNew profileId form ∧ saveProfile hash p isNew profileId uuid form = p ∨
      SaveAccepted p isNew profileId form ∧
        ∃ r : Preferences, saveProfile hash p isNew profileId uuid form =
            r.setCurrentProfileId (if isNew then uuid else profileId) ∧
          r.getProfileIds = if isNew then p.getProfileIds.add hash uuid else p.getProfileIds := by
  unfold saveProfile
  dsimp only
  by_cases hname : (trim form.profileName).isEmpty = true
  · exact Or.inl ⟨fun h => h.1 (by simpa using hname), if_pos hname⟩
  · rw [if_neg hname]
    by_cases hfree : p.hasProfileName (trim form.profileName)
        (if isNew = true then none else some profileId) = true
    · exact Or.inl ⟨fun h => absurd (hfree.symm.trans h.2) nofun, if_pos hfree⟩
    · rw [if_neg hfree]
      refine Or.inr ⟨⟨by simpa using hname, by simpa using hfree⟩, _, rfl, ?_⟩
      cases isNew with
      | true =>
        rw [if_pos rfl, if_pos rfl, ← addProfile_getProfileIds (trim form.profileName)]
        apply getProfileIds_congr
        simp [setWssAddr, setToken, setPrefIp, setIpsPref, setWsConn, setUdpBlockPorts, setEchDns,
          setEchDomain, setInsecure, setDisableEch]
      | false =>
        apply getProfileIds_congr
        simp [setWssAddr, setToken, setPrefIp, setIpsPref, setWsConn, setUdpBlockPorts, setEchDns,
          setEchDomain, setInsecure, setDisableEch, setProfileName, setProfileIsSub]

theorem CurrentRegistered.newProfile {profileId uuid : String} {form : ProfileForm}
    (hp : CurrentRegistered p) : CurrentRegistered (saveProfile hash p true profileId uuid form) := by
  rcases saveProfile_cases hash p true profileId uuid form with ⟨-, h⟩ | ⟨-, r, h, hids⟩
  · rw [h]
    exact hp
  · rw [h]
    exact .setCurrent (mem_of_add hids)

theorem NonBlankIds.newProfile {profileId : String} {uuid : UUID} {form : ProfileForm}
    (hp : NonBlankIds p) : NonBlankIds (saveProfile hash p true profileId uuid.text form) := by
  rcases saveProfile_cases hash p true profileId uuid.text form with ⟨-, h⟩ | ⟨-, r, h, hids⟩
  · rw [h]
    exact hp
  · rw [h]
    exact (hp.of_add uuid.nonblank hids).setCurrent

/-- An edit that is refused, or is of a registered profile, keeps the current profile registered. -/
theorem CurrentRegistered.edit {uuid : String} {form : ProfileForm} (hp : CurrentRegistered p)
    (hid : SaveAccepted p false id form → id ∈ p.getProfileIds.elems) :
    CurrentRegistered (saveProfile hash p false id uuid form) := by
  rcases saveProfile_cases hash p false id uuid form with ⟨-, h⟩ | ⟨hacc, r, h, hids⟩
  · rw [h]
    exact hp
  · rw [h]
    exact .setCurrent (by rw [hids]; exact hid hacc)

/-- Any other edit makes a profile current that is not registered. -/
theorem saveProfile_unregistered {uuid : String} {form : ProfileForm}
    (hacc : SaveAccepted p false id form) (hid : id ∉ p.getProfileIds.elems) :
    (saveProfile hash p false id uuid form).currentProfileId ∉
      (saveProfile hash p false id uuid form).getProfileIds.elems := by
  rcases saveProfile_cases hash p false id uuid form with ⟨h, -⟩ | ⟨-, r, h, hids⟩
  · exact absurd hacc h
  · rw [h, getProfileIds_setCurrentProfileId, hids]
    exact hid

theorem NonBlankIds.edit {uuid : String} {form : ProfileForm} (hp : NonBlankIds p) :
    NonBlankIds (saveProfile hash p false id uuid form) := by
  rcases saveProfile_cases hash p false id uuid form with ⟨-, h⟩ | ⟨-, r, h, hids⟩
  · rw [h]
    exact hp
  · rw [h]
    exact (hp.of_eq hids).setCurrent

theorem removeProfile_get_current :
    (p.removeProfile hash id).get (.global .CURRENT_PROFILE_ID) =
      p.get (.global .CURRENT_PROFILE_ID) := by
  by_cases h : id ∈ p.getProfileIds.elems
  · rw [removeProfile_get h (by decide), eraseProfile_get]
    simp [Key.ownedBy]
  · rw [removeProfile_of_notMem h]

theorem mem_removeProfile :
    x ∈ (p.removeProfile hash id).getProfileIds.elems ↔ x ≠ id ∧ x ∈ p.getProfileIds.elems := by
  by_cases h : id ∈ p.getProfileIds.elems
  · rw [removeProfile_getProfileIds h, StringSet.mem_remove]
  · rw [removeProfile_of_notMem h]
    constructor
    · intro hx
      exact ⟨fun he => h (he ▸ hx), hx⟩
    · exact fun hx => hx.2

theorem NonBlankIds.removeProfile (hp : NonBlankIds p) : NonBlankIds (p.removeProfile hash id) :=
  hp.of_ids fun _ hx => (mem_removeProfile.mp hx).2

/-- Another profile is left when one of several is removed. -/
theorem exists_mem_removeProfile (hash : HashOrder) (id : String)
    (h : 1 < p.getProfileIds.elems.length) :
    ∃ y, y ∈ (p.removeProfile hash id).getProfileIds.elems := by
  obtain ⟨a, b, rest, hl⟩ : ∃ a b rest, p.getProfileIds.elems = a :: b :: rest := by
    match hl : p.getProfileIds.elems with
    | [] | [_] =>
      rw [hl] at h
      simp at h
    | a :: b :: rest => exact ⟨a, b, rest, rfl⟩
  have hnodup := p.getProfileIds.nodup
  rw [hl, List.nodup_cons] at hnodup
  by_cases ha : a = id
  · refine ⟨b, mem_removeProfile.mpr ⟨?_, by rw [hl]; simp⟩⟩
    rintro rfl
    exact hnodup.1 (by simp [ha])
  · exact ⟨a, mem_removeProfile.mpr ⟨ha, by rw [hl]; simp⟩⟩

/-- A deleted current profile gives way to the head of the refreshed list. -/
theorem deleteProfile_current (hash : HashOrder)
    (hlen : 1 < p.getProfileIds.elems.length) :
    ∃ y ∈ (p.removeProfile hash p.currentProfileId).getProfileIds.elems,
      deleteProfile hash p p.currentProfileId =
        (getSortedProfileItems (p.removeProfile hash p.currentProfileId)).2.setCurrentProfileId
          y := by
  obtain ⟨z, hz⟩ := exists_mem_removeProfile hash p.currentProfileId hlen
  have hids := getSortedProfileItems_ids (p := p.removeProfile hash p.currentProfileId)
  rw [← mem_finalOrder (p.removeProfile hash p.currentProfileId).getProfileOrder, ← hids] at hz
  have hcur : p.currentProfileId = (p.removeProfile hash p.currentProfileId).getCurrentProfileId :=
    removeProfile_currentProfileId.symm
  rw [deleteProfile, if_neg (by omega)]
  dsimp only
  rw [if_pos hcur]
  cases hi : getSortedProfileItems (p.removeProfile hash p.currentProfileId) with
  | mk items r =>
    rw [hi] at hids hz
    cases items with
    | nil => cases hz
    | cons item items =>
      refine ⟨item.id, ?_, rfl⟩
      rw [← mem_finalOrder, ← hids]
      exact List.mem_cons_self

theorem deleteProfile_other (hlen : ¬ p.getProfileIds.elems.length ≤ 1)
    (hid : id ≠ p.currentProfileId) : deleteProfile hash p id = p.removeProfile hash id := by
  have hne : ¬ (id = (p.removeProfile hash id).getCurrentProfileId) := by
    rw [getCurrentProfileId, removeProfile_currentProfileId]
    exact hid
  rw [deleteProfile, if_neg hlen]
  dsimp only
  rw [if_neg hne]

theorem CurrentRegistered.delete (hp : CurrentRegistered p) :
    CurrentRegistered (deleteProfile hash p id) := by
  by_cases hlen : p.getProfileIds.elems.length ≤ 1
  · rw [deleteProfile, if_pos hlen]
    exact hp
  · by_cases hid : id = p.currentProfileId
    · subst hid
      obtain ⟨y, hy, he⟩ := deleteProfile_current hash (p := p) (by omega)
      rw [he]
      exact .setCurrent (by rw [getSortedProfileItems_getProfileIds]; exact hy)
    · rw [deleteProfile_other hlen hid]
      constructor
      · rw [removeProfile_currentProfileId]
        exact mem_removeProfile.mpr ⟨Ne.symm hid, hp.current_mem⟩
      · rw [storedCurrentId_congr removeProfile_get_current, removeProfile_currentProfileId]
        exact hp.stored

theorem NonBlankIds.delete (hp : NonBlankIds p) : NonBlankIds (deleteProfile hash p id) := by
  by_cases hlen : p.getProfileIds.elems.length ≤ 1
  · rw [deleteProfile, if_pos hlen]
    exact hp
  · by_cases hid : id = p.currentProfileId
    · subst hid
      obtain ⟨y, -, he⟩ := deleteProfile_current hash (p := p) (by omega)
      rw [he]
      exact (hp.removeProfile.of_eq getSortedProfileItems_getProfileIds).setCurrent
    · rw [deleteProfile_other hlen hid]
      exact hp.removeProfile

theorem orderEnumerates_setCurrent (h : OrderEnumerates p) :
    OrderEnumerates (p.setCurrentProfileId id) := by
  have ho : (p.setCurrentProfileId id).getProfileOrder = p.getProfileOrder :=
    getProfileOrder_congr (setCurrentProfileId_get (by decide))
  constructor
  · rw [ho]
    exact h.nodup
  · intro x
    rw [ho, getProfileIds_setCurrentProfileId]
    exact h.mem_iff x

theorem selectProfile_cases (p : Preferences) (id : String) :
    selectProfile p id = p ∨ selectProfile p id = p.setCurrentProfileId id := by
  unfold selectProfile
  split
  · exact Or.inl rfl
  · split
    · exact Or.inl rfl
    · exact Or.inr rfl

theorem CurrentRegistered.select (hp : CurrentRegistered p) (hid : id ∈ p.getProfileIds.elems) :
    CurrentRegistered (selectProfile p id) := by
  rcases selectProfile_cases p id with h | h
  · rw [h]
    exact hp
  · rw [h]
    exact .setCurrent hid

theorem NonBlankIds.select (hp : NonBlankIds p) : NonBlankIds (selectProfile p id) := by
  rcases selectProfile_cases p id with h | h
  · rw [h]
    exact hp
  · rw [h]
    exact hp.setCurrent

/-- The loop of `clearAllSubProfiles` only takes ids away, and leaves the current id. -/
theorem clearSubProfile_foldl (hash : HashOrder) (ids : List String) (acc : Preferences × Nat) :
    (∀ x ∈ (ids.foldl (clearSubProfile hash) acc).1.getProfileIds.elems,
        x ∈ acc.1.getProfileIds.elems) ∧
      (ids.foldl (clearSubProfile hash) acc).1.currentProfileId = acc.1.currentProfileId ∧
      (ids.foldl (clearSubProfile hash) acc).1.get (.global .CURRENT_PROFILE_ID) =
        acc.1.get (.global .CURRENT_PROFILE_ID) := by
  induction ids generalizing acc with
  | nil => exact ⟨fun _ hx => hx, rfl, rfl⟩
  | cons id ids ih =>
    rw [List.foldl_cons]
    obtain ⟨hm, hc, hg⟩ := ih (clearSubProfile hash acc id)
    by_cases hsub : acc.1.isSubProfile id = true
    · have he : (clearSubProfile hash acc id).1 = acc.1.removeProfile hash id := by
        rw [clearSubProfile, if_pos hsub]
      rw [he] at hm hc hg
      exact ⟨fun x hx => (mem_removeProfile.mp (hm x hx)).2,
        hc.trans removeProfile_currentProfileId, hg.trans removeProfile_get_current⟩
    · have he : clearSubProfile hash acc id = acc := by rw [clearSubProfile, if_neg hsub]
      rw [he] at hm hc hg ⊢
      exact ⟨hm, hc, hg⟩

theorem currentRegistered_restoreCurrent (hs : storedCurrentId p.prefs = some p.currentProfileId) :
    CurrentRegistered (p.restoreCurrent hash) := by
  unfold restoreCurrent
  split
  · exact .setCurrent (mem_of_add (addProfile_getProfileIds _))
  · rename_i first rest hids
    split
    · refine .setCurrent ?_
      rw [hids]
      exact List.mem_cons_self
    · rename_i hc
      refine ⟨?_, hs⟩
      simpa [StringSet.contains, getCurrentProfileId] using hc

theorem NonBlankIds.restoreCurrent (hp : NonBlankIds p) : NonBlankIds (p.restoreCurrent hash) := by
  unfold Preferences.restoreCurrent
  split
  · exact (hp.of_add (by decide) (addProfile_getProfileIds _)).setCurrent
  · split
    · exact hp.setCurrent
    · exact hp

theorem getProfileIds_setProfileOrder {order : List String} :
    (p.setProfileOrder order).getProfileIds = p.getProfileIds :=
  getProfileIds_congr (setProfileOrder_get _ (by decide))

theorem CurrentRegistered.clear (hp : CurrentRegistered p) :
    CurrentRegistered (p.clearAllSubProfiles hash).1 := by
  unfold clearAllSubProfiles
  dsimp only
  obtain ⟨-, hc, hg⟩ := clearSubProfile_foldl hash (hash.order p.getProfileIds.elems) (p, 0)
  refine (currentRegistered_restoreCurrent ?_).of_same getProfileIds_setProfileOrder rfl
    (setProfileOrder_get _ (by decide))
  rw [storedCurrentId_congr hg, hc]
  exact hp.stored

theorem NonBlankIds.clear (hp : NonBlankIds p) :
    NonBlankIds (p.clearAllSubProfiles hash).1 := by
  unfold clearAllSubProfiles
  dsimp only
  obtain ⟨hm, -, -⟩ := clearSubProfile_foldl hash (hash.order p.getProfileIds.elems) (p, 0)
  exact (hp.of_ids hm).restoreCurrent.of_eq getProfileIds_setProfileOrder

/-- The first node of a sync is registered after it. -/
theorem head_assigned_mem (hash : HashOrder) (p : Preferences) {nodes : List SubNode}
    (uuid : Nat → String) (hne : nodes ≠ []) :
    ∃ id, ((assigned p nodes uuid).map Prod.fst).head? = some id ∧
      id ∈ (swept hash p nodes uuid).getProfileIds.elems := by
  have hlen : 0 < ((assigned p nodes uuid).map Prod.fst).length := by
    rw [assignedIds_length]
    exact List.length_pos_of_ne_nil hne
  obtain ⟨id, rest, hl⟩ := List.exists_cons_of_length_pos hlen
  refine ⟨id, by rw [hl]; rfl, swept_mem.mpr (Or.inl ?_)⟩
  rw [hl]
  exact List.mem_cons_self

theorem CurrentRegistered.sync {nodes : List SubNode} {uuid : Nat → String}
    (hp : CurrentRegistered p) (hne : nodes ≠ []) :
    CurrentRegistered (applySubNodes hash p nodes uuid).1 := by
  rw [applySubNodes_eq]
  dsimp only
  split
  · rename_i hc
    have hcur : ((swept hash p nodes uuid).setProfileOrder
        (newOrder hash p nodes uuid)).currentProfileId = p.currentProfileId :=
      swept_currentProfileId
    have hget : ((swept hash p nodes uuid).setProfileOrder (newOrder hash p nodes uuid)).get
        (.global .CURRENT_PROFILE_ID) = p.get (.global .CURRENT_PROFILE_ID) := by
      rw [setProfileOrder_get _ (by decide), swept_get_global (by decide) (by decide)]
    constructor
    · rw [hcur, getProfileIds_setProfileOrder]
      exact hc.1
    · rw [storedCurrentId_congr hget, hcur]
      exact hp.stored
  · obtain ⟨id, hhead, hm⟩ := head_assigned_mem hash p uuid hne
    rw [hhead]
    exact .setCurrent (by rw [getProfileIds_setProfileOrder]; exact hm)

theorem currentRegistered_step :
    Preserves (Guarded (Operation.Step hash) Operation.EditsRegistered) CurrentRegistered := by
  rintro p op q ⟨hedit, hoffer, rfl⟩ hp
  unfold Operation.apply
  cases op with
  | newProfile uuid form => exact hp.newProfile
  | edit id form => exact hp.edit hedit
  | copy sourceId name uuid => exact hp.copy
  | rename id name => exact hp.rename
  | delete id => exact hp.delete
  | clearAllSubProfiles => exact hp.clear
  | applySubNodes nodes uuid => exact hp.sync hoffer
  | select id => exact hp.select hoffer
  | refresh => exact hp.refresh

theorem nonBlankIds_step : Preserves (Operation.Step hash) NonBlankIds := by
  rintro p op q ⟨-, rfl⟩ hp
  unfold Operation.apply
  cases op with
  | newProfile uuid form => exact hp.newProfile
  | edit id form => exact hp.edit
  | copy sourceId name uuid => exact hp.copy
  | rename id name => exact hp.rename
  | delete id => exact hp.delete
  | clearAllSubProfiles => exact hp.clear
  | applySubNodes nodes uuid => exact nonBlankIds_applySubNodes hp
  | select id => exact hp.select
  | refresh => exact hp.of_eq getSortedProfileItems_getProfileIds

/-- The refresh inside the deletion of the current profile. -/
theorem orderEnumerates_delete (hp : NonBlankIds p) (hlen : 1 < p.getProfileIds.elems.length) :
    OrderEnumerates (deleteProfile hash p p.currentProfileId) := by
  obtain ⟨y, -, he⟩ := deleteProfile_current hash hlen
  rw [he]
  exact orderEnumerates_setCurrent (orderEnumerates_refresh hp.removeProfile)

end Operations

/-- Some profile is registered and the current one is; the refresh of the list, also the one inside the
deletion of the current profile, leaves each registered id once in the stored order. -/
structure RegistryLaw (hash : HashOrder) (p : Preferences) : Prop where
  nonempty : p.getProfileIds.elems ≠ []
  current_mem : p.getCurrentProfileId ∈ p.getProfileIds.elems
  refresh : OrderEnumerates (getSortedProfileItems p).2
  delete : 1 < p.getProfileIds.elems.length →
    OrderEnumerates (deleteProfile hash p p.getCurrentProfileId)

theorem registryLaw_of_registered (hp : CurrentRegistered p) (hb : NonBlankIds p) :
    RegistryLaw hash p where
  nonempty := List.ne_nil_of_mem hp.current_mem
  current_mem := hp.current_mem
  refresh := orderEnumerates_refresh hb
  delete := orderEnumerates_delete hb

/-- The condition is what a step needs: an edit that breaks it breaks the law. -/
theorem registryLaw_step (h : Operation.Step hash p op q) (hp : CurrentRegistered p ∧ NonBlankIds p) :
    RegistryLaw hash q ↔ op.EditsRegistered p := by
  constructor
  · intro hq
    cases op with
    | edit id form =>
      intro hacc
      by_contra hid
      obtain ⟨-, rfl⟩ := h
      exact saveProfile_unregistered hacc hid hq.current_mem
    | _ => trivial
  · intro hedit
    exact registryLaw_of_registered (currentRegistered_step _ _ _ ⟨hedit, h⟩ hp.1)
      (nonBlankIds_step _ _ _ h hp.2)

/-- The registry law holds after the construction, and in every later state of exactly those runs
whose accepted edits are all of registered profiles. -/
theorem registry_invariant {ops : List Operation}
    (hblank : ∀ id ∈ (prefs.getStringSet (.global .PROFILES) .empty).elems, isBlank id = false) :
    RegistryLaw hash (initProfiles hash prefs) ∧
      (Run (Into (Operation.Step hash) (RegistryLaw hash)) (initProfiles hash prefs) ops p ↔
        Run (Guarded (Operation.Step hash) Operation.EditsRegistered) (initProfiles hash prefs)
          ops p) := by
  have hp : CurrentRegistered (initProfiles hash prefs) := currentRegistered_initProfiles prefs
  have hb : NonBlankIds (initProfiles hash prefs) := nonBlankIds_initProfiles hblank
  have hinv : Preserves (Guarded (Operation.Step hash) Operation.EditsRegistered)
      fun p => CurrentRegistered p ∧ NonBlankIds p := fun s a t h hs =>
    ⟨currentRegistered_step s a t h hs.1, nonBlankIds_step s a t h.2 hs.2⟩
  exact ⟨registryLaw_of_registered hp hb,
    Run.into_iff_guarded_of_inv hinv (fun _ _ _ => registryLaw_step) ⟨hp, hb⟩⟩

/-- The random text of the examples. -/
def someUuid : UUID := ⟨"6f1c", by decide⟩

/-- A form with a name and a server address, and the defaults of the editor. -/
def formOf (name server : String) : ProfileForm :=
  ⟨name, server, "", "", "", 3, "443", "https://doh.pub/dns-query", "cloudflare-ech.com", false,
    false⟩

/-- A copy of the default profile is made, edited and deleted again. -/
def copyEditDelete : List Operation :=
  [.copy "default" "b" someUuid, .edit someUuid.text (formOf "c" "s.c"), .delete someUuid.text]

def afterCopyEdit : Preferences :=
  saveProfile newestFirst (MainActivity.copyProfile newestFirst freshInstall "default" "b" someUuid)
    false someUuid.text "" (formOf "c" "s.c")

theorem copyEditDelete_run :
    Run (Guarded (Operation.Step newestFirst) Operation.EditsRegistered) freshInstall copyEditDelete
      (deleteProfile newestFirst afterCopyEdit someUuid.text) :=
  .stepL ⟨trivial, trivial, rfl⟩ <|
    .stepL ⟨fun _ => by decide, trivial, rfl⟩ <|
    .single ⟨trivial, trivial, rfl⟩

/-- The law in every state of the run, and the current profile at its end. -/
theorem registry_invariant_copy :
    Run (Into (Operation.Step newestFirst) (RegistryLaw newestFirst)) freshInstall copyEditDelete
      (deleteProfile newestFirst afterCopyEdit someUuid.text) ∧
    (deleteProfile newestFirst afterCopyEdit someUuid.text).getCurrentProfileId = "default" :=
  ⟨(registry_invariant fun _ hx => (List.not_mem_nil hx).elim).2.mpr copyEditDelete_run, by decide⟩

/-- The subscription has node `a`, then node `b` instead; an editor of `a`, opened before, saves. -/
def editGone : List Operation :=
  [.applySubNodes [⟨"a", "s.a", "", "", true, false, 3, "443"⟩] firstUuids,
    .applySubNodes [⟨"b", "s.b", "", "", true, false, 3, "443"⟩] nextUuids,
    .edit "sub_00000001" (formOf "a" "s.a")]

/-- The node that is gone becomes current. -/
theorem edit_gone_current : ∃ p, Run (Operation.Step newestFirst) freshInstall editGone p ∧
    p.getCurrentProfileId = "sub_00000001" ∧ p.getCurrentProfileId ∉ p.getProfileIds.elems ∧
    ¬ RegistryLaw newestFirst p := by
  have hrun : Run (Operation.Step newestFirst) freshInstall editGone
      (editGone.foldl (Operation.apply newestFirst) freshInstall) :=
    .stepL ⟨List.cons_ne_nil _ _, rfl⟩ <|
      .stepL ⟨List.cons_ne_nil _ _, rfl⟩ <|
      .single ⟨trivial, rfl⟩
  have hgone : (editGone.foldl (Operation.apply newestFirst) freshInstall).getCurrentProfileId ∉
      (editGone.foldl (Operation.apply newestFirst) freshInstall).getProfileIds.elems := by decide
  exact ⟨_, hrun, by decide, hgone, fun h => hgone h.current_mem⟩

end XTunnel.Profiles
