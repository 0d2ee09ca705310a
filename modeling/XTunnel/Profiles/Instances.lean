import XTunnel.Profiles.Registry

/-! The several `Preferences` instances over one store: the list screen keeps one, each editor and
each service start makes its own, and a list screen that was replaced has still the one it began its
sync with. -/
namespace XTunnel.Profiles

open Preferences MainActivity

/-- The operations that the list screen does on its own instance. -/
def Operation.OnList : Operation → Prop
  | newProfile .. | edit .. => False
  | _ => True

/-- What a list screen that was replaced has still to do: the end of its sync, and the refresh that
the callback of the sync makes. -/
def Operation.OnOldList : Operation → Prop
  | applySubNodes .. | refresh => True
  | _ => False

inductive AppOperation
  | onList (op : Operation)
  /-- `own` is the current id in the instance of the replaced list screen. -/
  | onOldList (own : String) (op : Operation)
  /-- `own` is the current id that the editor's instance read when it was made. -/
  | editorSave (own : String) (isNewProfile : Bool) (profileId : String) (uuid : UUID)
      (form : ProfileForm)
  | newInstance
  | reopenList

namespace AppOperation

/-- The state is the store together with the current id in the list screen's instance. -/
def apply (hash : HashOrder) (p : Preferences) : AppOperation → Preferences
  | onList op => op.apply hash p
  | onOldList own op => { p with prefs := (op.apply hash ⟨p.prefs, own⟩).prefs }
  | editorSave own isNewProfile profileId uuid form =>
    { p with
      prefs := (saveProfile hash ⟨p.prefs, own⟩ isNewProfile profileId uuid.text form).prefs }
  | newInstance => { p with prefs := (initProfiles hash p.prefs).prefs }
  | reopenList => initProfiles hash p.prefs

def Offered (p : Preferences) : AppOperation → Prop
  | onList op => op.OnList ∧ op.Offered p
  | onOldList _ op => op.OnOldList ∧ op.Offered p
  | _ => True

def Step (hash : HashOrder) (p : Preferences) (a : AppOperation) (q : Preferences) : Prop :=
  a.Offered p ∧ q = a.apply hash p

end AppOperation

/-- A sync keeps the profiles of its nodes and those that are no subscription profiles. -/
def Kept (p : Preferences) (nodes : List SubNode) (uuid : Nat → String) (id : String) : Prop :=
  id ∈ (assigned p nodes uuid).map Prod.fst ∨
    id ∈ p.getProfileIds.elems ∧ p.isSubProfile id = false

/-- The server address of a profile once the nodes of a sync are written. -/
def syncedServer (p : Preferences) (nodes : List SubNode) (uuid : Nat → String) (id : String) :
    String :=
  match lastNode (assigned p nodes uuid) id with
  | some node => node.server
  | none => p.getWssAddr id

/-- The end of the sync through an older instance leaves the profile shown as current: it keeps that
profile, and the profile that is current in the older instance has a server and is kept as well, or
the first node gets the profile shown. -/
structure SyncsShown (p : Preferences) (own : String) (nodes : List SubNode) (uuid : Nat → String) :
    Prop where
  kept : Kept p nodes uuid p.getCurrentProfileId
  current : Kept p nodes uuid own ∧ trim (syncedServer p nodes uuid own) ≠ "" ∨
    ((assigned p nodes uuid).map Prod.fst).head? = some p.getCurrentProfileId

/-- An editor whose form is accepted saves the profile that the list screen shows as current, and a
sync that a replaced list screen began leaves that profile current. -/
def AppOperation.KeepsShown (p : Preferences) : AppOperation → Prop
  | editorSave _ isNewProfile profileId uuid form =>
    SaveAccepted p isNewProfile profileId form →
      (if isNewProfile then uuid.text else profileId) = p.getCurrentProfileId
  | onOldList own (.applySubNodes nodes uuid) => SyncsShown p own nodes uuid
  | _ => True

/-- The connect button of a list screen that is not connected: the instance that the started
service makes. Nothing is started when the current node has no server address. -/
def toggleConnection (hash : HashOrder) (p : Preferences) : Option Preferences :=
  if (trim (p.getWssAddr p.getCurrentProfileId)).isEmpty then none
  else some (initProfiles hash p.prefs)

/-- A new instance reports the list screen's current profile, and the service that the connect
button starts uses it, with the address that was checked. -/
structure ShownIsStarted (hash : HashOrder) (p : Preferences) : Prop where
  current : (initProfiles hash p.prefs).getCurrentProfileId = p.getCurrentProfileId
  started : ∀ svc, toggleConnection hash p = some svc →
    svc.getCurrentProfileId = p.getCurrentProfileId ∧
      SameSettings p svc p.getCurrentProfileId ∧
      trim (svc.getWssAddr svc.getCurrentProfileId) ≠ ""

variable {hash : HashOrder} {p q : Preferences} {prefs : SharedPreferences} {a : AppOperation}

theorem shownIsStarted_of_registered (hp : CurrentRegistered p) : ShownIsStarted hash p := by
  constructor
  · rw [hp.initProfiles_eq]
  · intro svc h
    unfold toggleConnection at h
    split at h
    · cases h
    · rename_i haddr
      rw [hp.initProfiles_eq] at h
      cases h
      exact ⟨rfl, .refl _ _, by simpa using haddr⟩

/-- An accepted save of the current profile, through any instance, leaves it current. -/
theorem CurrentRegistered.editorSave {own profileId : String} {isNewProfile : Bool} {uuid : UUID}
    {form : ProfileForm} (hp : CurrentRegistered p)
    (hshown : SaveAccepted p isNewProfile profileId form →
      (if isNewProfile then uuid.text else profileId) = p.getCurrentProfileId) :
    CurrentRegistered
      { p with
        prefs := (saveProfile hash ⟨p.prefs, own⟩ isNewProfile profileId uuid.text form).prefs } := by
  rcases saveProfile_cases hash ⟨p.prefs, own⟩ isNewProfile profileId uuid.text form with
    ⟨-, h⟩ | ⟨hacc, r, h, hids⟩
  · rw [h]
    exact hp
  · have htarget : (if isNewProfile then uuid.text else profileId) = p.currentProfileId :=
      hshown hacc
    rw [h, htarget]
    have hmem : p.currentProfileId ∈ r.getProfileIds.elems := by
      rw [hids]
      cases isNewProfile with
      | true =>
        rw [← htarget]
        exact StringSet.mem_add.mpr (Or.inl rfl)
      | false => exact hp.current_mem
    exact .setCurrent hmem

/-- The server address that the cleaned store has for a profile that the sync keeps. -/
theorem swept_getWssAddr {nodes : List SubNode} {uuid : Nat → String} {id : String}
    (h : Kept p nodes uuid id) :
    (swept hash p nodes uuid).getWssAddr id = syncedServer p nodes uuid id := by
  unfold syncedServer
  cases hn : lastNode (assigned p nodes uuid) id with
  | some node => exact SharedPreferences.getString_of_get (swept_get_node hn)
  | none =>
    have hx := lastNode_eq_none.mp hn
    exact getWssAddr_congr (swept_get_manual hx (h.resolve_left hx).2)

/-- The sync through an older instance: the store keeps its current profile, or gets the same again. -/
theorem CurrentRegistered.oldSync {own : String} {nodes : List SubNode} {uuid : Nat → String}
    (hp : CurrentRegistered p) (hs : SyncsShown p own nodes uuid) :
    CurrentRegistered
      { p with prefs := (applySubNodes hash ⟨p.prefs, own⟩ nodes uuid).1.prefs } := by
  have hmem : p.currentProfileId ∈
      (applySubNodes hash ⟨p.prefs, own⟩ nodes uuid).1.getProfileIds.elems := by
    rw [applySubNodes_getProfileIds]
    exact swept_mem.mpr hs.kept
  refine ⟨hmem, ?_⟩
  change storedCurrentId (applySubNodes hash ⟨p.prefs, own⟩ nodes uuid).1.prefs = _
  rw [applySubNodes_eq]
  dsimp only
  split
  · have hget : ((swept hash ⟨p.prefs, own⟩ nodes uuid).setProfileOrder
        (newOrder hash ⟨p.prefs, own⟩ nodes uuid)).get (.global .CURRENT_PROFILE_ID) =
          p.get (.global .CURRENT_PROFILE_ID) := by
      rw [setProfileOrder_get _ (by decide), swept_get_global (by decide) (by decide)]
      rfl
    rw [storedCurrentId_congr hget]
    exact hp.stored
  · rename_i hc
    have hhead : ((assigned ⟨p.prefs, own⟩ nodes uuid).map Prod.fst).head? =
        some p.currentProfileId := by
      rcases hs.current with ⟨hkept, hserver⟩ | hhead
      · have haddr : (swept hash ⟨p.prefs, own⟩ nodes uuid).getWssAddr own =
            syncedServer p nodes uuid own := swept_getWssAddr hkept
        exact absurd ⟨swept_mem.mpr hkept, (congrArg trim haddr).trans_ne hserver⟩ hc
      · exact hhead
    rw [hhead]
    have hset : p.currentProfileId ∈ ((swept hash ⟨p.prefs, own⟩ nodes uuid).setProfileOrder
        (newOrder hash ⟨p.prefs, own⟩ nodes uuid)).getProfileIds.elems := by
      rw [getProfileIds_setProfileOrder]
      exact swept_mem.mpr hs.kept
    exact (CurrentRegistered.setCurrent hset).stored

theorem currentRegistered_appStep :
    Preserves (Guarded (AppOperation.Step hash) AppOperation.KeepsShown) CurrentRegistered := by
  rintro p a q ⟨hshown, hoffer, rfl⟩ hp
  cases a with
  | onList op =>
    refine currentRegistered_step p op _ ⟨?_, hoffer.2, rfl⟩ hp
    cases op with
    | edit id form => exact hoffer.1.elim
    | _ => trivial
  | onOldList own op =>
    cases op with
    | applySubNodes nodes uuid => exact hp.oldSync hshown
    | refresh =>
      exact hp.of_same getSortedProfileItems_getProfileIds rfl
        (getSortedProfileItems_get (by decide))
    | _ => exact hoffer.1.elim
  | editorSave own isNewProfile profileId uuid form => exact hp.editorSave hshown
  | newInstance =>
    have he : AppOperation.newInstance.apply hash p = p := by
      rw [AppOperation.apply, hp.initProfiles_eq]
    rw [he]
    exact hp
  | reopenList => exact currentRegistered_initProfiles _

theorem shown_is_started {ops : List AppOperation}
    (h : Run (Guarded (AppOperation.Step hash) AppOperation.KeepsShown) (initProfiles hash prefs)
      ops p) : ShownIsStarted hash p :=
  shownIsStarted_of_registered
    (h.invariant currentRegistered_appStep (currentRegistered_initProfiles prefs))

/-- The list screen of a fresh install. -/
def freshList : Preferences := initProfiles newestFirst fun _ => none

/-- The default node gets its server in an editor. -/
def saveDefault : AppOperation := .editorSave "default" false "default" someUuid (formOf "a" "s.a")

/-- A new node is made in an editor. -/
def saveNew : AppOperation := .editorSave "default" true "" someUuid (formOf "b" "s.b")

/-- A sync of two nodes, begun by the list screen that is replaced. -/
def oldSync : AppOperation := .onOldList "default" (.applySubNodes twoIps firstUuids)

/-- The default node has a server when the sync ends, so the sync leaves it current. -/
theorem oldSync_run : Run (Guarded (AppOperation.Step newestFirst) AppOperation.KeepsShown)
    (initProfiles newestFirst fun _ => none) [saveDefault, .reopenList, oldSync]
    (oldSync.apply newestFirst (initProfiles newestFirst
      (saveDefault.apply newestFirst freshList).prefs)) := by
  have hkept : Kept (initProfiles newestFirst (saveDefault.apply newestFirst freshList).prefs) twoIps
      firstUuids "default" := .inr ⟨by decide, by decide⟩
  exact .stepL ⟨fun _ => rfl, trivial, rfl⟩ <|
    .stepL ⟨trivial, trivial, rfl⟩ <|
    .single ⟨⟨hkept, .inl ⟨hkept, by decide⟩⟩, ⟨trivial, List.cons_ne_nil _ _⟩, rfl⟩

theorem shown_is_started_default :
    ShownIsStarted newestFirst (oldSync.apply newestFirst (initProfiles newestFirst
      (saveDefault.apply newestFirst freshList).prefs)) :=
  shown_is_started oldSync_run

/-- The list shows the default node and checks its address; the service starts the new one. -/
theorem new_node_started_unseen :
    ∃ p, Run (AppOperation.Step newestFirst) freshList [saveDefault, saveNew] p ∧
      p.getCurrentProfileId = "default" ∧
      (toggleConnection newestFirst p).map (·.getCurrentProfileId) = some someUuid.text ∧
      ¬ ShownIsStarted newestFirst p := by
  have hrun : Run (AppOperation.Step newestFirst) freshList [saveDefault, saveNew]
      (saveNew.apply newestFirst (saveDefault.apply newestFirst freshList)) :=
    .stepL ⟨trivial, rfl⟩ (.stepL ⟨trivial, rfl⟩ .refl)
  have hstart : (toggleConnection newestFirst (saveNew.apply newestFirst
      (saveDefault.apply newestFirst freshList))).map (·.getCurrentProfileId) =
        some someUuid.text := by decide
  refine ⟨_, hrun, rfl, hstart, fun h => ?_⟩
  obtain ⟨svc, hsvc, hid⟩ := Option.map_eq_some_iff.mp hstart
  have he := (h.started svc hsvc).1
  rw [hid] at he
  exact absurd he (by decide)

end XTunnel.Profiles
