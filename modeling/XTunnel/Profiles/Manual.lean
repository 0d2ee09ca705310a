import XTunnel.Transition
import XTunnel.Profiles.Completeness

/-! Profiles that are not flagged survive every sync. -/
namespace XTunnel.Profiles

open Preferences

variable {hash : HashOrder} {p q : Preferences} {nodes : List SubNode} {uuid : Nat → String}
  {id x : String}

theorem mergeOrder_eq (o r v : List String) : mergeOrder o r v =
    v.foldl addIfAbsent (r.foldl addIfAbsent ((o.filter v.contains).foldl addIfAbsent [])) := by
  rw [mergeOrder, List.foldl_filter]

theorem mem_mergeOrder {o r v : List String} :
    x ∈ mergeOrder o r v ↔ x ∈ r ∨ x ∈ v := by
  rw [mergeOrder_eq]
  simp only [foldl_addIfAbsent_mem, List.not_mem_nil, false_or, List.mem_filter,
    List.contains_iff_mem]
  tauto

theorem mergeOrder_nodup (o r v : List String) : (mergeOrder o r v).Nodup := by
  rw [mergeOrder_eq]
  exact foldl_addIfAbsent_nodup (foldl_addIfAbsent_nodup (foldl_addIfAbsent_nodup List.nodup_nil))

/-- The stored order of a sync is a duplicate-free enumeration of the non-blank ids. -/
theorem applySubNodes_order_nodup :
    (applySubNodes hash p nodes uuid).1.getProfileOrder.Nodup := by
  rw [applySubNodes_getProfileOrder]
  exact (mergeOrder_nodup _ _ _).filter _

theorem mem_applySubNodes_order (hb : isBlank x = false)
    (hx : x ∈ (applySubNodes hash p nodes uuid).1.getProfileIds.elems) :
    x ∈ (applySubNodes hash p nodes uuid).1.getProfileOrder := by
  rw [applySubNodes_getProfileIds] at hx
  rw [applySubNodes_getProfileOrder, List.mem_filter, newOrder, mem_mergeOrder]
  exact ⟨Or.inr hx, by simp [hb]⟩

/-- The name and the ten settings of a profile read the same in both states. -/
structure SameSettings (p q : Preferences) (id : String) : Prop where
  name : q.getProfileName id = p.getProfileName id
  wssAddr : q.getWssAddr id = p.getWssAddr id
  echDns : q.getEchDns id = p.getEchDns id
  echDomain : q.getEchDomain id = p.getEchDomain id
  prefIp : q.getPrefIp id = p.getPrefIp id
  ipsPref : q.getIpsPref id = p.getIpsPref id
  udpBlockPorts : q.getUdpBlockPorts id = p.getUdpBlockPorts id
  insecure : q.getInsecure id = p.getInsecure id
  token : q.getToken id = p.getToken id
  wsConn : q.getWsConn id = p.getWsConn id
  disableEch : q.getDisableEch id = p.getDisableEch id

/-- Equal entries, the global connection count included, read the same. -/
theorem sameSettings_of_get (h : ∀ f, q.get (.profile f id) = p.get (.profile f id))
    (hg : q.get (.global .GLOBAL_WS_CONN) = p.get (.global .GLOBAL_WS_CONN)) :
    SameSettings p q id := by
  have hs : ∀ f d, q.prefs.getString (.profile f id) d = p.prefs.getString (.profile f id) d :=
    fun f d => SharedPreferences.getString_congr (h f) d
  have hb : ∀ f d, q.prefs.getBoolean (.profile f id) d = p.prefs.getBoolean (.profile f id) d :=
    fun f d => SharedPreferences.getBoolean_congr (h f) d
  refine ⟨?_, hs _ _, hs _ _, hs _ _, hs _ _, hs _ _, hs _ _, hb _ _, hs _ _, ?_, hb _ _⟩
  · unfold getProfileName
    split
    · rename_i hd
      subst hd
      exact hs _ _
    · exact hs _ _
  · have hn : q.getGlobalWsConn = p.getGlobalWsConn := SharedPreferences.getInt_congr hg _
    unfold getWsConn
    rw [hn]
    exact SharedPreferences.getInt_congr (h .WS_CONN) _

theorem SameSettings.refl (p : Preferences) (id : String) : SameSettings p p id :=
  sameSettings_of_get (fun _ => rfl) rfl

theorem SameSettings.trans {r : Preferences} (h : SameSettings p q id)
    (h' : SameSettings q r id) : SameSettings p r id where
  name := h'.name.trans h.name
  wssAddr := h'.wssAddr.trans h.wssAddr
  echDns := h'.echDns.trans h.echDns
  echDomain := h'.echDomain.trans h.echDomain
  prefIp := h'.prefIp.trans h.prefIp
  ipsPref := h'.ipsPref.trans h.ipsPref
  udpBlockPorts := h'.udpBlockPorts.trans h.udpBlockPorts
  insecure := h'.insecure.trans h.insecure
  token := h'.token.trans h.token
  wsConn := h'.wsConn.trans h.wsConn
  disableEch := h'.disableEch.trans h.disableEch

/-- Registered and not flagged. -/
def Manual (p : Preferences) (id : String) : Prop :=
  id ∈ p.getProfileIds.elems ∧ p.isSubProfile id = false

/-- One sync with a non-empty list under fresh random ids. -/
def SyncStep (hash : HashOrder) (p : Preferences) (a : List SubNode × (Nat → String))
    (q : Preferences) : Prop :=
  a.1 ≠ [] ∧ FreshUuids p a.2 a.1.length ∧ q = (applySubNodes hash p a.1 a.2).1

theorem manual_step {a : List SubNode × (Nat → String)} (h : SyncStep hash p a q)
    (hm : Manual p id) : Manual q id ∧ SameSettings p q id := by
  obtain ⟨-, hf, rfl⟩ := h
  have hx := manual_notMem_assigned hf hm.1 hm.2
  have hget : ∀ f, (applySubNodes hash p a.1 a.2).1.get (.profile f id) =
      p.get (.profile f id) := by
    intro f
    rw [applySubNodes_get (by simp) (by simp), swept_get_manual hx hm.2]
  refine ⟨⟨?_, ?_⟩, sameSettings_of_get hget ?_⟩
  · rw [applySubNodes_getProfileIds]
    exact swept_mem.mpr (Or.inr hm)
  · rw [isSubProfile_congr (hget _)]
    exact hm.2
  · rw [applySubNodes_get (by decide) (by decide), swept_get_global (by decide) (by decide)]

theorem manual_run {xs : List (List SubNode × (Nat → String))} (h : Run (SyncStep hash) p xs q)
    (hm : Manual p id) : Manual q id ∧ SameSettings p q id := by
  induction h with
  | refl => exact ⟨hm, .refl _ id⟩
  | stepL hs _ ih =>
    obtain ⟨hm', hsame⟩ := manual_step hs hm
    obtain ⟨hm'', hsame'⟩ := ih hm'
    exact ⟨hm'', hsame.trans hsame'⟩

theorem manual_survives_syncs {xs : List (List SubNode × (Nat → String))}
    (h : Run (SyncStep hash) p xs q) (hne : xs ≠ []) (hm : Manual p id)
    (hb : isBlank id = false) :
    Manual q id ∧ SameSettings p q id ∧ q.getProfileOrder.count id = 1 := by
  obtain ⟨hq, hsame⟩ := manual_run h hm
  obtain ⟨r, a, -, -, rfl⟩ := h.last hne
  exact ⟨hq, hsame, List.count_eq_one_of_mem applySubNodes_order_nodup
    (mem_applySubNodes_order hb hq.1)⟩

theorem syncStep_first : SyncStep newestFirst freshInstall (twoIps, firstUuids) afterFirstSync :=
  ⟨by decide, freshUuids_first, rfl⟩

theorem manual_survives_syncs_default : Manual afterFirstSync "default" ∧
    SameSettings freshInstall afterFirstSync "default" ∧
    afterFirstSync.getProfileOrder.count "default" = 1 :=
  manual_survives_syncs (.single syncStep_first) (List.cons_ne_nil _ _) ⟨by decide, by decide⟩
    (by decide)

/-- No registered id is blank. -/
def NonBlankIds (p : Preferences) : Prop := ∀ id ∈ p.getProfileIds.elems, isBlank id = false

theorem isBlank_of_mem {s : String} {c : Char} (hc : c ∈ s.toList) (h : 32 < c.toNat) :
    isBlank s = false := by
  have hdrop : ∀ l : List Char, c ∈ l → c ∈ l.dropWhile (·.toNat ≤ 32) := by
    intro l hl
    rw [← List.takeWhile_append_dropWhile (p := (·.toNat ≤ 32)) (l := l), List.mem_append] at hl
    rcases hl with hl | hl
    · have hle := List.all_takeWhile (p := (·.toNat ≤ 32)) (l := l)
      rw [List.all_eq_true] at hle
      have hc := of_decide_eq_true (hle c hl)
      omega
    · exact hl
  have hm : c ∈ (trim s).toList := by
    simpa [trim] using hdrop _ (List.mem_reverse.mpr (hdrop _ hc))
  rw [isBlank, String.isEmpty_eq_false_iff]
  rintro he
  simp [he] at hm

theorem subId_nonblank (uuid : String) : isBlank (subId uuid) = false :=
  isBlank_of_mem (c := 's') (by simp [subId]) (by decide)

theorem nonBlankIds_initProfiles {prefs : SharedPreferences}
    (h : ∀ id ∈ (prefs.getStringSet (.global .PROFILES) .empty).elems, isBlank id = false) :
    NonBlankIds (initProfiles hash prefs) := by
  have hcur : ∀ (r : Preferences) (x : String), (r.setCurrentProfileId x).getProfileIds =
      r.getProfileIds := fun r x => getProfileIds_congr (setCurrentProfileId_get (by decide))
  intro id hid
  unfold initProfiles at hid
  dsimp only at hid
  split at hid
  · rename_i hnil
    rw [hcur, addProfile_getProfileIds, StringSet.mem_add, hnil] at hid
    rcases hid with rfl | hid
    · decide
    · cases hid
  · split at hid
    · rw [hcur] at hid
      exact h id hid
    · split at hid
      · exact h id hid
      · rw [hcur] at hid
        exact h id hid

/-- What the user enters for a node. -/
structure ProfileForm where
  profileName : String
  wssAddr : String
  token : String
  prefIp : String
  ipsPref : String
  wsConn : Int
  udpBlockPorts : String
  echDns : String
  echDomain : String
  insecure : Bool
  disableEch : Bool

/-- `ProfileEditActivity.saveProfile`: an edited node is no longer a subscription node. -/
def saveProfile (hash : HashOrder) (p : Preferences) (isNewProfile : Bool) (profileId uuid : String)
    (form : ProfileForm) : Preferences :=
  let profileName := trim form.profileName
  if profileName.isEmpty then p
  else if p.hasProfileName profileName (if isNewProfile then none else some profileId) then p
  else
    let targetId := if isNewProfile then uuid else profileId
    let p :=
      if isNewProfile then p.addProfile hash targetId profileName
      else (p.setProfileName targetId profileName).setProfileIsSub targetId false
    let p := p.setWssAddr targetId (trim form.wssAddr)
    let p := p.setToken targetId form.token
    let p := p.setPrefIp targetId (trim form.prefIp)
    let p := p.setIpsPref targetId form.ipsPref
    let p := p.setWsConn targetId (clampWsConn form.wsConn)
    let p := p.setUdpBlockPorts targetId (trim form.udpBlockPorts)
    let p := p.setEchDns targetId (trim form.echDns)
    let p := p.setEchDomain targetId (trim form.echDomain)
    let p := p.setInsecure targetId form.insecure
    let p := p.setDisableEch targetId (form.insecure || form.disableEch)
    p.setCurrentProfileId targetId

/-- A registered node whose edit is accepted is manual afterwards, whatever it was before. -/
theorem saveProfile_manual {form : ProfileForm} {uuid : String} (hx : x ∈ p.getProfileIds.elems)
    (hname : trim form.profileName ≠ "")
    (hfree : p.hasProfileName (trim form.profileName) (some x) = false) :
    Manual (saveProfile hash p false x uuid form) x := by
  have hget : ∀ k, k = .global .PROFILES ∨ k = .profile .PROFILE_IS_SUB x →
      (saveProfile hash p false x uuid form).get k =
        ((p.setProfileName x (trim form.profileName)).setProfileIsSub x false).get k := by
    rintro k (rfl | rfl) <;>
      simp [saveProfile, hname, hfree, setWssAddr, setToken, setPrefIp, setIpsPref, setWsConn,
        setUdpBlockPorts, setEchDns, setEchDomain, setInsecure, setDisableEch,
        setCurrentProfileId_get]
  constructor
  · have hids : (saveProfile hash p false x uuid form).getProfileIds = p.getProfileIds := by
      apply getProfileIds_congr
      rw [hget _ (Or.inl rfl)]
      simp [setProfileName, setProfileIsSub]
    rwa [hids]
  · apply SharedPreferences.getBoolean_of_get
    refine (hget _ (Or.inr rfl)).trans ?_
    simp [setProfileIsSub]

/-- Syncs register no blank id, so the order drops none. -/
theorem nonBlankIds_applySubNodes (hp : NonBlankIds p) :
    NonBlankIds (applySubNodes hash p nodes uuid).1 := by
  intro x hx
  rw [applySubNodes_getProfileIds] at hx
  rcases swept_mem.mp hx with hx | hx
  · obtain ⟨b, hb, rfl⟩ := List.mem_map.mp hx
    obtain ⟨i, hi, rfl⟩ := mem_assigned.mp hb
    rcases nodeId_cases p uuid nodes[i] i with ⟨-, id, hm, -, -, hid⟩ | ⟨-, hid⟩
    · rw [hid]
      exact hp id hm
    · rw [hid]
      exact subId_nonblank _
  · exact hp x hx.1

end XTunnel.Profiles
