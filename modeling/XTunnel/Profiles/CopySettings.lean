import XTunnel.Profiles.Registry

/-! `Preferences.copyProfile`: when the copy has the effective settings of its source. -/
namespace XTunnel.Profiles

open Preferences

variable {p : Preferences} {fromId toId x : String} {f : Field}

/-- The ten getters return for the copy what they returned for the source. -/
structure CopiedSettings (p q : Preferences) (fromId toId : String) : Prop where
  wssAddr : q.getWssAddr toId = p.getWssAddr fromId
  echDns : q.getEchDns toId = p.getEchDns fromId
  echDomain : q.getEchDomain toId = p.getEchDomain fromId
  prefIp : q.getPrefIp toId = p.getPrefIp fromId
  ipsPref : q.getIpsPref toId = p.getIpsPref fromId
  udpBlockPorts : q.getUdpBlockPorts toId = p.getUdpBlockPorts fromId
  insecure : q.getInsecure toId = p.getInsecure fromId
  token : q.getToken toId = p.getToken fromId
  wsConn : q.getWsConn toId = p.getWsConn fromId
  disableEch : q.getDisableEch toId = p.getDisableEch fromId

/-- The value that the copy stores in a field, read from the source with the defaults written in
`copyProfile`. -/
def copiedValue (p : Preferences) (fromId : String) : Field → Option Value
  | .WSS_ADDR => some (.string (p.prefs.getString (.profile .WSS_ADDR fromId) ""))
  | .ECH_DNS => some (.string (p.prefs.getString (.profile .ECH_DNS fromId)
      "https://doh.pub/dns-query"))
  | .ECH_DOMAIN => some (.string (p.prefs.getString (.profile .ECH_DOMAIN fromId)
      "cloudflare-ech.com"))
  | .PREF_IP => some (.string (p.prefs.getString (.profile .PREF_IP fromId) ""))
  | .IPS_PREF => some (.string (p.prefs.getString (.profile .IPS_PREF fromId) ""))
  | .UDP_BLOCK_PORTS => some (.string (p.prefs.getString (.profile .UDP_BLOCK_PORTS fromId) "443"))
  | .INSECURE => some (.boolean (p.prefs.getBoolean (.profile .INSECURE fromId) false))
  | .TOKEN => some (.string (p.prefs.getString (.profile .TOKEN fromId) ""))
  | .WS_CONN => some (.int (p.prefs.getInt (.profile .WS_CONN fromId) 3))
  | .DISABLE_ECH => some (.boolean (p.prefs.getBoolean (.profile .DISABLE_ECH fromId) false))
  | .PROFILE_NAME | .PROFILE_IS_SUB | .PROFILE_LATENCY => none

theorem copySettings_get_profile : (p.copyProfile fromId toId).get (.profile f x) =
    if x = toId then (copiedValue p fromId f).or (p.get (.profile f x))
    else p.get (.profile f x) := by
  by_cases hx : x = toId
  · subst hx
    cases f <;>
      simp [Preferences.copyProfile, copiedValue, setWssAddr, setToken, setPrefIp, setIpsPref,
        setWsConn, setUdpBlockPorts, setEchDns, setEchDomain, setInsecure, setDisableEch]
  · simp [Preferences.copyProfile, setWssAddr, setToken, setPrefIp, setIpsPref, setWsConn,
      setUdpBlockPorts, setEchDns, setEchDomain, setInsecure, setDisableEch, hx]

theorem copySettings_string {d v : String} (h : copiedValue p fromId f = some (.string v)) :
    (p.copyProfile fromId toId).prefs.getString (.profile f toId) d = v := by
  apply SharedPreferences.getString_of_get
  change (p.copyProfile fromId toId).get _ = _
  rw [copySettings_get_profile, if_pos rfl, h, Option.some_or]

theorem copySettings_boolean {d v : Bool} (h : copiedValue p fromId f = some (.boolean v)) :
    (p.copyProfile fromId toId).prefs.getBoolean (.profile f toId) d = v := by
  apply SharedPreferences.getBoolean_of_get
  change (p.copyProfile fromId toId).get _ = _
  rw [copySettings_get_profile, if_pos rfl, h, Option.some_or]

/-- The copy keeps the stored count, or the 3 written in `copyProfile`. -/
theorem copySettings_wsConn : (p.copyProfile fromId toId).getWsConn toId =
    p.prefs.getInt (.profile .WS_CONN fromId) 3 := by
  have hget : (p.copyProfile fromId toId).prefs.get (.profile .WS_CONN toId) =
      some (.int (p.prefs.getInt (.profile .WS_CONN fromId) 3)) := by
    change (p.copyProfile fromId toId).get _ = _
    rw [copySettings_get_profile, if_pos rfl]
    rfl
  rw [getWsConn, SharedPreferences.getInt, hget]

/-- The source has a connection count of its own. -/
def HasWsConn (p : Preferences) (id : String) : Prop :=
  ∃ n, p.get (.profile .WS_CONN id) = some (.int n)

/-- With a count of its own a profile shows that count, without one the fallback. -/
theorem getInt_eq_iff {a b : Int} : p.prefs.getInt (.profile .WS_CONN x) a =
    p.prefs.getInt (.profile .WS_CONN x) b ↔ HasWsConn p x ∨ a = b := by
  have hget : p.prefs.get (.profile .WS_CONN x) = p.get (.profile .WS_CONN x) := rfl
  rw [HasWsConn, SharedPreferences.getInt, SharedPreferences.getInt, hget]
  cases p.get (.profile .WS_CONN x) with
  | none => simp
  | some v => cases v <;> simp

theorem copySettings_same (hx : x ≠ toId) : SameSettings p (p.copyProfile fromId toId) x :=
  sameSettings_of_get (fun _ => copySettings_get_profile.trans (if_neg hx)) copySettings_get

/-- The copy has the settings of its source, and the other profiles keep theirs, exactly when the
source has a connection count of its own or the global one is 3. -/
theorem copyProfile_iff (p : Preferences) (fromId toId : String) :
    CopiedSettings p (p.copyProfile fromId toId) fromId toId ∧
        (∀ x, x ≠ toId → SameSettings p (p.copyProfile fromId toId) x) ↔
      HasWsConn p fromId ∨ p.getGlobalWsConn = 3 := by
  have hconn : (p.copyProfile fromId toId).getWsConn toId = p.getWsConn fromId ↔
      HasWsConn p fromId ∨ p.getGlobalWsConn = 3 := by
    rw [copySettings_wsConn, getWsConn, getInt_eq_iff, eq_comm (a := 3)]
  constructor
  · rintro ⟨hc, -⟩
    exact hconn.mp hc.wsConn
  · intro h
    refine ⟨?_, fun x hx => copySettings_same hx⟩
    constructor
    · exact copySettings_string rfl
    · exact copySettings_string rfl
    · exact copySettings_string rfl
    · exact copySettings_string rfl
    · exact copySettings_string rfl
    · exact copySettings_string rfl
    · exact copySettings_boolean rfl
    · exact copySettings_string rfl
    · exact hconn.mpr h
    · exact copySettings_boolean rfl

/-- A fresh store with a global connection count of 8. -/
def eightConnections : Preferences :=
  (Preferences.initProfiles newestFirst fun _ => none).put (.global .GLOBAL_WS_CONN) (.int 8)

/-- A profile that follows the global count is copied with a count of 3. -/
theorem copy_forgets_global : ¬ ∀ p fromId toId,
    CopiedSettings p (p.copyProfile fromId toId) fromId toId := by
  intro h
  have hconn := (h eightConnections "default" "copy").wsConn
  revert hconn
  decide

end XTunnel.Profiles
