import XTunnel.Service.NodeTest

/-! One address text is read twice: the test of a node and its tunnel, and when they agree. -/
namespace XTunnel.Service

open Profiles Net

/-- The tester reads the scheme of the address as the tunnel does. -/
def SameScheme (wssAddr : String) : Prop :=
  "wss://".toList.isPrefixOf ((trim wssAddr).toList.map Char.toLower) = true ∨
    "ws://".toList.isPrefixOf (trim wssAddr).toList = true ∨
    afterScheme (trim wssAddr).toList = none

section Schemes

variable {c d : Char} {s S r : List Char} {scheme : Scheme} {wssAddr : String}

/-- A character is the lower case letter, or the capital 32 below it. -/
theorem toLower_eq (h : c.toLower = d) :
    c = d ∨ 97 ≤ d.toNat ∧ c = Char.ofNat (d.toNat - 32) := by
  by_cases hc : 'A'.val ≤ c.val ∧ c.val ≤ 'Z'.val
  · right
    have hval : c.toLower.val = c.val + 32 := congrArg Char.val (dif_pos hc)
    have h65 : 65 ≤ c.toNat := hc.1
    have h90 : c.toNat ≤ 90 := hc.2
    have h32 : (32 : UInt32).toNat = 32 := rfl
    have hd : d.toNat = c.toNat + 32 := by
      rw [← h]
      change c.toLower.val.toNat = _
      rw [hval, UInt32.toNat_add, h32]
      change (c.toNat + 32) % 2 ^ 32 = c.toNat + 32
      omega
    refine ⟨by omega, ?_⟩
    rw [hd, Nat.add_sub_cancel, Char.ofNat_toNat]
  · have heq : c.toLower = c := dif_neg hc
    exact Or.inl (heq.symm.trans h)

theorem toLower_eq_colon (h : c.toLower = ':') : c = ':' := by
  obtain h | ⟨hd, -⟩ := toLower_eq h
  · exact h
  · exact absurd hd (by decide)

theorem toLower_eq_slash (h : c.toLower = '/') : c = '/' := by
  obtain h | ⟨hd, -⟩ := toLower_eq h
  · exact h
  · exact absurd hd (by decide)

theorem toLower_eq_w (h : c.toLower = 'w') : c = 'w' ∨ c = 'W' := by
  obtain h | ⟨-, h⟩ := toLower_eq h
  · exact Or.inl h
  · exact Or.inr h

theorem toLower_eq_s (h : c.toLower = 's') : c = 's' ∨ c = 'S' := by
  obtain h | ⟨-, h⟩ := toLower_eq h
  · exact Or.inl h
  · exact Or.inr h

/-- What stands before and after `://` in an address whose scheme is known but for its case. -/
theorem lower_prefix (h : (s ++ "://".toList).isPrefixOf (r.map Char.toLower) = true) :
    ∃ S rest, r = S ++ ':' :: '/' :: '/' :: rest ∧ S.map Char.toLower = s := by
  obtain ⟨t, ht⟩ := List.isPrefixOf_iff_prefix.mp h
  obtain ⟨l, rest, rfl, hl, -⟩ := List.map_eq_append_iff.mp ht.symm
  obtain ⟨S, m, rfl, hS, hm⟩ := List.map_eq_append_iff.mp hl
  obtain ⟨c1, m, rfl, h1, hm⟩ := List.map_eq_cons_iff.mp hm
  obtain ⟨c2, m, rfl, h2, hm⟩ := List.map_eq_cons_iff.mp hm
  obtain ⟨c3, m, rfl, h3, hm⟩ := List.map_eq_cons_iff.mp hm
  rw [List.map_eq_nil_iff] at hm
  subst hm
  rw [toLower_eq_colon h1, toLower_eq_slash h2, toLower_eq_slash h3]
  exact ⟨S, rest, by simp, hS⟩

/-- The scheme in lower case, and the one that the test puts in its place. -/
def schemeText : Scheme → String
  | .wss => "wss"
  | .ws => "ws"

def httpText : Scheme → String
  | .wss => "https"
  | .ws => "http"

/-- What both sides make of an address that starts with the scheme, in any case. -/
structure Spelling (scheme : Scheme) (S : List Char) : Prop where
  isScheme : Uri.isScheme (encode S) = true
  tunnelScheme : ∀ host, Url.tunnelScheme ⟨encode S, host⟩ = some scheme
  afterScheme : ∀ r, afterScheme (S ++ ':' :: '/' :: '/' :: r) = some r
  httpUrl : ∀ r, ServerTester.httpUrl (S ++ ':' :: '/' :: '/' :: r) =
    (httpText scheme).toList ++ ':' :: '/' :: '/' :: r
  isTls : ∀ r, ServerTester.isTls (S ++ ':' :: '/' :: '/' :: r) = decide (S ≠ ['w', 's'])

theorem spelling_of_lower (h : S.map Char.toLower = (schemeText scheme).toList) :
    Spelling scheme S := by
  cases scheme with
  | wss =>
    obtain ⟨c1, S, rfl, h1, h⟩ := List.map_eq_cons_iff.mp h
    obtain ⟨c2, S, rfl, h2, h⟩ := List.map_eq_cons_iff.mp h
    obtain ⟨c3, S, rfl, h3, h⟩ := List.map_eq_cons_iff.mp h
    rw [List.map_eq_nil_iff] at h
    subst h
    rcases toLower_eq_w h1 with rfl | rfl <;> rcases toLower_eq_s h2 with rfl | rfl <;>
      rcases toLower_eq_s h3 with rfl | rfl <;>
      exact ⟨by decide, fun _ => rfl, fun _ => rfl, fun _ => rfl, fun _ => rfl⟩
  | ws =>
    obtain ⟨c1, S, rfl, h1, h⟩ := List.map_eq_cons_iff.mp h
    obtain ⟨c2, S, rfl, h2, h⟩ := List.map_eq_cons_iff.mp h
    rw [List.map_eq_nil_iff] at h
    subst h
    rcases toLower_eq_w h1 with rfl | rfl <;> rcases toLower_eq_s h2 with rfl | rfl <;>
      exact ⟨by decide, fun _ => rfl, fun _ => rfl, fun _ => rfl, fun _ => rfl⟩

/-- The rest of an address as the tunnel has it. -/
def closePath (rest : List Char) : List Char := if rest.contains '/' then rest else rest ++ ['/']

theorem toLower_toList (s : String) : s.toLower.toList = s.toList.map Char.toLower :=
  String.toList_map

/-- The address of the tunnel before its path is closed. -/
def withScheme (wssAddr : String) : String :=
  if "wss://".toList.isPrefixOf ((trim wssAddr).toList.map Char.toLower) ||
      "ws://".toList.isPrefixOf ((trim wssAddr).toList.map Char.toLower) then trim wssAddr
  else "wss://" ++ trim wssAddr

theorem normalizeWsAddr_toList (hS : Spelling scheme S)
    (h : (withScheme wssAddr).toList = S ++ ':' :: '/' :: '/' :: r) :
    (normalizeWsAddr (some wssAddr)).toList = S ++ ':' :: '/' :: '/' :: closePath r := by
  rw [withScheme] at h
  simp only [normalizeWsAddr, Option.map_some, Option.getD_some, toLower_toList, h, hS.afterScheme,
    closePath]
  split
  · rw [h]
  · rw [String.toList_append, h]
    simp

theorem utf8_normalizeWsAddr (hS : Spelling scheme S)
    (h : (withScheme wssAddr).toList = S ++ ':' :: '/' :: '/' :: r) :
    utf8 (normalizeWsAddr (some wssAddr)) = encode (S ++ ':' :: '/' :: '/' :: closePath r) := by
  rw [utf8, toUTF8_toList, normalizeWsAddr_toList hS h]

/-- The two addresses that are made of one text. Unless it has another scheme the test finds the
one that the tunnel finds. -/
inductive Addresses (wssAddr : String) : Prop
  | same {scheme : Scheme} {S rest : List Char} :
      Spelling scheme S → (SameScheme wssAddr ↔ S = ['w', 's'] ∨ scheme = .wss) →
      ServerTester.urlStr wssAddr = S ++ ':' :: '/' :: '/' :: rest →
      utf8 (normalizeWsAddr (some wssAddr)) =
        encode (S ++ ':' :: '/' :: '/' :: closePath rest) → Addresses wssAddr
  | other {rest : List Char} :
      ¬ SameScheme wssAddr → ServerTester.httpUrl (ServerTester.urlStr wssAddr) = rest →
      utf8 (normalizeWsAddr (some wssAddr)) =
        encode (['w', 's', 's'] ++ ':' :: '/' :: '/' :: closePath rest) → Addresses wssAddr

/-- A plain scheme is the same for both in lower case only. -/
theorem sameScheme_plain (hS : Spelling .ws S)
    (hs : "wss://".toList.isPrefixOf ((trim wssAddr).toList.map Char.toLower) = false)
    (h : (trim wssAddr).toList = S ++ ':' :: '/' :: '/' :: r) :
    SameScheme wssAddr ↔ S = ['w', 's'] := by
  constructor
  · rintro (hw | hw | hw)
    · rw [hs] at hw
      cases hw
    · have ht := hS.isTls r
      rw [← h, ServerTester.isTls, hw] at ht
      simpa using ht
    · rw [h, hS.afterScheme] at hw
      cases hw
  · rintro rfl
    right
    left
    rw [h]
    rfl

theorem not_sameScheme {rest : List Char}
    (hs : "wss://".toList.isPrefixOf ((trim wssAddr).toList.map Char.toLower) = false)
    (hp : "ws://".toList.isPrefixOf ((trim wssAddr).toList.map Char.toLower) = false)
    (h : afterScheme (trim wssAddr).toList = some rest) : ¬ SameScheme wssAddr := by
  rintro (hw | hw | hw)
  · rw [hs] at hw
    cases hw
  · obtain ⟨t, ht⟩ := List.isPrefixOf_iff_prefix.mp hw
    rw [← ht, List.map_append] at hp
    cases hp
  · rw [h] at hw
    cases hw

/-- The address of the test is its text, if that has a scheme. -/
theorem urlStr_spelled (hS : Spelling scheme S)
    (h : (trim wssAddr).toList = S ++ ':' :: '/' :: '/' :: r) :
    ServerTester.urlStr wssAddr = S ++ ':' :: '/' :: '/' :: r := by
  rw [ServerTester.urlStr, h, hS.afterScheme]
  rfl

theorem addresses (wssAddr : String) : Addresses wssAddr := by
  have hwss : Spelling .wss ['w', 's', 's'] := spelling_of_lower rfl
  cases hs : "wss://".toList.isPrefixOf ((trim wssAddr).toList.map Char.toLower) with
  | true =>
    obtain ⟨S, rest, heq, hlower⟩ := lower_prefix (s := "wss".toList) hs
    have hS : Spelling .wss S := spelling_of_lower hlower
    refine .same hS ⟨fun _ => Or.inr rfl, fun _ => Or.inl hs⟩ (urlStr_spelled hS heq)
      (utf8_normalizeWsAddr hS ?_)
    rw [withScheme, hs]
    exact heq
  | false =>
    cases hp : "ws://".toList.isPrefixOf ((trim wssAddr).toList.map Char.toLower) with
    | true =>
      obtain ⟨S, rest, heq, hlower⟩ := lower_prefix (s := "ws".toList) hp
      have hS : Spelling .ws S := spelling_of_lower hlower
      have hsame : SameScheme wssAddr ↔ S = ['w', 's'] ∨ Scheme.ws = .wss := by
        simpa using sameScheme_plain hS hs heq
      refine .same hS hsame (urlStr_spelled hS heq) (utf8_normalizeWsAddr hS ?_)
      rw [withScheme, hs, hp]
      exact heq
    | false =>
      -- only here does the tunnel put its own scheme in front
      have hfront : (withScheme wssAddr).toList =
          ['w', 's', 's'] ++ ':' :: '/' :: '/' :: (trim wssAddr).toList := by
        rw [withScheme, hs, hp, if_neg (by decide), String.toList_append]
        rfl
      cases ha : afterScheme (trim wssAddr).toList with
      | none =>
        have hurl : ServerTester.urlStr wssAddr =
            ['w', 's', 's'] ++ ':' :: '/' :: '/' :: (trim wssAddr).toList := by
          rw [ServerTester.urlStr, ha]
          rfl
        exact .same hwss ⟨fun _ => Or.inr rfl, fun _ => Or.inr (Or.inr ha)⟩ hurl
          (utf8_normalizeWsAddr hwss hfront)
      | some rest =>
        have hurl : ServerTester.urlStr wssAddr = (trim wssAddr).toList := by
          rw [ServerTester.urlStr, ha]
          rfl
        have hhttp : ServerTester.httpUrl (ServerTester.urlStr wssAddr) =
            (trim wssAddr).toList := by
          simp only [ServerTester.httpUrl, ServerTester.replaceFirst, hurl, hs, hp,
            Bool.false_eq_true, if_false]
        exact .other (not_sameScheme hs hp ha) hhttp (utf8_normalizeWsAddr hwss hfront)

end Schemes

section Requests

variable {s s' : Text} {r S : List Char} {u v : Uri}

theorem encode_address :
    encode (S ++ ':' :: '/' :: '/' :: r) = encode S ++ colon :: slash :: slash :: encode r := by
  rw [encode_append]
  rfl

theorem slash_notMem_encode (h : '/' ∉ r) : slash ∉ encode r := by
  intro hm
  exact h (mem_encode (by decide) hm)

/-- The slash at the end of the tunnel's address is the path that the test asks for without it. -/
theorem same_request (hu : Uri.hier s (encode r) = some u)
    (hv : Uri.hier s' (encode (closePath r)) = some v) :
    v.host = u.host ∧ v.port = u.port ∧ requestPath v = requestPath u := by
  rw [closePath] at hv
  split at hv
  · obtain ⟨hhost, hport, hpath⟩ := Uri.hier_same hu hv
    refine ⟨hhost, hport, ?_⟩
    rw [requestPath, hpath, requestPath]
  · rename_i hslash
    have hno : '/' ∉ r := by simpa using hslash
    rw [encode_append] at hv
    obtain ⟨hhost, hport, hpu, hpv⟩ := Uri.hier_append_slash (slash_notMem_encode hno) hu hv
    refine ⟨hhost, hport, ?_⟩
    rw [requestPath, requestPath, hpu]
    rcases hpv with hpv | hpv
    · rw [hpv]
    · rw [hpv]
      rfl

/-- An address with another scheme is in the path of the tunnel's request. -/
theorem other_request (hs : Uri.isScheme s = true) (hu : Uri.parse (encode r) = some u)
    (hv : Uri.parse (s ++ colon :: slash :: slash :: encode (closePath r)) = some v) :
    requestPath u ≠ requestPath v := by
  obtain ⟨-, hus, rest, heq, hhu⟩ := Uri.parse_eq_some.mp hu
  have hslash : '/' ∈ r := by
    apply mem_encode (by decide)
    rw [heq]
    simp
  rw [closePath, if_pos (by simpa using hslash)] at hv
  obtain ⟨-, -, hpv, -⟩ := Uri.hier_eq_some.mp (Uri.parse_append hs hv)
  obtain ⟨-, -, hpu, -⟩ := Uri.hier_eq_some.mp hhu
  rw [heq, Uri.pathOf_scheme hus] at hpv
  have hle : u.path.length ≤ (Uri.beforeQuery rest).length := by
    rw [hpu]
    exact Uri.pathOf_length_le
  intro h
  rw [requestPath, requestPath, hpv, if_neg (List.cons_ne_nil _ _)] at h
  have hlen := congrArg List.length h
  split at hlen
  · simp only [List.length_cons, List.length_nil] at hlen
    omega
  · simp only [List.length_cons] at hlen
    omega

end Requests

/-- What an address and a list of preferred addresses must be for test and tunnel to agree. -/
structure Agreeable (lookupPort : Text → Option Nat) (wssAddr prefIp : String) (args : StartArgs) :
    Prop where
  scheme : SameScheme wssAddr
  query : ∀ u, Uri.parse args.wsServer = some u →
    ∀ kv ∈ u.parameters, kv.1 ∈ Tunnel.ownParameters
  target : ∀ u scheme, Uri.parse args.wsServer = some u →
    Url.tunnelScheme ⟨u.scheme, u.host⟩ = some scheme →
    SameTarget lookupPort u scheme (ServerTester.firstEntry prefIp) (args.targetIPs.headD [])

section Agreement

variable {lookupPort : Text → Option Nat} {wssAddr prefIp : String} {args : StartArgs}
  {a b : Endpoint}

theorem disagree_other {rest : List Char} (hother : ¬ SameScheme wssAddr)
    (hhttp : ServerTester.httpUrl (ServerTester.urlStr wssAddr) = rest)
    (hargs : args.wsServer = encode (['w', 's', 's'] ++ ':' :: '/' :: '/' :: closePath rest))
    (ha : ServerTester.endpoint wssAddr prefIp = some a)
    (hb : Tunnel.endpoint lookupPort args = some b) :
    a = b ↔ Agreeable lookupPort wssAddr prefIp args := by
  obtain ⟨u, hu, rfl⟩ := ServerTester.endpoint_eq_some ha
  obtain ⟨v, scheme, target, hv, -, -, rfl⟩ := Tunnel.endpoint_eq_some hb
  rw [hhttp] at hu
  rw [hargs, encode_address] at hv
  constructor
  · intro h
    exact absurd (congrArg Endpoint.path h) (other_request (by decide) hu hv)
  · intro h
    exact absurd h.scheme hother

/-- The conditions on the address that the tunnel has parsed. -/
theorem agreeable_iff {v : Uri} {scheme : Scheme} (hv : Uri.parse args.wsServer = some v)
    (hscheme : Url.tunnelScheme ⟨v.scheme, v.host⟩ = some scheme) :
    Agreeable lookupPort wssAddr prefIp args ↔
      SameScheme wssAddr ∧ Tunnel.query v = [] ∧
        SameTarget lookupPort v scheme (ServerTester.firstEntry prefIp)
          (args.targetIPs.headD []) := by
  rw [Tunnel.query_eq_nil]
  constructor
  · intro h
    exact ⟨h.scheme, h.query v hv, h.target v scheme hv hscheme⟩
  · rintro ⟨hs, hq, ht⟩
    refine ⟨hs, ?_, ?_⟩
    · intro u hu
      rw [hv] at hu
      cases hu
      exact hq
    · intro u scheme' hu hscheme'
      rw [hv] at hu
      cases hu
      rw [hscheme] at hscheme'
      cases hscheme'
      exact ht

theorem Spelling.isPlain {scheme : Scheme} (h : Spelling scheme ['w', 's']) : scheme = .ws := by
  have hws : Url.tunnelScheme ⟨encode ['w', 's'], []⟩ = some .ws := by decide
  rw [h.tunnelScheme] at hws
  exact Option.some.inj hws

theorem agree_same {scheme : Scheme} {S rest : List Char} (hS : Spelling scheme S)
    (hsame : SameScheme wssAddr ↔ S = ['w', 's'] ∨ scheme = .wss)
    (hurl : ServerTester.urlStr wssAddr = S ++ ':' :: '/' :: '/' :: rest)
    (hargs : args.wsServer = encode (S ++ ':' :: '/' :: '/' :: closePath rest))
    (ha : ServerTester.endpoint wssAddr prefIp = some a)
    (hb : Tunnel.endpoint lookupPort args = some b) :
    a = b ↔ Agreeable lookupPort wssAddr prefIp args := by
  obtain ⟨u, hu, rfl⟩ := ServerTester.endpoint_eq_some ha
  obtain ⟨v, scheme', target, hv, hscheme, htarget, rfl⟩ := Tunnel.endpoint_eq_some hb
  have hparse := hv
  rw [hargs, encode_address] at hparse
  have hvh := Uri.parse_append hS.isScheme hparse
  have hvs : v.scheme = encode S := (Uri.hier_eq_some.mp hvh).1
  obtain rfl : scheme = scheme' := by
    rw [hvs, hS.tunnelScheme] at hscheme
    exact Option.some.inj hscheme
  rw [hurl, hS.httpUrl, encode_address] at hu
  have huh := Uri.parse_append (by cases scheme <;> decide) hu
  obtain ⟨hhost, hport, hpath⟩ := same_request huh hvh
  have hconnect : ∀ first, ServerTester.targetConnectHost u first =
      ServerTester.targetConnectHost v first := by
    intro first
    rw [ServerTester.targetConnectHost, ServerTester.targetConnectHost, hhost]
  have hports : ∀ tls, ServerTester.port tls u = ServerTester.port tls v := by
    intro tls
    rw [ServerTester.port, ServerTester.port, hport]
  rw [agreeable_iff hv hscheme, hurl, hS.isTls, Endpoint.mk.injEq]
  by_cases hs : SameScheme wssAddr
  · have htls : decide (S ≠ ['w', 's']) = decide (scheme = .wss) := by
      rcases hsame.mp hs with rfl | rfl
      · rw [hS.isPlain]
        rfl
      · have hne : S ≠ ['w', 's'] := by
          rintro rfl
          cases hS.isPlain
        simp [hne]
    rw [htls, hconnect, hports, ← Tunnel.sameTarget_iff hv htarget, hhost, hpath]
    constructor
    · rintro ⟨h1, h2, -, -, hq⟩
      exact ⟨hs, hq.symm, Prod.ext h1.symm h2.symm⟩
    · rintro ⟨-, hq, rfl⟩
      exact ⟨rfl, rfl, by simp, rfl, hq.symm⟩
  · have hne := mt hsame.mpr hs
    rw [not_or] at hne
    simp [hs, hne.1, hne.2]

/-- Test and tunnel of a node agree on its endpoint exactly if its address and its list of
preferred addresses are agreeable. -/
theorem same_endpoint_iff (lookupPort : Text → Option Nat) (r : SwitchRequest)
    (hr : r.rawWsAddr = some wssAddr)
    (ha : ServerTester.endpoint wssAddr r.prefIp = some a)
    (hb : Tunnel.endpoint lookupPort r.startArgs = some b) :
    a = b ↔ Agreeable lookupPort wssAddr r.prefIp r.startArgs := by
  have hargs : r.startArgs.wsServer = utf8 (normalizeWsAddr (some wssAddr)) := by
    rw [SwitchRequest.startArgs, hr]
  cases addresses wssAddr with
  | same hS hsame hurl htext => exact agree_same hS hsame hurl (hargs.trans htext) ha hb
  | other hother hhttp htext => exact disagree_other hother hhttp (hargs.trans htext) ha hb

/-- A request with an address, a list of preferred addresses and ECH off. -/
def nodeRequest (wssAddr prefIp : String) : SwitchRequest where
  socksAddr := "0.0.0.0:1080"
  rawWsAddr := some wssAddr
  wsConn := 1
  udpBlockPorts := ""
  echDns := ""
  echDomain := ""
  prefIp := prefIp
  token := ""
  disableEch := true
  ipsPref := ""
  insecure := false

/-- Its arguments, for an address that starts with `wss://` and has a path. -/
def nodeArgs (rest : List Char) (prefIp : String) : StartArgs where
  host := encode "0.0.0.0:1080".toList
  wsServer := encode (['w', 's', 's'] ++ ':' :: '/' :: '/' :: rest)
  n := 1
  udpBlockPortsStr := []
  dns := []
  ech := []
  ip := encode prefIp.toList
  tkn := []
  fb := true
  ipsPref := []
  insecureFlag := false

theorem startArgs_nodeRequest {rest : List Char}
    (h : (trim wssAddr).toList = ['w', 's', 's'] ++ ':' :: '/' :: '/' :: rest)
    (hrest : rest.contains '/' = true) :
    (nodeRequest wssAddr prefIp).startArgs = nodeArgs rest prefIp := by
  have hwss : Spelling .wss ['w', 's', 's'] := spelling_of_lower rfl
  have haddr : utf8 (normalizeWsAddr (some wssAddr)) =
      encode (['w', 's', 's'] ++ ':' :: '/' :: '/' :: rest) := by
    have hlower : "wss://".toList.isPrefixOf ((trim wssAddr).toList.map Char.toLower) = true := by
      rw [h]
      rfl
    have hs : utf8 (normalizeWsAddr (some wssAddr)) =
        encode (['w', 's', 's'] ++ ':' :: '/' :: '/' :: closePath rest) :=
      utf8_normalizeWsAddr hwss (by rw [withScheme, hlower]; exact h)
    rw [hs, closePath, if_pos hrest]
  simp only [SwitchRequest.startArgs, nodeRequest, nodeArgs, haddr]
  simp only [utf8, toUTF8_toList]
  rfl

/-- A list whose first entry is blank, and whose second one is the host of the address. -/
theorem same_endpoint_iff_blank : Agreeable (fun _ => none) "wss://a/x" " ,a"
    (nodeRequest "wss://a/x" " ,a").startArgs := by
  have ha : ServerTester.endpoint "wss://a/x" " ,a" =
      some ⟨[97], 443, some [97], [47, 120], []⟩ := by decide
  have hb : Tunnel.endpoint (fun _ => none) (nodeRequest "wss://a/x" " ,a").startArgs =
      some ⟨[97], 443, some [97], [47, 120], []⟩ := by
    have hargs : (nodeRequest "wss://a/x" " ,a").startArgs = nodeArgs "a/x".toList " ,a" :=
      startArgs_nodeRequest (by decide) (by decide)
    rw [hargs]
    decide
  exact (same_endpoint_iff _ (nodeRequest "wss://a/x" " ,a") rfl ha hb).mp rfl

/-- The tunnel sends the query of the address, and the test does not. -/
theorem endpoint_query_dropped : ¬ ∀ (lookupPort : Text → Option Nat) (r : SwitchRequest)
    (wssAddr : String) (a b : Endpoint), r.rawWsAddr = some wssAddr →
    ServerTester.endpoint wssAddr r.prefIp = some a →
    Tunnel.endpoint lookupPort r.startArgs = some b → a = b := by
  intro h
  have ha : ServerTester.endpoint "wss://a/x?k=v" "" =
      some ⟨[97], 443, some [97], [47, 120], []⟩ := by decide
  have hb : Tunnel.endpoint (fun _ => none) (nodeRequest "wss://a/x?k=v" "").startArgs =
      some ⟨[97], 443, some [97], [47, 120], [([107], [118])]⟩ := by
    have hargs : (nodeRequest "wss://a/x?k=v" "").startArgs = nodeArgs "a/x?k=v".toList "" :=
      startArgs_nodeRequest (by decide) (by decide)
    rw [hargs]
    decide
  have heq := h _ (nodeRequest "wss://a/x?k=v" "") _ _ _ rfl ha hb
  revert heq
  decide

end Agreement

end XTunnel.Service
