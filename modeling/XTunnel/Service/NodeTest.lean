import XTunnel.Service.HotSwitch
import XTunnel.Service.Pool
import XTunnel.Net.Uri
import XTunnel.Net.Utf8
import Mathlib.Data.List.DropRight
import Mathlib.Data.List.Sort

/-! `ServerTester.testProfile` and `dialWebSocketWithECH`: where the test of a node connects, and
where channel 1 of its tunnel does. -/
namespace XTunnel.Service

open Profiles Net

/-- What is connected to, the server name if the connection is TLS, and what is requested. The
parameters `client_id` and `channel_id` are left out of the query. -/
structure Endpoint where
  host : Text
  port : Nat
  tls : Option Text
  path : Text
  query : List (Text × Text)
deriving DecidableEq

/-- The path in the line of a request. -/
def requestPath (u : Uri) : Text := if u.path = [] then [slash] else u.path

namespace ServerTester

/-- `replaceFirst` of a scheme at the head in any case. -/
def replaceFirst (scheme new : String) (s : List Char) : List Char :=
  if scheme.toList.isPrefixOf (s.map Char.toLower) then new.toList ++ s.drop scheme.length else s

def urlStr (wssAddr : String) : List Char :=
  let s := (trim wssAddr).toList
  if (afterScheme s).isSome then s else "wss://".toList ++ s

def isTls (urlStr : List Char) : Bool :=
  !"ws://".toList.isPrefixOf urlStr && !"http://".toList.isPrefixOf urlStr

def httpUrl (urlStr : List Char) : List Char :=
  replaceFirst "ws://" "http://" (replaceFirst "wss://" "https://" urlStr)

/-- The protocols for which a `java.net.URL` is made. -/
def protocols : List Text := ["http", "https", "ftp", "file", "jar"].map fun s => encode s.toList

/-- A missing port is less than 1. -/
def port (isTls : Bool) (parsed : Uri) : Nat :=
  let port := ofDigits 10 (parsed.port.getD [])
  if port = 0 then if isTls then 443 else 80 else port

/-- The first entry of the list, trimmed; it is blank if there is none. -/
def firstEntry (prefIp : String) : Text :=
  match (prefIp.toList.splitOn ',').rdropWhile fun part => part = [] with
  | part :: _ => encode (trim (String.ofList part)).toList
  | [] => []

/-- The host that an `InetSocketAddress` looks up: the brackets come off a literal. -/
def lookupHost (host : Text) : Text :=
  if host.head? = some lbracket ∧ host.getLast? = some rbracket ∧ colon ∈ host then
    host.tail.dropLast
  else host

def targetConnectHost (parsed : Uri) (first : Text) : Text :=
  if first = [] then parsed.host else lookupHost first

/-- The endpoint of `testProfile`. The request has the path alone. -/
def endpoint (wssAddr prefIp : String) : Option Endpoint :=
  if wssAddr.isEmpty then none
  else
    let urlStr := urlStr wssAddr
    (Uri.parse (encode (httpUrl urlStr))).bind fun parsed =>
      if toLower parsed.scheme ∈ protocols ∧ port (isTls urlStr) parsed ≤ 65535 then
        some
          { host := targetConnectHost parsed (firstEntry prefIp)
            port := port (isTls urlStr) parsed
            tls := if isTls urlStr then some parsed.host else none
            path := requestPath parsed
            query := [] }
      else none

end ServerTester

namespace Tunnel

/-- `url.Parse`, as far as scheme and host name go. -/
def parseUrl (s : Text) : Option Url := (Uri.parse s).map fun u => ⟨u.scheme, u.host⟩

/-- The port of a scheme. -/
def schemePort : Scheme → Nat
  | .wss => 443
  | .ws => 80

/-- The address that a dialer asks for. -/
def hostPort (u : Uri) (scheme : Scheme) : Text :=
  joinHostPort u.host (u.port.getD (itoa (schemePort scheme)))

/-- The address that `NetDial` puts in its place. -/
def netDial (ip address : Text) : Text :=
  if ip = [] then address
  else
    let port := (splitHostPortOrEmpty address).2
    match splitHostPort ip with
    | some (host, p) => joinHostPort host p
    | none => joinHostPort ip port

/-- A port as `net.Dial` reads it. `lookupPort` has the names of services. -/
def portNumber (lookupPort : Text → Option Nat) (port : Text) : Option Nat :=
  if port.all isDigit then
    if ofDigits 10 port ≤ 65535 then some (ofDigits 10 port) else none
  else lookupPort port

def dialTarget (lookupPort : Text → Option Nat) (u : Uri) (scheme : Scheme) (ip : Text) :
    Option (Text × Nat) :=
  (splitHostPort (netDial ip (hostPort u scheme))).bind fun (host, port) =>
    (portNumber lookupPort port).map fun port => (host, port)

/-- `client_id` and `channel_id`. -/
def ownParameters : List Text := ["client_id", "channel_id"].map fun s => encode s.toList

/-- The query that is encoded: the parameters in the order of their keys. -/
def query (u : Uri) : List (Text × Text) :=
  (u.parameters.filter fun kv => kv.1 ∉ ownParameters).insertionSort fun a b => a.1 ≤ b.1

/-- The endpoint of `dialWebSocketWithECH`. Its dialer refuses user information. -/
def dialEndpoint (lookupPort : Text → Option Nat) (addr ip : Text) : Option Endpoint :=
  (Service.endpoint parseUrl addr).bind fun (scheme, serverName) =>
    (Uri.parse addr).bind fun u =>
      if u.userinfo = none then
        (dialTarget lookupPort u scheme ip).map fun target =>
          { host := target.1
            port := target.2
            tls := if scheme = .wss then some serverName else none
            path := requestPath u
            query := query u }
      else none

/-- The endpoint of channel 1 after `StartSocksProxy`. -/
def endpoint (lookupPort : Text → Option Nat) (args : StartArgs) : Option Endpoint :=
  match checkArgs parseUrl args with
  | .error _ => none
  | .ok _ =>
    let pool := newECHPool args.wsServer args.connectionNum args.targetIPs []
    dialEndpoint lookupPort pool.wsServerAddr (pool.channelIP 0)

end Tunnel

/-- The host of the address, or of an entry that comes in its place. -/
def namedHost (strip : Text → Text) (u : Uri) (entry : Text) : Text :=
  if entry = [] then u.host else strip entry

/-- The port of the address, or of its scheme if it has none. -/
def namedPort (u : Uri) (scheme : Scheme) : Nat :=
  let port := ofDigits 10 (u.port.getD [])
  if port = 0 then Tunnel.schemePort scheme else port

/-- `first` and `entry` are the entries that tester and tunnel take, and name the same host. An
entry with a port must have the port of the address; otherwise that must not be said to be 0. -/
def SameTarget (lookupPort : Text → Option Nat) (u : Uri) (scheme : Scheme) (first entry : Text) :
    Prop :=
  match splitHostPort entry with
  | some (host, own) =>
    host = namedHost ServerTester.lookupHost u first ∧
      Tunnel.portNumber lookupPort own = some (namedPort u scheme)
  | none =>
    namedHost unbracket u entry = namedHost ServerTester.lookupHost u first ∧
      ∀ d, u.port = some d → ofDigits 10 d ≠ 0

namespace Tunnel

variable {lookupPort : Text → Option Nat} {u : Uri} {scheme : Scheme} {ip s host port : Text}
  {n : Nat}

/-- The port that goes into the address of a dialer. -/
abbrev portText (u : Uri) (scheme : Scheme) : Text := u.port.getD (itoa (schemePort scheme))

theorem portText_digits (hu : Uri.parse s = some u) : (portText u scheme).all isDigit = true := by
  cases hp : u.port with
  | none =>
    rw [portText, hp, List.all_eq_true]
    exact itoa_isDigit
  | some d =>
    rw [portText, hp]
    exact (Uri.parse_spec hu).2.2 d hp

theorem split_hostPort (hu : Uri.parse s = some u) :
    splitHostPort (hostPort u scheme) = some (u.host, portText u scheme) := by
  obtain ⟨hl, hr, -⟩ := Uri.parse_spec hu
  exact splitHostPort_joinHostPort (plain_digits (portText_digits hu)) hl hr

/-- An entry with a port is dialled as it is. -/
theorem split_netDial_own {address : Text} (h : splitHostPort ip = some (host, port)) :
    splitHostPort (netDial ip address) = some (host, port) := by
  have hip : ip ≠ [] := by
    rintro rfl
    cases h
  obtain ⟨hp, hl, hr⟩ := splitHostPort_spec h
  rw [netDial, if_neg hip, h]
  exact splitHostPort_joinHostPort hp hl hr

/-- Any other entry is dialled at the port of the address. -/
theorem split_netDial (hu : Uri.parse s = some u) (hip : splitHostPort ip = none)
    (h : splitHostPort (netDial ip (hostPort u scheme)) = some (host, port)) :
    host = namedHost unbracket u ip ∧ port = portText u scheme := by
  have hsplit : splitHostPort (hostPort u scheme) = some (u.host, portText u scheme) :=
    split_hostPort hu
  by_cases he : ip = []
  · rw [netDial, if_pos he, hsplit] at h
    cases h
    exact ⟨(if_pos he).symm, rfl⟩
  · rw [netDial, if_neg he, hip] at h
    simp only [splitHostPortOrEmpty, hsplit, Option.getD_some] at h
    obtain ⟨hport, hhost⟩ := splitHostPort_joinHostPort_eq (plain_digits (portText_digits hu)) h
    refine ⟨?_, hport⟩
    rw [hhost, namedHost, if_neg he]

theorem port_eq : ServerTester.port (scheme = .wss) u = namedPort u scheme := by
  cases scheme <;> rfl

/-- The port of the dialer is that of the address, unless the address says port 0. -/
theorem portNumber_portText (hu : Uri.parse s = some u)
    (h : portNumber lookupPort (portText u scheme) = some n) :
    n = namedPort u scheme ↔ ∀ d, u.port = some d → ofDigits 10 d ≠ 0 := by
  rw [portNumber, if_pos (portText_digits hu)] at h
  split at h
  · cases h
    have hpos : schemePort scheme ≠ 0 := by cases scheme <;> decide
    cases hp : u.port with
    | none =>
      simp only [portText, hp, namedPort, Option.getD_none]
      rw [itoa, ofDigits_digits (by decide) (by decide)]
      simp [ofDigits]
    | some d =>
      simp only [portText, hp, namedPort, Option.getD_some, Option.some.injEq, forall_eq']
      split
      · rename_i h0
        rw [h0]
        simp [Ne.symm hpos]
      · rename_i h0
        simp [h0]
  · cases h

theorem sameTarget_iff {target : Text × Nat} {first : Text} (hu : Uri.parse s = some u)
    (h : dialTarget lookupPort u scheme ip = some target) :
    target = (ServerTester.targetConnectHost u first, ServerTester.port (scheme = .wss) u) ↔
      SameTarget lookupPort u scheme first ip := by
  rw [dialTarget, Option.bind_eq_some_iff] at h
  obtain ⟨⟨host, port⟩, hsplit, h⟩ := h
  obtain ⟨n, hn, rfl⟩ := Option.map_eq_some_iff.mp h
  rw [Prod.mk.injEq, SameTarget, port_eq]
  change host = namedHost ServerTester.lookupHost u first ∧ n = namedPort u scheme ↔ _
  cases hip : splitHostPort ip with
  | some own =>
    rw [split_netDial_own hip] at hsplit
    cases hsplit
    simp [hn]
  | none =>
    obtain ⟨rfl, rfl⟩ := split_netDial hu hip hsplit
    simp only [portNumber_portText hu hn]

/-- The endpoint in terms of the address of the pool and the head of its list. -/
theorem endpoint_eq_some {args : StartArgs} {b : Endpoint}
    (h : endpoint lookupPort args = some b) :
    ∃ v scheme target, Uri.parse args.wsServer = some v ∧
      Url.tunnelScheme ⟨v.scheme, v.host⟩ = some scheme ∧
      dialTarget lookupPort v scheme (args.targetIPs.headD []) = some target ∧
      b = ⟨target.1, target.2, if scheme = .wss then some v.host else none, requestPath v,
        query v⟩ := by
  rw [endpoint] at h
  split at h
  · cases h
  · have hip : (newECHPool args.wsServer args.connectionNum args.targetIPs []).channelIP 0 =
        args.targetIPs.headD [] := by
      rw [ECHPool.channelIP, Nat.zero_div]
      cases args.targetIPs <;> rfl
    simp only [hip, dialEndpoint, Option.bind_eq_some_iff] at h
    obtain ⟨⟨scheme, serverName⟩, hend, v, hv, h⟩ := h
    simp only [newECHPool] at hend hv
    simp only [Service.endpoint, parseUrl, hv, Option.map_some, Option.bind_some,
      Option.map_eq_some_iff, Prod.mk.injEq] at hend
    obtain ⟨_, hscheme, rfl, rfl⟩ := hend
    split at h
    · obtain ⟨target, htarget, rfl⟩ := Option.map_eq_some_iff.mp h
      exact ⟨v, _, target, hv, hscheme, htarget, rfl⟩
    · cases h

theorem query_eq_nil : query u = [] ↔ ∀ kv ∈ u.parameters, kv.1 ∈ ownParameters := by
  rw [query, ← List.length_eq_zero_iff, List.length_insertionSort, List.length_eq_zero_iff,
    List.filter_eq_nil_iff]
  simp

end Tunnel

theorem ServerTester.endpoint_eq_some {wssAddr prefIp : String} {a : Endpoint}
    (h : ServerTester.endpoint wssAddr prefIp = some a) :
    ∃ u, Uri.parse (encode (httpUrl (urlStr wssAddr))) = some u ∧
      a = ⟨targetConnectHost u (firstEntry prefIp), port (isTls (urlStr wssAddr)) u,
        if isTls (urlStr wssAddr) then some u.host else none, requestPath u, []⟩ := by
  rw [endpoint] at h
  split at h
  · cases h
  · obtain ⟨u, hu, h⟩ := Option.bind_eq_some_iff.mp h
    split at h
    · cases h
      exact ⟨u, hu, rfl⟩
    · cases h

end XTunnel.Service
