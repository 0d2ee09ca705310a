import XTunnel.Socks5.Packet

/-! The arguments of `StartSocksProxy`: its checks, and what it makes of them in the globals. -/
namespace XTunnel.Service

open Net Socks5

abbrev comma : UInt8 := 44
abbrev blank : UInt8 := 32

/-- The arguments of `StartSocksProxy`. -/
structure StartArgs where
  host : Text
  wsServer : Text
  n : Int
  udpBlockPortsStr : Text
  dns : Text
  ech : Text
  ip : Text
  tkn : Text
  fb : Bool
  ipsPref : Text
  insecureFlag : Bool
deriving DecidableEq

/-- Scheme and host name that `url.Parse` finds. -/
structure Url where
  scheme : Text
  hostname : Text

inductive Scheme
  | ws | wss
deriving DecidableEq

/-- `strings.ToLower` on a scheme, which is in ASCII. -/
def toLower (s : Text) : Text := s.map fun c => if 65 ≤ c.toNat ∧ c.toNat ≤ 90 then c + 32 else c

def Url.tunnelScheme (u : Url) : Option Scheme :=
  if toLower u.scheme = [119, 115, 115] then some .wss
  else if toLower u.scheme = [119, 115] then some .ws
  else none

/-- The errors that `StartSocksProxy` returns before it takes the lock. -/
inductive StartError
  | noServer
  | noHost
  | badAddress
  | badScheme (scheme : Text)
  | noHostname (wsServer : Text)
deriving DecidableEq

def checkArgs (parse : Text → Option Url) (args : StartArgs) : Except StartError Scheme :=
  if args.wsServer = [] then .error .noServer
  else if args.host = [] then .error .noHost
  else
    match parse args.wsServer with
    | none => .error .badAddress
    | some u =>
      match u.tunnelScheme with
      | none => .error (.badScheme (toLower u.scheme))
      | some scheme => if u.hostname = [] then .error (.noHostname args.wsServer) else .ok scheme

/-- The encoded blanks of `unicode.IsSpace`. -/
def spacePrefix : Text → Option Text
  | 10 :: s => some s
  | s => isSpace s

def trimLeft : Nat → Text → Text
  | 0, s => s
  | fuel + 1, s =>
    match spacePrefix s with
    | some s => trimLeft fuel s
    | none => s

/-- The text up to the longest end that is all blank. -/
def trimRight : Text → Text
  | [] => []
  | c :: s => if trimLeft (s.length + 1) (c :: s) = [] then [] else c :: trimRight s

/-- `strings.TrimSpace`. -/
def trimSpace (s : Text) : Text := trimRight (trimLeft s.length s)

def parseIPStrategy (s : Text) : IPStrategy :=
  match (trimSpace s).filter fun c => c ≠ blank with
  | [52] => .ipv4Only
  | [54] => .ipv6Only
  | [52, 44, 54] => .pv4Pv6
  | [54, 44, 52] => .pv6Pv4
  | _ => .default

namespace StartArgs

variable (args : StartArgs)

def connectionNum : Nat := if args.n ≤ 0 then 1 else args.n.toNat

def targetIPs : List Text :=
  if args.ip = [] then [] else ((args.ip.splitOn comma).map trimSpace).filter fun p => p ≠ []

def udpBlockPorts : BlockPorts :=
  if trimSpace args.udpBlockPortsStr = [] then .empty
  else .ofParts ((args.udpBlockPortsStr.splitOn comma).map trimSpace)

/-- The value that `fallback` has once it is forced by `insecure`. -/
def fallback : Bool := args.fb || args.insecureFlag

end StartArgs

/-- The index of a `StartSocksProxy` call that got as far as its pool. -/
abbrev GenId := Nat

/-- The process globals. `echDomainOf` is the domain that `echList` was fetched for. -/
structure Globals where
  token : Text
  connectionNum : Nat
  insecure : Bool
  dnsServer : Text
  echDomain : Text
  fallback : Bool
  echList : Text
  echDomainOf : Option Text
  clientID : Text
  udpBlockPorts : BlockPorts
  ipStrategy : IPStrategy
  proxyListener : Option GenId
  echPool : Option GenId

def Globals.initial : Globals :=
  { token := [], connectionNum := 0, insecure := false, dnsServer := [], echDomain := [],
    fallback := false, echList := [], echDomainOf := none, clientID := [], udpBlockPorts := .empty,
    ipStrategy := .default, proxyListener := none, echPool := none }

/-- The assignments of `StartSocksProxy` to globals, in order. -/
inductive Setting
  | connectionNum | dnsServer | defaultDnsServer | echDomain | defaultEchDomain
  | token | fallback | insecure | forceFallback | ipStrategy | udpBlockPorts
deriving DecidableEq

namespace Setting

/-- `https://doh.pub/dns-query` -/
def dohPub : Text :=
  [104, 116, 116, 112, 115, 58, 47, 47, 100, 111, 104, 46, 112, 117, 98, 47, 100, 110, 115, 45,
   113, 117, 101, 114, 121]

/-- `cloudflare-ech.com` -/
def cloudflareEch : Text :=
  [99, 108, 111, 117, 100, 102, 108, 97, 114, 101, 45, 101, 99, 104, 46, 99, 111, 109]

def write (args : StartArgs) (g : Globals) : Setting → Globals
  | connectionNum => { g with connectionNum := args.connectionNum }
  | dnsServer => { g with dnsServer := args.dns }
  | defaultDnsServer => { g with dnsServer := if g.dnsServer = [] then dohPub else g.dnsServer }
  | echDomain => { g with echDomain := args.ech }
  | defaultEchDomain =>
    { g with echDomain := if g.echDomain = [] then cloudflareEch else g.echDomain }
  | token => { g with token := args.tkn }
  | fallback => { g with fallback := args.fb }
  | insecure => { g with insecure := args.insecureFlag }
  | forceFallback => { g with fallback := if g.insecure && !g.fallback then true else g.fallback }
  | ipStrategy => { g with ipStrategy := parseIPStrategy args.ipsPref }
  | udpBlockPorts => { g with udpBlockPorts := args.udpBlockPorts }

def next : Setting → Option Setting
  | connectionNum => some dnsServer
  | dnsServer => some defaultDnsServer
  | defaultDnsServer => some echDomain
  | echDomain => some defaultEchDomain
  | defaultEchDomain => some token
  | token => some fallback
  | fallback => some insecure
  | insecure => some forceFallback
  | forceFallback => some ipStrategy
  | ipStrategy => some udpBlockPorts
  | udpBlockPorts => none

end Setting

end XTunnel.Service
