import XTunnel.Service.Settings

/-! `ECHPool`: its channels, `prepareECH`, and the dial goroutines up to each websocket dial. -/
namespace XTunnel.Service

open Net

structure ECHPool where
  wsServerAddr : Text
  connectionNum : Nat
  targetIPs : List Text
  clientID : Text
  cancelled : Bool

def newECHPool (addr : Text) (n : Nat) (ips : List Text) (clientID : Text) : ECHPool :=
  { wsServerAddr := addr, connectionNum := n, targetIPs := ips, clientID := clientID,
    cancelled := false }

namespace ECHPool

variable (p : ECHPool)

/-- The number of channels. -/
def total : Nat := if p.targetIPs = [] then p.connectionNum else p.targetIPs.length * p.connectionNum

/-- The address that `Start` gives to channel `i`. -/
def channelIP (i : Nat) : Text := p.targetIPs.getD (i / p.connectionNum) []

end ECHPool

/-- What the dials set in a `tls.Config`. -/
structure TLSConfig where
  serverName : Text
  echConfigList : Text
  rejectionVerify : Bool
  insecureSkipVerify : Bool
deriving DecidableEq

def buildStandardTLSConfig (g : Globals) (serverName : Text) : TLSConfig :=
  ⟨serverName, [], false, g.insecure⟩

def buildTLSConfigWithECH (serverName echList : Text) : TLSConfig :=
  ⟨serverName, echList, true, false⟩

/-- Where a run of `prepareECH` stands. -/
inductive FetchPc
  | asking
  | querying (dnsServer echDomain : Text)
  | storing (echDomain raw : Text)
  | returned

/-- The rounds of `prepareECH` up to the store: each reads the globals again. -/
inductive FetchStep (g : Globals) : FetchPc → FetchPc → Prop
  | ask : FetchStep g .asking (.querying g.dnsServer g.echDomain)
  | failed {dns domain : Text} : FetchStep g (.querying dns domain) .asking
  | found {dns domain raw : Text} :
      raw ≠ [] → FetchStep g (.querying dns domain) (.storing domain raw)

/-- Where a dial goroutine stands. `i` counts the attempts of `dialWebSocketWithECH`. -/
inductive DialPc
  | top
  | buildTLS (i : Nat)
  | standardTLS (i : Nat)
  | getECHList (i : Nat)
  | lockedList (i : Nat)
  | withECH (i : Nat) (echList : Text)
  | noTLS (i : Nat)
  | newDialer (i : Nat) (tls : Option TLSConfig)
  | subprotocol (i : Nat) (tls : Option TLSConfig)
  | dialing (i : Nat) (tls : Option TLSConfig) (subprotocols : List Text)
  | dialed (i : Nat) (scheme : Scheme)
  | refreshECH (i : Nat)
  | refreshLock (i : Nat)
  | refreshing (i : Nat) (fetch : FetchPc)
  | waiting
  | serving
  | returned

/-- The goroutine is inside `dialWebSocketWithECH`. -/
def DialPc.inDial : DialPc → Bool
  | .top | .waiting | .serving | .returned => false
  | _ => true

/-- `dialWebSocketWithECH` is called with three retries. -/
abbrev retries : Nat := 3

/-- Scheme and server name of the pool's address, as `dialWebSocketWithECH` finds them. -/
def endpoint (parse : Text → Option Url) (addr : Text) : Option (Scheme × Text) :=
  (parse addr).bind fun u => u.tunnelScheme.map fun scheme => (scheme, u.hostname)

/-- The steps of a dial goroutine that change nothing but its own place. -/
inductive DialStep (parse : Text → Option Url) (g : Globals) (p : ECHPool) :
    DialPc → DialPc → Prop
  | done : p.cancelled = true → DialStep parse g p .top .returned
  | badAddress :
      p.cancelled = false → endpoint parse p.wsServerAddr = none → DialStep parse g p .top .waiting
  | plain {serverName : Text} :
      p.cancelled = false → endpoint parse p.wsServerAddr = some (.ws, serverName) →
      DialStep parse g p .top (.newDialer retries none)
  | secure {serverName : Text} :
      p.cancelled = false → endpoint parse p.wsServerAddr = some (.wss, serverName) →
      DialStep parse g p .top (.buildTLS 1)
  | fallback {i : Nat} :
      g.fallback = true → DialStep parse g p (.buildTLS i) (.standardTLS i)
  | noFallback {i : Nat} :
      g.fallback = false → DialStep parse g p (.buildTLS i) (.getECHList i)
  | noRoots {i : Nat} : DialStep parse g p (.standardTLS i) (.noTLS i)
  | standard {i : Nat} {scheme : Scheme} {serverName : Text} :
      endpoint parse p.wsServerAddr = some (scheme, serverName) →
      DialStep parse g p (.standardTLS i)
        (.newDialer i (some (buildStandardTLSConfig g serverName)))
  | listFallback {i : Nat} :
      g.fallback = true → DialStep parse g p (.getECHList i) (.withECH i [])
  | listLock {i : Nat} :
      g.fallback = false → DialStep parse g p (.getECHList i) (.lockedList i)
  | listEmpty {i : Nat} :
      g.echList = [] → DialStep parse g p (.lockedList i) (.noTLS i)
  | listRead {i : Nat} :
      g.echList ≠ [] → DialStep parse g p (.lockedList i) (.withECH i g.echList)
  | noRootsECH {i : Nat} {echList : Text} :
      DialStep parse g p (.withECH i echList) (.noTLS i)
  | unified {i : Nat} {echList : Text} {scheme : Scheme} {serverName : Text} :
      endpoint parse p.wsServerAddr = some (scheme, serverName) →
      DialStep parse g p (.withECH i echList)
        (.newDialer i (some { buildTLSConfigWithECH serverName echList with
          insecureSkipVerify := g.insecure }))
  | retryTLS {i : Nat} : i < retries → DialStep parse g p (.noTLS i) (.refreshECH i)
  | giveUpTLS {i : Nat} : retries ≤ i → DialStep parse g p (.noTLS i) .waiting
  | noToken {i : Nat} {tls : Option TLSConfig} :
      g.token = [] → DialStep parse g p (.newDialer i tls) (.dialing i tls [])
  | token {i : Nat} {tls : Option TLSConfig} :
      g.token ≠ [] → DialStep parse g p (.newDialer i tls) (.subprotocol i tls)
  | subprotocol {i : Nat} {tls : Option TLSConfig} :
      DialStep parse g p (.subprotocol i tls) (.dialing i tls [g.token])
  | connected {i : Nat} {scheme : Scheme} : DialStep parse g p (.dialed i scheme) .serving
  | failed {i : Nat} {scheme : Scheme} : DialStep parse g p (.dialed i scheme) .waiting
  | rejected {i : Nat} :
      g.fallback = false → i < retries → DialStep parse g p (.dialed i .wss) (.refreshECH i)
  | refreshSkipped {i : Nat} :
      g.fallback = true → DialStep parse g p (.refreshECH i) (.buildTLS (i + 1))
  | refresh {i : Nat} :
      g.fallback = false → DialStep parse g p (.refreshECH i) (.refreshLock i)
  | fetch {i : Nat} {f f' : FetchPc} :
      FetchStep g f f' → DialStep parse g p (.refreshing i f) (.refreshing i f')
  | wait : DialStep parse g p .waiting .top
  | waitDone : p.cancelled = true → DialStep parse g p .waiting .returned
  | broken : DialStep parse g p .serving .waiting
  | served : p.cancelled = true → DialStep parse g p .serving .returned

end XTunnel.Service
