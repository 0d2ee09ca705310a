import XTunnel.Transition
import XTunnel.Service.Pool
import XTunnel.Socks5.Handshake
import XTunnel.Udp.Association

/-! The proxy service: `StartSocksProxy`, `StopSocksProxy` and the goroutines that they leave. -/
namespace XTunnel.Service

open Net Socks5

/-- The listener of a `StartSocksProxy` call. -/
inductive Listener
  | absent | bound | accepting | closed
deriving DecidableEq

/-- A `StartSocksProxy` call that made a pool, with the arguments it made it from. -/
structure Generation where
  args : StartArgs
  pool : ECHPool
  listener : Listener

structure Dialer where
  gen : GenId
  idx : Nat
  ip : Text
  pc : DialPc

/-- One websocket dial of a pool. -/
structure Dial where
  gen : GenId
  addr : Text
  ip : Text
  clientID : Text
  channelID : Nat
  scheme : Scheme
  subprotocols : List Text
  tlsClientConfig : Option TLSConfig
deriving DecidableEq

/-- Where the handler of a client connection stands. A pool is nil or of a generation. -/
inductive HandlerPc
  | handshake
  | connect (target : Text)
  | replied (target : Text)
  | opening (pool : GenId)
  | udpAssociate
  | associated (pool : Option GenId) (assoc : Udp.State)
  | relaying
  | returned

/-- `handleSOCKS5` on a connection that the listener of `gen` accepted. -/
structure Handler where
  gen : GenId
  pc : HandlerPc

inductive StreamKind
  | tcp | udp
deriving DecidableEq

/-- A call of `openTCPStream` or `openUDPStream` for a client that `gen` accepted. -/
structure StreamCall where
  gen : GenId
  pool : Option GenId
  kind : StreamKind
  target : Text
deriving DecidableEq

/-- Where the call that holds `serviceMu` stands. -/
inductive Call
  | configure (args : StartArgs) (scheme : Scheme) (setting : Setting)
  | prepareECH (args : StartArgs) (scheme : Scheme)
  | awaitECH (args : StartArgs)
  | newPool (args : StartArgs)
  | startPool (gen : GenId)
  | listen (gen : GenId)
  | closePool (gen : GenId)
  | abandon (gen : GenId)
  | publish (gen : GenId)
  | serve (gen : GenId)
  | stopClear (listener pool : Option GenId)
  | stopListener (listener pool : Option GenId)
  | stopPool (pool : Option GenId)

/-- The process. `dials` and `calls` are histories. -/
structure State where
  globals : Globals
  serviceMu : Option Call
  refreshMu : Bool
  generations : List Generation
  dialers : List Dialer
  fetchers : List FetchPc
  handlers : List Handler
  dials : List Dial
  calls : List StreamCall
  crashed : Bool

def initial : State :=
  { globals := .initial, serviceMu := none, refreshMu := false, generations := [], dialers := [],
    fetchers := [], handlers := [], dials := [], calls := [], crashed := false }

namespace State

def setCall (s : State) (c : Call) : State := { s with serviceMu := some c }

def unlock (s : State) : State := { s with serviceMu := none }

def setHandler (s : State) (k : Nat) (h : Handler) (pc : HandlerPc) : State :=
  { s with handlers := s.handlers.set k { h with pc := pc } }

def setDialer (s : State) (k : Nat) (d : Dialer) (pc : DialPc) : State :=
  { s with dialers := s.dialers.set k { d with pc := pc } }

/-- `prepareECH` stores a list that it fetched for `domain`. -/
def storeECH (s : State) (domain raw : Text) : State :=
  { s with globals := { s.globals with echList := raw, echDomainOf := some domain } }

/-- `echPool = NewECHPool(..)` with a fresh client id. -/
def addGeneration (s : State) (args : StartArgs) (uuid : Text) : State :=
  { s with
    globals := { s.globals with clientID := uuid, echPool := some s.generations.length }
    generations := s.generations ++
      [⟨args, newECHPool args.wsServer s.globals.connectionNum args.targetIPs uuid, .absent⟩] }

/-- `echPool.Start()` -/
def startPool (s : State) (gen : GenId) (p : ECHPool) : State :=
  { s with dialers := s.dialers ++
      (List.range p.total).map fun i => ⟨gen, i, p.channelIP i, .top⟩ }

def setListener (s : State) (gen : GenId) (l : Listener) : State :=
  { s with generations := s.generations.modify gen fun g => { g with listener := l } }

/-- `Close` of the pool, as far as it ends dials. -/
def cancelPool (s : State) (gen : GenId) : State :=
  { s with generations := s.generations.modify gen fun g =>
      { g with pool := { g.pool with cancelled := true } } }

/-- `l.Close()`, if the listener is not nil. -/
def closeListener (s : State) (l : Option GenId) : State :=
  match l with
  | none => s
  | some gen => s.setListener gen .closed

/-- `p.Close()`, if the pool is not nil. -/
def closePool (s : State) (p : Option GenId) : State :=
  match p with
  | none => s
  | some gen => s.cancelPool gen

def addHandler (s : State) (gen : GenId) : State :=
  { s with handlers := s.handlers ++ [⟨gen, .handshake⟩] }

def addDial (s : State) (x : Dial) : State := { s with dials := x :: s.dials }

/-- A call on a nil pool dereferences it, and no handler recovers. -/
def addCall (s : State) (c : StreamCall) : State :=
  { s with calls := c :: s.calls, crashed := s.crashed || c.pool.isNone }

end State

/-- The state of a handler after its handshake. -/
def HandlerPc.ofOutcome : Outcome → HandlerPc
  | .closed | .refused => .returned
  | .connect target _ => .connect target
  | .udpAssociate _ => .udpAssociate

/-- The association takes a step of `openUDPStream`. -/
def opensStream : Udp.Action → Bool
  | .openOk | .openFail | .headerFail => true
  | _ => false

/-- The part of the globals that the datagram loop reads. -/
def Globals.config (g : Globals) : Config := ⟨g.ipStrategy, g.udpBlockPorts⟩

/-- Labels. `k` is the place of a goroutine in its list. -/
inductive Action
  | start (args : StartArgs)
  | configure (args : StartArgs) (setting : Setting)
  | prepareECH
  | awaitECH
  | newPool
  | startPool
  | listen
  | listenFail
  | closePool
  | abandon
  | publish
  | serve
  | stop
  | stopClear
  | stopListener
  | stopPool
  | accept (gen : GenId)
  | handler (k : Nat)
  | openTCP (k : Nat)
  | openUDP (k : Nat)
  | dialer (k : Nat)
  | dial (k : Nat)
  | lockRefresh (k : Nat)
  | storeRefresh (k : Nat)
  | unlockRefresh (k : Nat)
  | fetcher (k : Nat)
  | storeFetched (k : Nat)

/-- The steps of a handler that call no method of a pool. -/
inductive HandlerStep (g : Globals) (cfgp : ProxyConfig) : HandlerPc → HandlerPc → Prop
  | handshake (input : Text) :
      HandlerStep g cfgp .handshake (.ofOutcome (handleSOCKS5 g.ipStrategy cfgp input).2)
  | reply {target : Text} : HandlerStep g cfgp (.connect target) (.replied target)
  | replyFail {target : Text} : HandlerStep g cfgp (.connect target) .returned
  | opened {pool : GenId} : HandlerStep g cfgp (.opening pool) .relaying
  | openFail {pool : GenId} : HandlerStep g cfgp (.opening pool) .returned
  | relayed : HandlerStep g cfgp .relaying .returned
  | noRelay : HandlerStep g cfgp .udpAssociate .returned
  | associate : HandlerStep g cfgp .udpAssociate (.associated g.echPool Udp.initial)
  | assoc {pool : Option GenId} {a a' : Udp.State} {act : Udp.Action} :
      Udp.Step g.config a act a' → opensStream act = false →
      HandlerStep g cfgp (.associated pool a) (.associated pool a')

/-- One step of the call that holds `serviceMu`, or the start of one. -/
inductive CallStep (parse : Text → Option Url) : State → Action → State → Prop
  | start {s : State} {args : StartArgs} {scheme : Scheme} :
      s.serviceMu = none → checkArgs parse args = .ok scheme →
      s.globals.proxyListener = none → s.globals.echPool = none →
      CallStep parse s (.start args) (s.setCall (.configure args scheme .connectionNum))
  | configure {s : State} {args : StartArgs} {scheme : Scheme} {setting : Setting} :
      s.serviceMu = some (.configure args scheme setting) →
      CallStep parse s (.configure args setting)
        { s with
          globals := setting.write args s.globals
          serviceMu := some (setting.next.elim (.prepareECH args scheme)
            (.configure args scheme)) }
  | skipECH {s : State} {args : StartArgs} {scheme : Scheme} :
      s.serviceMu = some (.prepareECH args scheme) →
      (scheme = .wss → s.globals.fallback = true) →
      CallStep parse s .prepareECH (s.setCall (.newPool args))
  | prepareECH {s : State} {args : StartArgs} :
      s.serviceMu = some (.prepareECH args .wss) → s.globals.fallback = false →
      CallStep parse s .prepareECH
        ({ s with fetchers := s.fetchers ++ [FetchPc.asking] }.setCall (.awaitECH args))
  -- `prepareECH` returned nil, or 15 seconds have passed
  | awaitECH {s : State} {args : StartArgs} :
      s.serviceMu = some (.awaitECH args) →
      CallStep parse s .awaitECH (s.setCall (.newPool args))
  | newPool {s : State} {args : StartArgs} (uuid : Text) :
      s.serviceMu = some (.newPool args) →
      CallStep parse s .newPool
        ((s.addGeneration args uuid).setCall (.startPool s.generations.length))
  | startPool {s : State} {gen : GenId} {g : Generation} :
      s.serviceMu = some (.startPool gen) → s.generations[gen]? = some g →
      CallStep parse s .startPool ((s.startPool gen g.pool).setCall (.listen gen))
  | listen {s : State} {gen : GenId} :
      s.serviceMu = some (.listen gen) →
      CallStep parse s .listen ((s.setListener gen .bound).setCall (.publish gen))
  | listenFail {s : State} {gen : GenId} :
      s.serviceMu = some (.listen gen) →
      CallStep parse s .listenFail (s.setCall (.closePool gen))
  | closePool {s : State} {gen : GenId} :
      s.serviceMu = some (.closePool gen) →
      CallStep parse s .closePool ((s.cancelPool gen).setCall (.abandon gen))
  | abandon {s : State} {gen : GenId} :
      s.serviceMu = some (.abandon gen) →
      CallStep parse s .abandon { s with globals := { s.globals with echPool := none } }.unlock
  | publish {s : State} {gen : GenId} :
      s.serviceMu = some (.publish gen) →
      CallStep parse s .publish
        ({ s with globals := { s.globals with proxyListener := some gen } }.setCall (.serve gen))
  | serve {s : State} {gen : GenId} :
      s.serviceMu = some (.serve gen) →
      CallStep parse s .serve (s.setListener gen .accepting).unlock
  | stop {s : State} :
      s.serviceMu = none →
      CallStep parse s .stop
        (s.setCall (.stopClear s.globals.proxyListener s.globals.echPool))
  | stopClear {s : State} {l p : Option GenId} :
      s.serviceMu = some (.stopClear l p) →
      CallStep parse s .stopClear
        ({ s with globals := { s.globals with proxyListener := none, echPool := none } }.setCall
          (.stopListener l p))
  | stopListener {s : State} {l p : Option GenId} :
      s.serviceMu = some (.stopListener l p) →
      CallStep parse s .stopListener ((s.closeListener l).setCall (.stopPool p))
  | stopPool {s : State} {p : Option GenId} :
      s.serviceMu = some (.stopPool p) →
      CallStep parse s .stopPool (s.closePool p).unlock

/-- One step of a goroutine that runs without `serviceMu`. -/
inductive GoStep (parse : Text → Option Url) : State → Action → State → Prop
  | accept {s : State} {gen : GenId} {g : Generation} :
      s.generations[gen]? = some g → g.listener = .accepting →
      GoStep parse s (.accept gen) (s.addHandler gen)
  | handler {s : State} {k : Nat} {h : Handler} {g : Generation} {pc : HandlerPc} :
      s.handlers[k]? = some h → s.generations[h.gen]? = some g →
      HandlerStep s.globals ⟨[], [], g.args.host⟩ h.pc pc →
      GoStep parse s (.handler k) (s.setHandler k h pc)
  | openTCP {s : State} {k : Nat} {h : Handler} {target : Text} :
      s.handlers[k]? = some h → h.pc = .replied target →
      GoStep parse s (.openTCP k)
        ((s.addCall ⟨h.gen, s.globals.echPool, .tcp, target⟩).setHandler k h
          (s.globals.echPool.elim .returned .opening))
  | openUDP {s : State} {k : Nat} {h : Handler} {pool : Option GenId} {a a' : Udp.State}
      {act : Udp.Action} {b target data : Text} :
      s.handlers[k]? = some h → h.pc = .associated pool a → a.pc = .opening b target data →
      Udp.Step s.globals.config a act a' → opensStream act = true →
      GoStep parse s (.openUDP k)
        ((s.addCall ⟨h.gen, pool, .udp, target⟩).setHandler k h (.associated pool a'))
  | dialer {s : State} {k : Nat} {d : Dialer} {g : Generation} {pc : DialPc} :
      s.dialers[k]? = some d → s.generations[d.gen]? = some g →
      DialStep parse s.globals g.pool d.pc pc →
      GoStep parse s (.dialer k) (s.setDialer k d pc)
  | dial {s : State} {k : Nat} {d : Dialer} {g : Generation} {i : Nat} {tls : Option TLSConfig}
      {subprotocols : List Text} {scheme : Scheme} {serverName : Text} :
      s.dialers[k]? = some d → s.generations[d.gen]? = some g →
      d.pc = .dialing i tls subprotocols →
      endpoint parse g.pool.wsServerAddr = some (scheme, serverName) →
      GoStep parse s (.dial k)
        ((s.addDial ⟨d.gen, g.pool.wsServerAddr, d.ip, g.pool.clientID, d.idx + 1, scheme,
          subprotocols, tls⟩).setDialer k d (.dialed i scheme))
  | lockRefresh {s : State} {k : Nat} {d : Dialer} {i : Nat} :
      s.dialers[k]? = some d → d.pc = .refreshLock i → s.refreshMu = false →
      GoStep parse s (.lockRefresh k)
        ({ s with refreshMu := true }.setDialer k d (.refreshing i .asking))
  | storeRefresh {s : State} {k : Nat} {d : Dialer} {i : Nat} {domain raw : Text} :
      s.dialers[k]? = some d → d.pc = .refreshing i (.storing domain raw) →
      GoStep parse s (.storeRefresh k)
        ((s.storeECH domain raw).setDialer k d (.refreshing i .returned))
  -- the attempt that follows comes after a sleep of one second
  | unlockRefresh {s : State} {k : Nat} {d : Dialer} {i : Nat} :
      s.dialers[k]? = some d → d.pc = .refreshing i .returned →
      GoStep parse s (.unlockRefresh k)
        ({ s with refreshMu := false }.setDialer k d (.buildTLS (i + 1)))
  | fetcher {s : State} {k : Nat} {f f' : FetchPc} :
      s.fetchers[k]? = some f → FetchStep s.globals f f' →
      GoStep parse s (.fetcher k) { s with fetchers := s.fetchers.set k f' }
  | storeFetched {s : State} {k : Nat} {domain raw : Text} :
      s.fetchers[k]? = some (.storing domain raw) →
      GoStep parse s (.storeFetched k)
        { s.storeECH domain raw with fetchers := s.fetchers.set k .returned }

/-- One step of the process, which ends with a crash. -/
inductive Step (parse : Text → Option Url) (s : State) (a : Action) (t : State) : Prop
  | call : s.crashed = false → CallStep parse s a t → Step parse s a t
  | go : s.crashed = false → GoStep parse s a t → Step parse s a t

/-- The states that the process can reach. -/
def ReachableState (parse : Text → Option Url) : State → Prop :=
  Reachable (fun s => s = initial) (Step parse)

end XTunnel.Service
