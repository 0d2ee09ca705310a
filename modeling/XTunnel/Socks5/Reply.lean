import XTunnel.Socks5.Handshake

/-! The reply to a request, beside what `handleSOCKS5` opens for it. -/
namespace XTunnel.Socks5.Reply

open Net

/-- The local address of a UDP socket. -/
structure UDPAddr where
  ip : IP
  port : Nat
  h : ip.length = 4 ∨ ip.length = 16

/-- What becomes of `ListenUDP` and of the type test on the local address. -/
inductive Listened
  | err
  | noAddr
  | opened (actual : UDPAddr)

/-- Which replies the client takes, and what can be opened. -/
structure Env where
  write : Text → Bool
  openTCPStream : Text → Bool
  listenUDP : Text → Listened

inductive Event
  | write (resp : Text) (err : Bool)
  | openTCPStream (target : Text) (err : Bool)
  | listenUDP (laddr : Text) (err : Bool)
  | relay
  | close

def Env.reply (env : Env) (resp : Text) : Event := .write resp !env.write resp

def connectReply : Text := [0x05, 0x00, 0x00, 0x01, 0, 0, 0, 0, 0, 0]

/-- The stream is opened behind the reply. -/
def handleSOCKS5Connect (env : Env) (target : Text) : List Event :=
  if env.write connectReply = false then [env.reply connectReply, .close]
  else if env.openTCPStream target = false then
    [env.reply connectReply, .openTCPStream target true, .close]
  else [env.reply connectReply, .openTCPStream target false, .relay, .close]

def udpReply (actual : UDPAddr) : Text :=
  let resp : Text := [0x05, 0x00, 0x00]
  let resp :=
    match to4 actual.ip with
    | some ip4 => resp ++ [0x01] ++ ip4
    | none => resp ++ [0x04] ++ actual.ip
  resp ++ [UInt8.ofNat (actual.port >>> 8), UInt8.ofNat actual.port]

/-- The address that the UDP socket is bound to: the host of the listener with port 0. -/
def udpAddress (cfgp : ProxyConfig) : Text :=
  joinHostPort (splitHostPortOrEmpty cfgp.host).1 (itoa 0)

def handleSOCKS5UDP (env : Env) (cfgp : ProxyConfig) : List Event :=
  match env.listenUDP (udpAddress cfgp) with
  | .err => [.listenUDP (udpAddress cfgp) true, .close]
  | .noAddr => [.listenUDP (udpAddress cfgp) false, .close]
  | .opened actual =>
    if env.write (udpReply actual) = false then
      [.listenUDP (udpAddress cfgp) false, env.reply (udpReply actual), .close]
    else [.listenUDP (udpAddress cfgp) false, env.reply (udpReply actual), .relay, .close]

/-- The end of `handleSOCKS5`. -/
def finish (env : Env) (cfgp : ProxyConfig) : Outcome → List Event
  | .closed | .refused => [.close]
  | .connect target _ => handleSOCKS5Connect env target
  | .udpAssociate _ => handleSOCKS5UDP env cfgp

/-- What is done behind the method negotiation. -/
def requestEvents (env : Env) (ipStrategy : IPStrategy) (cfgp : ProxyConfig) (s : Text) :
    List Event :=
  (handleRequest ipStrategy s).1.map env.reply ++ finish env cfgp (handleRequest ipStrategy s).2

def handleSOCKS5 (env : Env) (ipStrategy : IPStrategy) (cfgp : ProxyConfig) (s : Text) :
    List Event :=
  (Socks5.handleSOCKS5 ipStrategy cfgp s).1.map env.reply ++
    finish env cfgp (Socks5.handleSOCKS5 ipStrategy cfgp s).2

/-- A complete request. -/
def request (cmd rsv : UInt8) (a : Address) (hi lo : UInt8) : Text :=
  [0x05, cmd, rsv, a.atyp] ++ (a.field ++ [hi, lo])

namespace Event

/-- The reply that the client gets. -/
def written : Event → Option Text
  | write resp false => some resp
  | _ => none

/-- A stream or a socket is opened. -/
def opens : Event → Bool
  | openTCPStream _ err | listenUDP _ err => !err
  | _ => false

/-- The handler neither relays nor closes. -/
def prepares : Event → Bool
  | relay | close => false
  | _ => true

end Event

def replies (events : List Event) : List Text := events.filterMap Event.written

/-- `resp` is the one reply, and comes before the relaying and the closing. -/
structure Answers (cmd : UInt8) (opened : Bool) (events : List Event) (resp : Text) : Prop where
  once : replies events = [resp]
  early : replies (events.takeWhile Event.prepares) = [resp]
  status : resp[1]? = some 0 ↔ opened = true
  unsupported : cmd ≠ 0x01 → cmd ≠ 0x03 → resp[1]? ≠ some 0
  bound : ∃ (status : UInt8) (a : Address) (hi lo : UInt8),
    resp = [0x05, status, 0x00, a.atyp] ++ (a.field ++ [hi, lo])

/-- The status agrees with what is opened in all. -/
def Truthful (cmd : UInt8) (events : List Event) : Prop :=
  ∃ resp, Answers cmd (events.any Event.opens) events resp

/-- The status agrees with what is open when the reply is written. -/
def TruthfulAtOnce (cmd : UInt8) (events : List Event) : Prop :=
  ∃ resp, Answers cmd ((events.takeWhile fun e => e.written.isNone).any Event.opens) events resp

/-- What a CONNECT is for. -/
def targetOf (a : Address) (hi lo : UInt8) : Text := joinHostPort a.text (itoa (be16 hi lo))

def refuses (ipStrategy : IPStrategy) (a : Address) (hi lo : UInt8) : Bool :=
  strategyRefuses ipStrategy a.atyp (parseIP (splitHostPortOrEmpty (targetOf a hi lo)).1)

/-- The UDP socket is opened, and the client takes the reply. -/
def Associates (env : Env) (cfgp : ProxyConfig) : Prop :=
  ∃ actual, env.listenUDP (udpAddress cfgp) = .opened actual ∧ env.write (udpReply actual) = true

/-- A CONNECT that the strategy refuses, or a UDP ASSOCIATE whose socket is opened. -/
def SettledFirst (env : Env) (ipStrategy : IPStrategy) (cfgp : ProxyConfig) (cmd : UInt8)
    (a : Address) (hi lo : UInt8) : Prop :=
  (cmd = 0x01 ∧ refuses ipStrategy a hi lo = true ∧ env.write refusedReply = true) ∨
    (cmd = 0x03 ∧ Associates env cfgp)

/-- A CONNECT whose stream is opened. -/
def Connects (env : Env) (ipStrategy : IPStrategy) (cmd : UInt8) (a : Address) (hi lo : UInt8) :
    Prop :=
  cmd = 0x01 ∧ refuses ipStrategy a hi lo = false ∧ env.write connectReply = true ∧
    env.openTCPStream (targetOf a hi lo) = true

variable {env : Env} {ipStrategy : IPStrategy} {cfgp : ProxyConfig} {cmd rsv hi lo : UInt8}
  {a : Address} {s hello resp target : Text} {actual : UDPAddr} {opened : Bool}
  {events : List Event}

theorem handleRequest_request : handleRequest ipStrategy (request cmd rsv a hi lo ++ s) =
    if cmd = 0x01 ∧ refuses ipStrategy a hi lo = true then ([refusedReply], .refused)
    else if cmd = 0x01 then ([], .connect (targetOf a hi lo) s)
    else if cmd = 0x03 then ([], .udpAssociate s)
    else ([], .closed) := by
  have h4 : readFull 4 ([0x05, cmd, rsv, a.atyp] ++ (a.field ++ ([hi, lo] ++ s))) =
      ([0x05, cmd, rsv, a.atyp], a.field ++ ([hi, lo] ++ s), true) := readFull_append rfl
  have h2 : readFull 2 ([hi, lo] ++ s) = ([hi, lo], s, true) := readFull_append rfl
  simp only [handleRequest, request, List.append_assoc, h4, List.getD_cons_zero,
    List.getD_cons_succ, readAddr_field, h2]
  rfl

/-- A complete request is refused, connected, associated or closed. -/
theorem requestEvents_request : requestEvents env ipStrategy cfgp (request cmd rsv a hi lo ++ s) =
    if cmd = 0x01 ∧ refuses ipStrategy a hi lo = true then [env.reply refusedReply, .close]
    else if cmd = 0x01 then handleSOCKS5Connect env (targetOf a hi lo)
    else if cmd = 0x03 then handleSOCKS5UDP env cfgp
    else [.close] := by
  rw [requestEvents, handleRequest_request]
  split
  · rfl
  · split
    · rfl
    · split <;> rfl

/-- What is asked of a reply by itself. -/
structure Proper (cmd : UInt8) (resp : Text) : Prop where
  unsupported : cmd ≠ 0x01 → cmd ≠ 0x03 → resp[1]? ≠ some 0
  bound : ∃ (status : UInt8) (a : Address) (hi lo : UInt8),
    resp = [0x05, status, 0x00, a.atyp] ++ (a.field ++ [hi, lo])

theorem reply_taken (h : env.write resp = true) : env.reply resp = .write resp false := by
  rw [Env.reply, h]
  rfl

theorem reply_lost (h : env.write resp = false) : env.reply resp = .write resp true := by
  rw [Env.reply, h]
  rfl

theorem not_answers_of_nil (h : replies events = []) :
    ¬ ∃ resp, Answers cmd opened events resp := by
  rintro ⟨resp, ha⟩
  rw [ha.once] at h
  cases h

/-- With one reply, only its status is left to see to. -/
theorem answers_of_once (ho : replies events = [resp])
    (he : replies (events.takeWhile Event.prepares) = [resp]) (hp : Proper cmd resp) :
    (∃ resp, Answers cmd opened events resp) ↔ (resp[1]? = some 0 ↔ opened = true) := by
  constructor
  · rintro ⟨r, ha⟩
    obtain rfl : resp = r := List.singleton_inj.mp (ho.symm.trans ha.once)
    exact ha.status
  · intro hs
    exact ⟨resp, ho, he, hs, hp.unsupported, hp.bound⟩

theorem connectReply_proper : Proper 0x01 connectReply :=
  ⟨fun h => (h rfl).elim, 0, .ipv4 [0, 0, 0, 0] rfl, 0, 0, rfl⟩

theorem refusedReply_proper : Proper 0x01 refusedReply :=
  ⟨fun h => (h rfl).elim, 2, .ipv4 [0, 0, 0, 0] rfl, 0, 0, rfl⟩

/-- The reply has four address bytes or sixteen, as its type says. -/
theorem udpReply_proper : Proper 0x03 (udpReply actual) := by
  refine ⟨fun _ h => (h rfl).elim, ?_⟩
  cases hip : to4 actual.ip with
  | some ip4 =>
    have hlen : ip4.length = 4 := by
      rcases actual.h with h | h
      · rw [to4, if_pos h] at hip
        cases hip
        exact h
      · exact (to4_some_of_length h hip).2
    refine ⟨0, .ipv4 ip4 hlen, UInt8.ofNat (actual.port >>> 8), UInt8.ofNat actual.port, ?_⟩
    simp [udpReply, hip, Address.atyp, Address.field]
  | none =>
    have hlen : actual.ip.length = 16 := by
      rcases actual.h with h | h
      · rw [to4, if_pos h] at hip
        cases hip
      · exact h
    refine ⟨0, .ipv6 actual.ip hlen, UInt8.ofNat (actual.port >>> 8), UInt8.ofNat actual.port, ?_⟩
    simp [udpReply, hip, Address.atyp, Address.field]

theorem refused_answers (hopened : opened = false) :
    (∃ resp, Answers 0x01 opened [env.reply refusedReply, .close] resp) ↔
      env.write refusedReply = true := by
  cases hw : env.write refusedReply with
  | false =>
    rw [reply_lost hw]
    exact iff_of_false (not_answers_of_nil rfl) (by simp)
  | true =>
    rw [reply_taken hw]
    refine iff_of_true ((answers_of_once rfl rfl refusedReply_proper).mpr ?_) rfl
    simp [hopened, refusedReply]

theorem connect_answers : (∃ resp, Answers 0x01 opened (handleSOCKS5Connect env target) resp) ↔
    env.write connectReply = true ∧ opened = true := by
  unfold handleSOCKS5Connect
  cases hw : env.write connectReply with
  | false =>
    rw [reply_lost hw]
    exact iff_of_false (not_answers_of_nil rfl) (by simp)
  | true =>
    have hstatus : (connectReply[1]? = some 0 ↔ opened = true) ↔ true = true ∧ opened = true := by
      simp [connectReply]
    rw [reply_taken hw, ← hstatus]
    cases env.openTCPStream target with
    | false => exact answers_of_once rfl rfl connectReply_proper
    | true => exact answers_of_once rfl rfl connectReply_proper

theorem udp_answers : (∃ resp, Answers 0x03 opened (handleSOCKS5UDP env cfgp) resp) ↔
    Associates env cfgp ∧ opened = true := by
  unfold handleSOCKS5UDP
  cases hl : env.listenUDP (udpAddress cfgp) with
  | err | noAddr => exact iff_of_false (not_answers_of_nil rfl) (by simp [Associates, hl])
  | opened actual =>
    dsimp only
    cases hw : env.write (udpReply actual) with
    | false =>
      rw [reply_lost hw]
      exact iff_of_false (not_answers_of_nil rfl) (by simp [Associates, hl, hw])
    | true =>
      have hstatus : ((udpReply actual)[1]? = some 0 ↔ opened = true) ↔ opened = true := by
        unfold udpReply
        cases to4 actual.ip <;> simp
      have hassoc : Associates env cfgp := ⟨actual, hl, hw⟩
      rw [and_iff_right hassoc, ← hstatus, reply_taken hw]
      exact answers_of_once rfl rfl udpReply_proper

theorem refused_opens : [env.reply refusedReply, Event.close].any Event.opens = false ∧
    (([env.reply refusedReply, Event.close].takeWhile fun e => e.written.isNone).any
      Event.opens) = false := by
  cases hw : env.write refusedReply with
  | false =>
    rw [reply_lost hw]
    exact ⟨rfl, rfl⟩
  | true =>
    rw [reply_taken hw]
    exact ⟨rfl, rfl⟩

/-- A CONNECT has nothing open when its reply is written. -/
theorem connect_opens :
    (handleSOCKS5Connect env target).any Event.opens =
      (env.write connectReply && env.openTCPStream target) ∧
    (((handleSOCKS5Connect env target).takeWhile fun e => e.written.isNone).any Event.opens) =
      false := by
  unfold handleSOCKS5Connect
  cases hw : env.write connectReply with
  | false =>
    rw [reply_lost hw]
    exact ⟨rfl, rfl⟩
  | true =>
    rw [reply_taken hw]
    cases env.openTCPStream target with
    | false => exact ⟨rfl, rfl⟩
    | true => exact ⟨rfl, rfl⟩

/-- A UDP ASSOCIATE has its socket open by then. -/
theorem udp_opens (hl : env.listenUDP (udpAddress cfgp) = .opened actual)
    (hw : env.write (udpReply actual) = true) :
    (handleSOCKS5UDP env cfgp).any Event.opens = true ∧
    (((handleSOCKS5UDP env cfgp).takeWhile fun e => e.written.isNone).any Event.opens) = true := by
  unfold handleSOCKS5UDP
  rw [hl]
  dsimp only
  rw [reply_taken hw, hw]
  exact ⟨rfl, rfl⟩

theorem truthful_connect : Truthful 0x01 (handleSOCKS5Connect env target) ↔
    env.write connectReply = true ∧ env.openTCPStream target = true := by
  rw [Truthful, connect_answers, connect_opens.1, Bool.and_eq_true]
  constructor
  · rintro ⟨-, h⟩
    exact h
  · intro h
    exact ⟨h.1, h⟩

theorem not_truthfulAtOnce_connect :
    ¬ TruthfulAtOnce 0x01 (handleSOCKS5Connect env target) := by
  rw [TruthfulAtOnce, connect_answers, connect_opens.2]
  rintro ⟨-, h⟩
  cases h

theorem truthful_udp : Truthful 0x03 (handleSOCKS5UDP env cfgp) ↔ Associates env cfgp := by
  rw [Truthful, udp_answers]
  constructor
  · exact And.left
  · rintro ⟨actual, hl, hw⟩
    exact ⟨⟨actual, hl, hw⟩, (udp_opens hl hw).1⟩

theorem truthfulAtOnce_udp : TruthfulAtOnce 0x03 (handleSOCKS5UDP env cfgp) ↔
    Associates env cfgp := by
  rw [TruthfulAtOnce, udp_answers]
  constructor
  · exact And.left
  · rintro ⟨actual, hl, hw⟩
    exact ⟨⟨actual, hl, hw⟩, (udp_opens hl hw).2⟩

theorem truthful_request :
    Truthful cmd (requestEvents env ipStrategy cfgp (request cmd rsv a hi lo ++ s)) ↔
      SettledFirst env ipStrategy cfgp cmd a hi lo ∨ Connects env ipStrategy cmd a hi lo := by
  rw [requestEvents_request]
  by_cases hr : cmd = 0x01 ∧ refuses ipStrategy a hi lo = true
  · obtain ⟨rfl, hr⟩ := hr
    rw [if_pos ⟨rfl, hr⟩, Truthful, refused_answers refused_opens.1]
    simp [SettledFirst, Connects, hr]
  · rw [if_neg hr]
    by_cases hc : cmd = 0x01
    · subst hc
      rw [if_pos rfl, truthful_connect]
      have hallowed : refuses ipStrategy a hi lo = false := by simpa using hr
      simp [SettledFirst, Connects, hallowed]
    · rw [if_neg hc]
      by_cases hu : cmd = 0x03
      · subst hu
        rw [if_pos rfl, truthful_udp]
        simp [SettledFirst, Connects]
      · rw [if_neg hu]
        refine iff_of_false (not_answers_of_nil rfl) ?_
        simp [SettledFirst, Connects, hc, hu]

theorem truthfulAtOnce_request :
    TruthfulAtOnce cmd (requestEvents env ipStrategy cfgp (request cmd rsv a hi lo ++ s)) ↔
      SettledFirst env ipStrategy cfgp cmd a hi lo := by
  rw [requestEvents_request]
  by_cases hr : cmd = 0x01 ∧ refuses ipStrategy a hi lo = true
  · obtain ⟨rfl, hr⟩ := hr
    rw [if_pos ⟨rfl, hr⟩, TruthfulAtOnce, refused_answers refused_opens.2]
    simp [SettledFirst, hr]
  · rw [if_neg hr]
    by_cases hc : cmd = 0x01
    · subst hc
      have hallowed : refuses ipStrategy a hi lo = false := by simpa using hr
      rw [if_pos rfl]
      refine iff_of_false not_truthfulAtOnce_connect ?_
      simp [SettledFirst, hallowed]
    · rw [if_neg hc]
      by_cases hu : cmd = 0x03
      · subst hu
        rw [if_pos rfl, truthfulAtOnce_udp]
        simp [SettledFirst]
      · rw [if_neg hu]
        refine iff_of_false (not_answers_of_nil rfl) ?_
        simp [SettledFirst, hc, hu]

/-- The reply tells the truth when the strategy refuses, or when what is asked for is opened. The
reply to a CONNECT that is not refused is written before anything is opened. -/
theorem replies_truthful_iff (hg : Greets cfgp hello) : ∃ negotiation : List Text,
    handleSOCKS5 env ipStrategy cfgp (hello ++ (request cmd rsv a hi lo ++ s)) =
      negotiation.map env.reply ++
        requestEvents env ipStrategy cfgp (request cmd rsv a hi lo ++ s) ∧
    (Truthful cmd (requestEvents env ipStrategy cfgp (request cmd rsv a hi lo ++ s)) ↔
      SettledFirst env ipStrategy cfgp cmd a hi lo ∨ Connects env ipStrategy cmd a hi lo) ∧
    (TruthfulAtOnce cmd (requestEvents env ipStrategy cfgp (request cmd rsv a hi lo ++ s)) ↔
      SettledFirst env ipStrategy cfgp cmd a hi lo) := by
  obtain ⟨negotiation, hg⟩ := hg
  refine ⟨negotiation, ?_, truthful_request, truthfulAtOnce_request⟩
  rw [handleSOCKS5, hg, List.map_append, List.append_assoc]
  rfl

/-- A client that takes all replies, and nothing that can be opened. -/
def offline : Env := ⟨fun _ => true, fun _ => false, fun _ => .err⟩

/-- A CONNECT to 1.2.3.4, behind the offer of one method. -/
theorem replies_truthful_offline : ∃ negotiation : List Text,
    handleSOCKS5 offline .default ⟨[], [], []⟩
        ([0x05, 0x01, 0x00] ++ (request 0x01 0x00 (.ipv4 [1, 2, 3, 4] rfl) 0 80 ++ [])) =
      negotiation.map offline.reply ++ requestEvents offline .default ⟨[], [], []⟩
        (request 0x01 0x00 (.ipv4 [1, 2, 3, 4] rfl) 0 80 ++ []) ∧
    (Truthful 0x01 (requestEvents offline .default ⟨[], [], []⟩
        (request 0x01 0x00 (.ipv4 [1, 2, 3, 4] rfl) 0 80 ++ [])) ↔
      SettledFirst offline .default ⟨[], [], []⟩ 0x01 (.ipv4 [1, 2, 3, 4] rfl) 0 80 ∨
        Connects offline .default 0x01 (.ipv4 [1, 2, 3, 4] rfl) 0 80) ∧
    (TruthfulAtOnce 0x01 (requestEvents offline .default ⟨[], [], []⟩
        (request 0x01 0x00 (.ipv4 [1, 2, 3, 4] rfl) 0 80 ++ [])) ↔
      SettledFirst offline .default ⟨[], [], []⟩ 0x01 (.ipv4 [1, 2, 3, 4] rfl) 0 80) :=
  replies_truthful_iff (greets_open rfl (a := [0x00]) (by decide))

/-- Success is written for a stream that cannot be opened, and nothing for another command. -/
theorem replies_untruthful :
    ¬ Truthful 0x01 (requestEvents offline .default ⟨[], [], []⟩
      (request 0x01 0x00 (.ipv4 [1, 2, 3, 4] rfl) 0 80 ++ [])) ∧
    ¬ Truthful 0x02 (requestEvents offline .default ⟨[], [], []⟩
      (request 0x02 0x00 (.ipv4 [1, 2, 3, 4] rfl) 0 80 ++ [])) := by
  rw [truthful_request, truthful_request]
  constructor
  · rintro ((⟨-, hr, -⟩ | ⟨hc, -⟩) | ⟨-, -, -, ho⟩)
    · cases hr
    · cases hc
    · cases ho
  · rintro ((⟨hc, -⟩ | ⟨hc, -⟩) | ⟨hc, -⟩) <;> cases hc

end XTunnel.Socks5.Reply
