import XTunnel.Transition
import XTunnel.Socks5.Packet

/-! A UDP association: its datagram loop, its reply goroutine and the callers of `Close`. -/
namespace XTunnel.Udp

open Net Socks5

abbrev StreamId := Nat

/-- The text of a source address. -/
abbrev Addr := Text

/-- A tunnel stream: the target of its open header, and whether it was closed. -/
structure Stream where
  target : Text
  closed : Bool
deriving DecidableEq

/-- One call of `writeChunk`, with the datagram that it serves. -/
structure Write where
  stream : StreamId
  datagram : Text
  data : Text
deriving DecidableEq

/-- Where `loop`, or the `send` that it calls, stands. -/
inductive LoopPc
  | reading
  | locking (addr : Addr) (b : Text)
  | sending (b target data : Text)
  | opening (b target data : Text)
  | storing (b target data : Text) (s : StreamId) (id : Int)
  | updating (b target data : Text) (stream : Option StreamId)
  | writing (b target data : Text) (stream : Option StreamId)
  | closing
  | closeTail (stream : Option StreamId)
  | returned

/-- The association with its goroutines. `streams`, `received` and `writes` are histories. -/
structure State where
  closed : Bool
  receiving : Bool
  channelID : Int
  target : Text
  stream : Option StreamId
  clientUDPAddr : Option Addr
  udpListener : Bool
  tcpConn : Bool
  pc : LoopPc
  control : Bool
  replies : List StreamId
  closers : List (Option StreamId)
  streams : StreamId → Option Stream
  next : StreamId
  received : List (Addr × Text)
  writes : List Write

/-- What `handleSOCKS5UDP` sets up. -/
def initial : State :=
  { closed := false, receiving := false, channelID := -1, target := [], stream := none,
    clientUDPAddr := none, udpListener := true, tcpConn := true, pc := .reading, control := true,
    replies := [], closers := [], streams := fun _ => none, next := 0, received := [],
    writes := [] }

namespace State

def setPC (s : State) (pc : LoopPc) : State := { s with pc := pc }

/-- `stream.Close()`, if the stream is not nil. -/
def closeStream (s : State) (stream : Option StreamId) : StreamId → Option Stream := fun j =>
  if stream = some j then (s.streams j).map fun st => { st with closed := true } else s.streams j

/-- The rest of `Close`, after its critical section. -/
def closeRest (s : State) (stream : Option StreamId) : State :=
  { s with streams := s.closeStream stream, udpListener := false, tcpConn := false }

/-- The critical section of `Close` on an association that is not closed. -/
def closeEnter (s : State) : State := { s with closed := true, stream := none }

/-- A call of `Close` by a goroutine other than the loop: on a closed association it returns at
once, else it has its rest to do. -/
def callClose (s : State) : State :=
  { s with closed := true
           stream := if s.closed then s.stream else none
           closers := if s.closed then s.closers else s.stream :: s.closers }

/-- The datagram loop after its read: the section under the lock, then the filters. -/
def afterLock (cfg : Config) (s : State) (addr : Addr) (b : Text) : State :=
  let clientUDPAddr := s.clientUDPAddr.getD addr
  { s with clientUDPAddr := some clientUDPAddr
           pc := if clientUDPAddr = addr then
               match loopVerdict cfg b with
               | .send target data => .sending b target data
               | _ => .reading
             else .reading }

/-- The first section of `send` on an association that is not closed. -/
def sendEnter (s : State) (b target data : Text) : State :=
  let needStart := !s.receiving
  { s with receiving := true
           target := if needStart then target else s.target
           pc := if needStart then .opening b target data
             else .updating b target data s.stream }

/-- A new stream with its open header. -/
def addStream (s : State) (target : Text) (closed : Bool) : State :=
  { s with streams := fun j => if j = s.next then some ⟨target, closed⟩ else s.streams j
           next := s.next + 1 }

/-- The second section of `send`, which does not look at `closed`, and the start of the reader. -/
def store (s : State) (i : StreamId) (id : Int) : State :=
  { s with stream := some i, channelID := id, replies := i :: s.replies }

def updateTarget (s : State) (target : Text) : State :=
  { s with target := if target ≠ [] ∧ target ≠ s.target then target else s.target }

def addWrite (s : State) (i : StreamId) (b data : Text) : State :=
  { s with writes := ⟨i, b, data⟩ :: s.writes }

end State

inductive Action
  | receive (addr : Addr) (b : Text)
  | receiveError
  | lock
  | sendClosed
  | send
  | openOk
  | openFail
  | headerFail
  | store
  | update
  | writeNil
  | writeOk
  | writeFail
  | loopClosed
  | loopClose
  | loopCloseRest
  | controlEnd
  | replyFail
  | closeRest

/-- One step of one goroutine. Critical sections under `mu` are single steps. -/
inductive Step (cfg : Config) : State → Action → State → Prop
  | receive {s : State} (addr : Addr) (b : Text) :
      s.pc = .reading → s.udpListener = true →
      Step cfg s (.receive addr b)
        { s with pc := .locking addr b, received := s.received ++ [(addr, b)] }
  | receiveError {s : State} :
      s.pc = .reading → Step cfg s .receiveError (s.setPC .returned)
  | lock {s : State} {addr : Addr} {b : Text} :
      s.pc = .locking addr b → Step cfg s .lock (s.afterLock cfg addr b)
  | sendClosed {s : State} {b target data : Text} :
      s.pc = .sending b target data → s.closed = true →
      Step cfg s .sendClosed (s.setPC .reading)
  | send {s : State} {b target data : Text} :
      s.pc = .sending b target data → s.closed = false →
      Step cfg s .send (s.sendEnter b target data)
  | openOk {s : State} {b target data : Text} (id : Int) :
      s.pc = .opening b target data →
      Step cfg s .openOk
        ((s.addStream target false).setPC (.storing b target data s.next id))
  | openFail {s : State} {b target data : Text} :
      s.pc = .opening b target data → Step cfg s .openFail (s.setPC .closing)
  | headerFail {s : State} {b target data : Text} :
      s.pc = .opening b target data →
      Step cfg s .headerFail ((s.addStream target true).setPC .closing)
  | store {s : State} {b target data : Text} {i : StreamId} {id : Int} :
      s.pc = .storing b target data i id →
      Step cfg s .store ((s.store i id).setPC (.writing b target data (some i)))
  | update {s : State} {b target data : Text} {stream : Option StreamId} :
      s.pc = .updating b target data stream →
      Step cfg s .update ((s.updateTarget target).setPC (.writing b target data stream))
  | writeNil {s : State} {b target data : Text} :
      s.pc = .writing b target data none → Step cfg s .writeNil (s.setPC .closing)
  | writeOk {s : State} {b target data : Text} {i : StreamId} {st : Stream} :
      s.pc = .writing b target data (some i) → s.streams i = some st → st.closed = false →
      Step cfg s .writeOk ((s.addWrite i b data).setPC .reading)
  | writeFail {s : State} {b target data : Text} {i : StreamId} :
      s.pc = .writing b target data (some i) →
      Step cfg s .writeFail ((s.addWrite i b data).setPC .closing)
  | loopClosed {s : State} :
      s.pc = .closing → s.closed = true → Step cfg s .loopClosed (s.setPC .reading)
  | loopClose {s : State} :
      s.pc = .closing → s.closed = false →
      Step cfg s .loopClose (s.closeEnter.setPC (.closeTail s.stream))
  | loopCloseRest {s : State} {stream : Option StreamId} :
      s.pc = .closeTail stream →
      Step cfg s .loopCloseRest ((s.closeRest stream).setPC .reading)
  | controlEnd {s : State} :
      s.control = true → Step cfg s .controlEnd { s with control := false }.callClose
  | replyFail {s : State} {i : StreamId} :
      i ∈ s.replies →
      Step cfg s .replyFail { s with replies := s.replies.erase i }.callClose
  | closeRest {s : State} {stream : Option StreamId} :
      stream ∈ s.closers →
      Step cfg s .closeRest
        ({ s with closers := s.closers.erase stream }.closeRest stream)

/-- The states that an association can reach. -/
def ReachableState (cfg : Config) : State → Prop :=
  Reachable (fun s => s = initial) (Step cfg)

/-- After the lock the loop reads on, or sends a datagram of the client that passed the filters. -/
theorem afterLock_pc (cfg : Config) (s : State) (addr : Addr) (b : Text) :
    (s.afterLock cfg addr b).pc = .reading ∨
      ∃ target data, (s.afterLock cfg addr b).pc = .sending b target data ∧
        s.clientUDPAddr.getD addr = addr ∧ loopVerdict cfg b = .send target data := by
  simp only [State.afterLock]
  split
  · rename_i hc
    split
    · rename_i target data hv
      exact Or.inr ⟨target, data, rfl, hc, hv⟩
    · exact Or.inl rfl
  · exact Or.inl rfl

end XTunnel.Udp
