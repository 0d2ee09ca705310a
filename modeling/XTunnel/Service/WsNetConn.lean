import XTunnel.Transition
import XTunnel.Net.Text

/-! `wsNetConn.Read`: a stream of bytes out of a sequence of websocket messages. -/
namespace XTunnel.WsNetConn

open Net

inductive Err
  | eof
  | wrapped (text : Text) (inner : Err)
  | other (text : Text)
deriving DecidableEq

/-- `errors.Is(err, io.EOF)` -/
def Err.isEOF : Err → Bool
  | .eof => true
  | .wrapped _ inner => inner.isEOF
  | .other _ => false

structure Message where
  messageType : Nat
  payload : Text

/-- `websocket.BinaryMessage` -/
abbrev binaryMessage : Nat := 2

/-- `reader` holds what is left of its message, and `incoming` the messages that `NextReader` has
yet to open. `reported` is the history of its errors. -/
structure Conn where
  reader : Option Text
  incoming : List Message
  deadErr : Option Err
  reported : List Err

/-- `newWSNetConn` -/
def Conn.new (incoming : List Message) : Conn :=
  { reader := none, incoming := incoming, deadErr := none, reported := [] }

def Conn.signalDead (c : Conn) (err : Err) : Conn :=
  { c with deadErr := if c.deadErr = none then some err else c.deadErr }

/-- What `io.Reader` allows a reader with the bytes `rest` to return for a buffer of `len` bytes. -/
structure ReaderRead (len : Nat) (rest : Text) (n : Nat) (err : Option Err) : Prop where
  fits : n ≤ len
  has : n ≤ rest.length
  eof : ∀ e, err = some e → e.isEOF = true → n = rest.length

/-- One round of the loop, which either goes on or returns. -/
inductive LoopStep (len : Nat) : Conn → Option (Text × Option Err) → Conn → Prop
  | nextReaderErr {c : Conn} (err : Err) :
      c.reader = none →
      LoopStep len c (some ([], some err))
        ({ c with reported := c.reported ++ [err] }.signalDead err)
  | skip {c : Conn} {m : Message} {ms : List Message} :
      c.reader = none → c.incoming = m :: ms → m.messageType ≠ binaryMessage →
      LoopStep len c none { c with incoming := ms }
  -- the round goes on to the read
  | nextReader {c : Conn} {m : Message} {ms : List Message} :
      c.reader = none → c.incoming = m :: ms → m.messageType = binaryMessage →
      LoopStep len c none { c with incoming := ms, reader := some m.payload }
  | lastBytes {c : Conn} {rest : Text} {n : Nat} {err : Err} :
      c.reader = some rest → ReaderRead len rest n (some err) → err.isEOF = true → 0 < n →
      LoopStep len c (some (rest.take n, none)) { c with reader := none }
  | messageEnd {c : Conn} {rest : Text} {err : Err} :
      c.reader = some rest → ReaderRead len rest 0 (some err) → err.isEOF = true →
      LoopStep len c none { c with reader := none }
  | readErr {c : Conn} {rest : Text} {n : Nat} {err : Err} :
      c.reader = some rest → ReaderRead len rest n (some err) → err.isEOF = false →
      LoopStep len c (some (rest.take n, some err))
        ({ c with reader := some (rest.drop n) }.signalDead err)
  | data {c : Conn} {rest : Text} {n : Nat} :
      c.reader = some rest → ReaderRead len rest n none →
      LoopStep len c (some (rest.take n, none)) { c with reader := some (rest.drop n) }

/-- `Read` -/
inductive Read (len : Nat) : Conn → Text × Option Err → Conn → Prop
  | done {c c' : Conn} {r : Text × Option Err} : LoopStep len c (some r) c' → Read len c r c'
  | again {c c' c'' : Conn} {r : Text × Option Err} :
      LoopStep len c none c' → Read len c' r c'' → Read len c r c''

/-- A call with a buffer of `len` bytes, and what it returned. -/
structure ReadCall where
  len : Nat
  bytes : Text
  err : Option Err

inductive Step : Conn → ReadCall → Conn → Prop
  | read {c c' : Conn} {x : ReadCall} : Read x.len c (x.bytes, x.err) c' → Step c x c'

variable {c c' c₀ : Conn} {len : Nat} {r : Text × Option Err} {xs : List ReadCall} {x : ReadCall}
  {ms : List Message}

/-- The payloads of the binary messages, one after the other. -/
def payloads (ms : List Message) : Text :=
  ((ms.filter fun m => m.messageType = binaryMessage).map Message.payload).flatten

/-- The bytes that are still to be returned. -/
def Conn.pending (c : Conn) : Text := c.reader.getD [] ++ payloads c.incoming

end XTunnel.WsNetConn
