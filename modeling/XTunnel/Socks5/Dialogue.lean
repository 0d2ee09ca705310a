import XTunnel.Duplex
import XTunnel.Socks5.Pipeline
import XTunnel.Socks5.Reply

/-! The handshake of the hev client with `handleSOCKS5` at the other end of its connection, in any
interleaving. -/
namespace XTunnel.Socks5.Dialogue

open Net Prog Duplex Reply

section

variable (self : HevSocks5Client) (set_upstream_addr : Text → Int)

/-- A client ends with its upstream address, or with `none` for the result `-1`, and closes. -/
abbrev Client := Prog UInt8 (Option Text)

/-- `hev_task_io_socket_recv` with `MSG_WAITALL`. -/
def recvAll (n : Nat) (next : Text → Client) : Client :=
  .read n fun b ok => if ok then next b else .close none

def write_auth_methods (next : Client) : Client := .write [0x05, 1, self.method] next

def write_auth_creds (next : Client) : Client :=
  match self.user, self.pass with
  | some user, some pass =>
    let ul := UInt8.ofNat user.length
    let pl := UInt8.ofNat pass.length
    .write ([0x01, ul] ++ user.take ul.toNat ++ [pl] ++ pass.take pl.toNat) next
  | _, _ => next

def write_request (next : Client) : Client :=
  match hev_socks5_client_write_request self.type self.addr with
  | some req => .write req next
  | none => .close none

def read_auth_method (next : UInt8 → Client) : Client :=
  recvAll 2 fun auth => if auth.getD 0 0 ≠ 0x05 then .close none else next (auth.getD 1 0)

def read_auth_creds (next : Client) : Client :=
  recvAll 2 fun res =>
    if res.getD 0 0 ≠ 0x01 then .close none
    else if res.getD 1 0 ≠ 0x00 then .close none
    else next

def read_response : Client :=
  recvAll 4 fun res =>
    if res.getD 0 0 ≠ 0x05 then .close none
    else if res.getD 1 0 ≠ 0x00 then .close none
    else
      match responseAddrLen (res.getD 3 0) with
      | none => .close none
      | some addrlen =>
        recvAll addrlen fun addr =>
          let addr := res.getD 3 0 :: addr
          if set_upstream_addr addr < 0 then .close none else .done (some addr)

def handshake_standard : Client :=
  write_auth_methods self <| read_auth_method fun method =>
    if method = 0x02 then
      write_auth_creds self <| read_auth_creds <| write_request self <| read_response set_upstream_addr
    else if method ≠ 0x00 then .close none
    else write_request self <| read_response set_upstream_addr

/-- The part of `handshake_pipeline` behind its writes. -/
def auth_pipeline : Client :=
  read_auth_method fun method =>
    if method = 0x02 then read_auth_creds <| read_response set_upstream_addr
    else if method ≠ 0x00 then .close none
    else read_response set_upstream_addr

def handshake_pipeline : Client :=
  write_auth_methods self <| write_auth_creds self <| write_request self <| auth_pipeline set_upstream_addr

def handshake (pipeline : Bool) : Client :=
  if pipeline then handshake_pipeline self set_upstream_addr
  else handshake_standard self set_upstream_addr

end

/-- What a connection is served with. -/
inductive Served
  | nothing
  | connect (target : Text)
  | udpAssociate (actual : UDPAddr)

abbrev Server := Prog UInt8 Served

/-- `io.ReadFull` into zero bytes. -/
def readInto (n : Nat) (next : Text → Bool → Server) : Server :=
  .read n fun b ok => next (b ++ List.replicate (n - b.length) 0) ok

def handleSOCKS5Connect (target : Text) : Server := .write connectReply (.done (.connect target))

def handleSOCKS5UDP : Listened → Server
  | .opened actual => .write (udpReply actual) (.done (.udpAssociate actual))
  | .err | .noAddr => .close .nothing

/-- The address of a request. -/
def readTarget (atyp : UInt8) (next : Text → Server) : Server :=
  match atyp with
  | 0x01 => readInto 4 fun b _ => next (ipString b)
  | 0x03 => readInto 1 fun b _ => readInto (b.getD 0 0).toNat fun addr _ => next addr
  | 0x04 => readInto 16 fun b _ => next (ipString b)
  | _ => next []

section

variable (ipStrategy : IPStrategy) (cfgp : ProxyConfig) (listen : Listened)

/-- The part of `handleSOCKS5` after the method negotiation. -/
def handleRequest : Server :=
  readInto 4 fun head ok =>
    if !ok then .close .nothing
    else readTarget (head.getD 3 0) fun addr => readInto 2 fun pb _ =>
      let port := be16 (pb.getD 0 0) (pb.getD 1 0)
      let target := joinHostPort addr (itoa port)
      let ip := parseIP (splitHostPortOrEmpty target).1
      if head.getD 1 0 = 0x01 ∧ strategyRefuses ipStrategy (head.getD 3 0) ip = true then
        .write refusedReply (.close .nothing)
      else if head.getD 1 0 = 0x01 then handleSOCKS5Connect target
      else if head.getD 1 0 = 0x03 then handleSOCKS5UDP listen
      else .close .nothing

def handleSOCKS5UserPassAuth (next : Server) : Server :=
  readInto 2 fun b _ => readInto (b.getD 1 0).toNat fun u _ => readInto 1 fun l ok =>
    -- a failed read of the password length leaves the first byte of `b` in its place
    readInto (if ok then l.getD 0 0 else b.getD 0 0).toNat fun p _ =>
      if u = cfgp.username ∧ p = cfgp.password then .write [0x01, 0x00] next
      else .write [0x01, 0x01] (.close .nothing)

def handleSOCKS5 : Server :=
  readInto 2 fun buf ok =>
    if !ok || buf.getD 0 0 != 0x05 then .close .nothing
    else readInto (buf.getD 1 0).toNat fun _ _ =>
      if cfgp.username ≠ [] then
        .write [0x05, 0x02] (handleSOCKS5UserPassAuth cfgp (handleRequest ipStrategy listen))
      else .write [0x05, 0x00] (handleRequest ipStrategy listen)

/-- The end of a connection whose handshake has the outcome: the last reply and what is served. -/
def conclude : Outcome → List Text × Served
  | .closed | .refused => ([], .nothing)
  | .connect target _ => ([connectReply], .connect target)
  | .udpAssociate _ =>
    match listen with
    | .opened actual => ([udpReply actual], .udpAssociate actual)
    | .err | .noAddr => ([], .nothing)

variable {ipStrategy cfgp listen} {s b rest : Text} {n : Nat}

theorem eval_readInto (n : Nat) (next : Text → Bool → Server) (s : Text) :
    (readInto n next).eval s = (next (readFull n s).1 (readFull n s).2.2).eval (readFull n s).2.1 := by
  rw [readInto, Prog.eval, readFull]
  by_cases h : n ≤ s.length
  · rw [if_pos h]
    simp [h]
  · rw [if_neg h, List.take_of_length_le (Nat.le_of_not_le h), List.drop_of_length_le (Nat.le_of_not_le h)]
    simp [h]

theorem eval_readTarget (atyp : UInt8) (next : Text → Server) (s : Text) :
    (readTarget atyp next).eval s = (next (readAddr atyp s).1).eval (readAddr atyp s).2 := by
  by_cases h1 : atyp = 0x01
  · subst h1
    exact eval_readInto 4 (fun b _ => next (ipString b)) s
  by_cases h3 : atyp = 0x03
  · subst h3
    show (readInto 1 fun b _ => readInto (b.getD 0 0).toNat fun addr _ => next addr).eval s = _
    rw [eval_readInto, eval_readInto]
    rfl
  by_cases h4 : atyp = 0x04
  · subst h4
    exact eval_readInto 16 (fun b _ => next (ipString b)) s
  have hprog : readTarget atyp next = next [] := by
    unfold readTarget
    split
    · exact absurd rfl h1
    · exact absurd rfl h3
    · exact absurd rfl h4
    · rfl
  have haddr : readAddr atyp s = ([], s) := by
    unfold readAddr
    split
    · exact absurd rfl h1
    · exact absurd rfl h3
    · exact absurd rfl h4
    · rfl
  rw [hprog, haddr]

/-- The program of the server is the handler of its whole stream. -/
theorem eval_handleRequest (ipStrategy : IPStrategy) (listen : Listened) (s : Text) :
    ((handleRequest ipStrategy listen).eval s).1 =
      (Socks5.handleRequest ipStrategy s).1 ++ (conclude listen (Socks5.handleRequest ipStrategy s).2).1 ∧
    ((handleRequest ipStrategy listen).eval s).2.1 =
      (conclude listen (Socks5.handleRequest ipStrategy s).2).2 := by
  rw [handleRequest, eval_readInto, Socks5.handleRequest]
  cases hr : readFull 4 s with
  | mk head r =>
    obtain ⟨s', ok⟩ := r
    cases ok with
    | false => exact ⟨rfl, rfl⟩
    | true =>
      simp only [Bool.not_true, Bool.false_eq_true, if_false, eval_readTarget, eval_readInto]
      split
      · exact ⟨rfl, rfl⟩
      · split
        · exact ⟨rfl, rfl⟩
        · split
          · cases listen with
            | opened => exact ⟨rfl, rfl⟩
            | err => exact ⟨rfl, rfl⟩
            | noAddr => exact ⟨rfl, rfl⟩
          · exact ⟨rfl, rfl⟩

theorem eval_handleSOCKS5UserPassAuth (next : Server) (s : Text) :
    (handleSOCKS5UserPassAuth cfgp next).eval s =
      if (Socks5.handleSOCKS5UserPassAuth cfgp s).2.2 then
        let r := Socks5.handleSOCKS5UserPassAuth cfgp s
        (r.1 :: (next.eval r.2.1).1, (next.eval r.2.1).2)
      else ([[0x01, 0x01]], .nothing, (Socks5.handleSOCKS5UserPassAuth cfgp s).2.1) := by
  rw [handleSOCKS5UserPassAuth, eval_readInto, eval_readInto, eval_readInto, eval_readInto]
  rw [Socks5.handleSOCKS5UserPassAuth]
  obtain ⟨b, s₁, ok₁, h₁⟩ : ∃ b s₁ ok₁, readFull 2 s = (b, s₁, ok₁) := ⟨_, _, _, rfl⟩
  obtain ⟨u, s₂, ok₂, h₂⟩ : ∃ u s₂ ok₂, readFull (b.getD 1 0).toNat s₁ = (u, s₂, ok₂) :=
    ⟨_, _, _, rfl⟩
  have hl : (if (readFull 1 s₂).2.2 then (readFull 1 s₂).1.getD 0 0 else b.getD 0 0) =
      s₂.getD 0 (b.getD 0 0) := by
    cases s₂ <;> simp [readFull]
  have hd : (readFull 1 s₂).2.1 = s₂.drop 1 := rfl
  simp only [h₁, h₂, hl, hd]
  split
  · rfl
  · rfl

/-- The program of the server is the handler of its whole stream. -/
theorem eval_handleSOCKS5 : ((handleSOCKS5 ipStrategy cfgp listen).eval s).1 =
      (Socks5.handleSOCKS5 ipStrategy cfgp s).1 ++
        (conclude listen (Socks5.handleSOCKS5 ipStrategy cfgp s).2).1 ∧
    ((handleSOCKS5 ipStrategy cfgp listen).eval s).2.1 =
      (conclude listen (Socks5.handleSOCKS5 ipStrategy cfgp s).2).2 := by
  rw [handleSOCKS5, eval_readInto, Socks5.handleSOCKS5]
  obtain ⟨buf, s₁, ok₁, h₁⟩ : ∃ b s₁ ok₁, readFull 2 s = (b, s₁, ok₁) := ⟨_, _, _, rfl⟩
  obtain ⟨methods, s₂, ok₂, h₂⟩ : ∃ u s₂ ok₂, readFull (buf.getD 1 0).toNat s₁ = (u, s₂, ok₂) :=
    ⟨_, _, _, rfl⟩
  simp only [h₁, h₂]
  split
  · exact ⟨rfl, rfl⟩
  rw [eval_readInto, h₂]
  by_cases hu : cfgp.username ≠ []
  · rw [if_pos hu, if_pos hu, Prog.eval, eval_handleSOCKS5UserPassAuth]
    obtain ⟨reply, s₃, ok₃, h₃⟩ : ∃ reply s₃ ok₃,
        Socks5.handleSOCKS5UserPassAuth cfgp s₂ = (reply, s₃, ok₃) := ⟨_, _, _, rfl⟩
    simp only [h₃]
    cases ok₃ with
    | true =>
      have hreq := eval_handleRequest ipStrategy listen s₃
      simp only [if_true, List.cons_append]
      rw [hreq.1, hreq.2]
      exact ⟨rfl, rfl⟩
    | false =>
      have hreply : reply = [0x01, 0x01] := by
        rw [Socks5.handleSOCKS5UserPassAuth] at h₃
        simp only at h₃
        split at h₃ <;> cases h₃
        rfl
      subst hreply
      exact ⟨rfl, rfl⟩
  · rw [if_neg hu, if_neg hu, Prog.eval]
    have hreq := eval_handleRequest ipStrategy listen s₂
    simp only [List.cons_append]
    rw [hreq.1, hreq.2]
    exact ⟨rfl, rfl⟩

end

section

variable {self : HevSocks5Client} {set_upstream_addr : Text → Int} {sent input : Text}

/-- A network that takes every message as a whole. -/
def reliable : Network := fun _ msg => (msg.length, msg.length)

/-- What a client's program comes to on an input that ends, as the handshake states it. -/
def result (sent : Text) (r : List Text × Option Text × Text) : Option Handshake :=
  r.2.1.map fun upstream => ⟨sent ++ r.1.flatten, r.2.2, upstream⟩

theorem send_reliable {msg : Text} (h : msg ≠ []) : send reliable sent msg = some (sent ++ msg) := by
  simp [send, reliable, h]

theorem bind_recv {n : Nat} {next : Text → Client} {f : Text × Text → Option Handshake}
    (h : ∀ b rest, f (b, rest) = result sent ((next b).eval rest)) :
    (recv n input).bind f = result sent ((recvAll n next).eval input) := by
  rw [recvAll, Prog.eval, recv]
  by_cases hn : n ≤ input.length
  · rw [if_pos hn, if_neg (Nat.not_lt.mpr hn)]
    exact h _ _
  · rw [if_neg hn, if_pos (Nat.lt_of_not_le hn)]
    rfl

theorem bind_write {next : Client} {msg : Text} {f : Text → Option Handshake} (hne : msg ≠ [])
    (h : f (sent ++ msg) = result (sent ++ msg) (next.eval input)) :
    (send reliable sent msg).bind f = result sent ((Prog.write msg next).eval input) := by
  rw [send_reliable hne, Option.bind_some, h]
  simp [result, Prog.eval, List.append_assoc]

theorem bind_write_auth_methods {next : Client} {f : Text → Option Handshake}
    (h : ∀ sent, f sent = result sent (next.eval input)) :
    (self.write_auth_methods reliable sent).bind f = result sent ((write_auth_methods self next).eval input) :=
  bind_write (List.cons_ne_nil _ _) (h _)

theorem bind_write_auth_creds {next : Client} {f : Text → Option Handshake}
    (h : ∀ sent, f sent = result sent (next.eval input)) :
    (self.write_auth_creds reliable sent).bind f = result sent ((write_auth_creds self next).eval input) := by
  rw [HevSocks5Client.write_auth_creds, write_auth_creds]
  cases self.user with
  | none => exact h _
  | some user =>
    cases self.pass with
    | none => exact h _
    | some pass => exact bind_write (by simp) (h _)

theorem bind_write_request {next : Client} {f : Text → Option Handshake}
    (h : ∀ sent, f sent = result sent (next.eval input)) :
    (self.write_request reliable sent).bind f = result sent ((write_request self next).eval input) := by
  rw [HevSocks5Client.write_request, write_request]
  cases hreq : hev_socks5_client_write_request self.type self.addr with
  | none => rfl
  | some req =>
    have hne : req ≠ [] := by
      rintro rfl
      have hmap : ∀ (cmd : UInt8) (addrlen : Option Nat),
          addrlen.map (fun addrlen => [0x05, cmd, 0] ++ self.addr.bytes addrlen) ≠ some [] := by
        intro cmd addrlen
        cases addrlen <;> simp
      cases ht : self.type with
      | none =>
        rw [ht] at hreq
        cases hreq
      | tcp | udpInTcp | udpInUdp =>
        rw [ht] at hreq
        exact hmap _ _ hreq
    exact bind_write hne (h _)

theorem bind_read_auth_method {next : UInt8 → Client} {f : UInt8 × Text → Option Handshake}
    (h : ∀ m rest, f (m, rest) = result sent ((next m).eval rest)) :
    (Socks5.read_auth_method input).bind f = result sent ((read_auth_method next).eval input) := by
  rw [Socks5.read_auth_method, read_auth_method, Option.bind_eq_bind, Option.bind_assoc]
  refine bind_recv fun b rest => ?_
  dsimp only
  split
  · rfl
  · exact h _ _

theorem bind_read_auth_creds {next : Client} {f : Text → Option Handshake}
    (h : ∀ rest, f rest = result sent (next.eval rest)) :
    (Socks5.read_auth_creds input).bind f = result sent ((read_auth_creds next).eval input) := by
  rw [Socks5.read_auth_creds, read_auth_creds, Option.bind_eq_bind, Option.bind_assoc]
  refine bind_recv fun b rest => ?_
  dsimp only
  split
  · rfl
  · split
    · rfl
    · exact h _

theorem bind_read_response :
    ((Socks5.read_response set_upstream_addr input).bind fun r => some ⟨sent, r.1, r.2⟩) =
      result sent ((read_response set_upstream_addr).eval input) := by
  rw [Socks5.read_response, read_response, Option.bind_eq_bind, Option.bind_assoc]
  refine bind_recv fun b rest => ?_
  dsimp only
  split
  · rfl
  · split
    · rfl
    · cases responseAddrLen (b.getD 3 0) with
      | none => rfl
      | some addrlen =>
        rw [Option.bind_eq_bind, Option.bind_some, Option.bind_assoc]
        refine bind_recv fun addr rest => ?_
        dsimp only
        split
        · rfl
        · simp [result, Prog.eval]

/-- The program of the client is the handshake over all that it receives. -/
theorem eval_handshake (pipeline : Bool) (sent input : Text) :
    self.handshake reliable set_upstream_addr pipeline sent input =
      result sent ((handshake self set_upstream_addr pipeline).eval input) := by
  cases pipeline with
  | true =>
    rw [HevSocks5Client.handshake, if_pos rfl, handshake, if_pos rfl, HevSocks5Client.handshake_pipeline,
      handshake_pipeline]
    simp only [Option.bind_eq_bind]
    refine bind_write_auth_methods fun sent => bind_write_auth_creds fun sent =>
      bind_write_request fun sent => bind_read_auth_method fun m rest => ?_
    unfold HevSocks5Client.auth_pipeline
    dsimp only
    split
    · exact bind_read_auth_creds fun rest => bind_read_response
    · split
      · rfl
      · exact bind_read_response
  | false =>
    rw [HevSocks5Client.handshake, if_neg Bool.false_ne_true, handshake, if_neg Bool.false_ne_true,
      HevSocks5Client.handshake_standard, handshake_standard]
    simp only [Option.bind_eq_bind]
    refine bind_write_auth_methods fun sent => bind_read_auth_method fun m rest => ?_
    unfold HevSocks5Client.auth_standard
    dsimp only
    split
    · simp only [Option.bind_eq_bind, Option.bind_assoc, Option.bind_some]
      exact bind_write_auth_creds fun sent => bind_read_auth_creds fun rest =>
        bind_write_request fun sent => bind_read_response
    · split
      · rfl
      · exact bind_write_request fun sent => bind_read_response

end

/-- The credentials as they reach the server. -/
def presented (self : HevSocks5Client) : Option (Text × Text) :=
  match self.user, self.pass with
  | some user, some pass =>
    some (user.take (UInt8.ofNat user.length).toNat, pass.take (UInt8.ofNat pass.length).toNat)
  | _, _ => none

/-- The client has credentials for a server that asks for some; it sends them unasked only where it
does not wait for the method. -/
def Matched (self : HevSocks5Client) (cfgp : ProxyConfig) (pipeline : Bool) : Prop :=
  (cfgp.username ≠ [] → presented self ≠ none) ∧
    (pipeline = true → cfgp.username = [] → presented self = none)

def Admitted (self : HevSocks5Client) (cfgp : ProxyConfig) : Prop :=
  cfgp.username = [] ∨ presented self = some (cfgp.username, cfgp.password)

instance (self : HevSocks5Client) (cfgp : ProxyConfig) : Decidable (Admitted self cfgp) :=
  inferInstanceAs (Decidable (_ ∨ _))

/-- What a request is served with, and the reply. -/
def answer (ipStrategy : IPStrategy) (listen : Listened) (type : HevSocks5Type) (dst : Address)
    (hi lo : UInt8) : Option (Served × Text) :=
  match type with
  | .tcp =>
    if refuses ipStrategy dst hi lo then none
    else some (.connect (targetOf dst hi lo), connectReply)
  | .udpInUdp =>
    match listen with
    | .opened actual => some (.udpAssociate actual, udpReply actual)
    | .err | .noAddr => none
  | .udpInTcp | .none => none

section

variable {ipStrategy : IPStrategy} {cfgp : ProxyConfig} {listen : Listened} {xs input output u p : Text}
  {n : Nat} {dst : Address} {hi lo rsv m : UInt8} {self : HevSocks5Client} {set_upstream_addr : Text → Int}

theorem takes_readInto (next : Text → Bool → Server) {q : Server} (hn : xs.length = n)
    (h : (next xs true).Takes input output q) : (readInto n next).Takes (xs ++ input) output q := by
  refine .read hn ?_
  rw [hn, Nat.sub_self, List.replicate_zero, List.append_nil]
  exact h

theorem takes_readTarget {next : Text → Server} {q : Server} (h : (next dst.text).Takes input output q) :
    (readTarget dst.atyp next).Takes (dst.field ++ input) output q := by
  cases dst with
  | ipv4 ip hip => exact takes_readInto (fun b _ => next (ipString b)) hip h
  | ipv6 ip hip => exact takes_readInto (fun b _ => next (ipString b)) hip h
  | domain name hname =>
    show (readInto 1 fun b _ => readInto (b.getD 0 0).toNat fun addr _ => next addr).Takes
      ([UInt8.ofNat name.length] ++ (name ++ input)) output q
    refine takes_readInto _ rfl ?_
    exact takes_readInto (fun addr _ => next addr) (toNat_ofNat_length hname).symm h

theorem takes_greeting (hu : cfgp.username = []) :
    (handleSOCKS5 ipStrategy cfgp listen).Takes [0x05, 1, m] [0x05, 0x00] (handleRequest ipStrategy listen) := by
  show (readInto 2 _).Takes ([0x05, 1] ++ [m]) _ _
  refine takes_readInto _ rfl ?_
  show (readInto 1 fun _ _ => if cfgp.username ≠ [] then _ else _ : Server).Takes ([m] ++ []) _ _
  refine takes_readInto _ rfl ?_
  rw [if_neg (not_not.mpr hu)]
  exact .write .refl

theorem takes_greeting_auth (ipStrategy : IPStrategy) (listen : Listened) (m : UInt8) (hu : cfgp.username ≠ []) :
    (handleSOCKS5 ipStrategy cfgp listen).Takes [0x05, 1, m] [0x05, 0x02]
      (handleSOCKS5UserPassAuth cfgp (handleRequest ipStrategy listen)) := by
  show (readInto 2 _).Takes ([0x05, 1] ++ [m]) _ _
  refine takes_readInto _ rfl ?_
  show (readInto 1 fun _ _ => if cfgp.username ≠ [] then _ else _ : Server).Takes ([m] ++ []) _ _
  refine takes_readInto _ rfl ?_
  rw [if_pos hu]
  exact .write .refl

/-- The message with the credentials. -/
def credsMessage (u p : Text) : Text := [0x01, UInt8.ofNat u.length] ++ u ++ [UInt8.ofNat p.length] ++ p

theorem takes_creds (cfgp : ProxyConfig) (next : Server) (hul : u.length < 256) (hpl : p.length < 256) :
    (handleSOCKS5UserPassAuth cfgp next).Takes (credsMessage u p)
      (if u = cfgp.username ∧ p = cfgp.password then [0x01, 0x00] else [0x01, 0x01])
      (if u = cfgp.username ∧ p = cfgp.password then next else .close .nothing) := by
  have hmsg : credsMessage u p =
      [0x01, UInt8.ofNat u.length] ++ (u ++ ([UInt8.ofNat p.length] ++ (p ++ []))) := by
    simp [credsMessage]
  rw [hmsg]
  refine takes_readInto (n := 2) _ rfl (takes_readInto _ (toNat_ofNat_length hul).symm
    (takes_readInto (n := 1) _ rfl (takes_readInto _ (toNat_ofNat_length hpl).symm ?_)))
  split
  · exact .write .refl
  · exact .write .refl

/-- A complete request leads to the branch of its command. -/
theorem takes_request (rsv : UInt8) {cmd : UInt8} {q : Server}
    (h : (if cmd = 0x01 ∧ refuses ipStrategy dst hi lo = true then .write refusedReply (.close .nothing)
      else if cmd = 0x01 then handleSOCKS5Connect (targetOf dst hi lo)
      else if cmd = 0x03 then handleSOCKS5UDP listen
      else .close .nothing : Server).Takes [] output q) :
    (handleRequest ipStrategy listen).Takes (request cmd rsv dst hi lo) output q := by
  have hreq : request cmd rsv dst hi lo = [0x05, cmd, rsv, dst.atyp] ++ (dst.field ++ ([hi, lo] ++ [])) := by
    simp [request]
  rw [hreq]
  refine takes_readInto (n := 4) _ rfl ?_
  simp only [Bool.not_true, Bool.false_eq_true, if_false]
  exact takes_readTarget (takes_readInto (n := 2) _ rfl h)

/-- The command of a request. -/
def command : HevSocks5Type → Option UInt8
  | .tcp => some 0x01
  | .udpInTcp => some 0x05
  | .udpInUdp => some 0x03
  | .none => none

theorem write_request_eq (hm : self.addr.Holds dst hi lo) :
    hev_socks5_client_write_request self.type self.addr =
      (command self.type).map fun cmd => request cmd 0 dst hi lo := by
  -- the messages of the commands differ in one byte
  obtain ⟨addrlen, hlen, hb⟩ := Option.map_eq_some_iff.mp (Socks5.write_request hm)
  have hbytes : ∀ cmd : UInt8, [0x05, cmd, 0] ++ self.addr.bytes addrlen = request cmd 0 dst hi lo := by
    intro cmd
    have htail : self.addr.bytes addrlen = dst.atyp :: (dst.field ++ [hi, lo]) := by
      simpa [connectRequest] using hb
    rw [htail]
    simp [request]
  cases ht : self.type with
  | none => rfl
  | tcp => exact (congrArg (Option.map _) hlen).trans (congrArg some (hbytes 0x01))
  | udpInTcp => exact (congrArg (Option.map _) hlen).trans (congrArg some (hbytes 0x05))
  | udpInUdp => exact (congrArg (Option.map _) hlen).trans (congrArg some (hbytes 0x03))

theorem takes_recvAll {next : Text → Client} {q : Client} (xs input : Text) (hn : xs.length = n)
    (h : (next xs).Takes input output q) : (recvAll n next).Takes (xs ++ input) output q :=
  .read hn (by rw [if_pos rfl]; exact h)

theorem takes_method {next : UInt8 → Client} : (read_auth_method next).Takes [0x05, m] [] (next m) :=
  takes_recvAll (n := 2) [0x05, m] [] rfl .refl

theorem takes_credsReply {next : Client} (st : UInt8) : (read_auth_creds next).Takes [0x01, st] []
    (if st = 0x00 then next else .close none) := by
  refine takes_recvAll (n := 2) [0x01, st] [] rfl ?_
  show (if st ≠ 0x00 then _ else _ : Client).Takes _ _ _
  by_cases h : st = 0x00
  · rw [if_neg (not_not.mpr h), if_pos h]
    exact .refl
  · rw [if_pos h, if_neg h]
    exact .refl

/-- A successful reply gives the address behind its reserved byte. -/
theorem takes_response (set_upstream_addr : Text → Int) (hi lo : UInt8) (hdst : ∀ name h, dst ≠ .domain name h) :
    (read_response set_upstream_addr).Takes ([0x05, 0x00, 0x00, dst.atyp] ++ (dst.field ++ [hi, lo])) []
      (if set_upstream_addr (dst.atyp :: (dst.field ++ [hi, lo])) < 0 then .close none
        else .done (some (dst.atyp :: (dst.field ++ [hi, lo])))) := by
  have hlen : responseAddrLen dst.atyp = some (dst.field ++ [hi, lo]).length := by
    cases dst with
    | ipv4 ip h => simp [Address.atyp, Address.field, h, responseAddrLen]
    | ipv6 ip h => simp [Address.atyp, Address.field, h, responseAddrLen]
    | domain name h => exact (hdst name h rfl).elim
  refine takes_recvAll (n := 4) _ _ rfl ?_
  simp only [List.getD_cons_zero, List.getD_cons_succ, ne_eq, not_true, if_false, hlen]
  rw [← List.append_nil (dst.field ++ [hi, lo])]
  refine takes_recvAll _ _ (by simp) ?_
  rw [List.append_nil]
  exact .refl

theorem takes_refused (set_upstream_addr : Text → Int) :
    (read_response set_upstream_addr).Takes [0x05, 0x02, 0x00, 0x01] [] (.close none) :=
  takes_recvAll (n := 4) [0x05, 0x02, 0x00, 0x01] [] rfl .refl

/-- The client and the server of one connection. -/
abbrev Connection := Duplex UInt8 (Option Text) Served

def start (self : HevSocks5Client) (set_upstream_addr : Text → Int) (pipeline : Bool)
    (ipStrategy : IPStrategy) (cfgp : ProxyConfig) (listen : Listened) : Connection :=
  ⟨handshake self set_upstream_addr pipeline, handleSOCKS5 ipStrategy cfgp listen, [], []⟩

/-- How a handshake ends: with an answer both sides keep the connection, of which nothing is left over,
unless the client does not accept the address; without one both sides close. -/
def Settled (set_upstream_addr : Text → Int) (t : Connection) : Option (Served × Text) → Prop
  | some (served, reply) => t.right = .done served ∧ t.toLeft = [] ∧ t.toRight = [] ∧
      t.left = if set_upstream_addr (reply.drop 3) < 0 then .close none else .done (some (reply.drop 3))
  | none => t.left = .close none ∧ t.right = .close .nothing

theorem Settled.no_step {t : Connection} {ans : Option (Served × Text)} (h : Settled set_upstream_addr t ans) :
    ∀ a u, ¬ Step t a u := by
  cases ans with
  | none => exact Ended.no_step ⟨.inr h.1, .inr h.2⟩
  | some r =>
    obtain ⟨hr, -, -, hl⟩ := h
    by_cases hset : set_upstream_addr (r.2.drop 3) < 0
    · rw [if_pos hset] at hl
      exact Ended.no_step ⟨.inr hl, .inl hr⟩
    · rw [if_neg hset] at hl
      exact Ended.no_step ⟨.inl hl, .inl hr⟩

/-- Behind a server that closes, a client that waits for a reply closes as well. -/
theorem leads_closed {l : Text} {next : Text → Client} {n : Nat} (hl : l.length < n) :
    Leads ⟨recvAll n next, .close Served.nothing, l, xs⟩ ⟨.close none, .close .nothing, [], xs⟩ :=
  leads_left_eof hl

theorem leads_refused : Leads ⟨read_response set_upstream_addr, .close Served.nothing, refusedReply, xs⟩
    ⟨.close none, .close .nothing, [0, 0, 0, 0, 0, 0], xs⟩ := by
  have h := leads_left (q := .close Served.nothing) (l := [0, 0, 0, 0, 0, 0]) (r := xs)
    (takes_refused set_upstream_addr)
  rwa [List.append_nil] at h

/-- The client gets the reply of a server that goes on. -/
theorem leads_reply (set_upstream_addr : Text → Int) (served : Served) (dst : Address) (hi lo : UInt8)
    (hdst : ∀ name h, dst ≠ .domain name h) :
    Leads ⟨read_response set_upstream_addr, .done served,
        [0x05, 0x00, 0x00, dst.atyp] ++ (dst.field ++ [hi, lo]), []⟩
      ⟨if set_upstream_addr (dst.atyp :: (dst.field ++ [hi, lo])) < 0 then .close none
        else .done (some (dst.atyp :: (dst.field ++ [hi, lo]))), .done served, [], []⟩ := by
  have h := leads_left (q := .done served) (l := []) (r := [])
    (takes_response set_upstream_addr hi lo hdst)
  rwa [List.append_nil, List.append_nil] at h

/-- The reply to a UDP ASSOCIATE carries an address without a name. -/
theorem udpReply_eq (actual : UDPAddr) : ∃ (a : Address) (hi lo : UInt8),
    udpReply actual = [0x05, 0x00, 0x00, a.atyp] ++ (a.field ++ [hi, lo]) ∧ ∀ name h, a ≠ .domain name h := by
  obtain ⟨status, a, hi, lo, h⟩ := (udpReply_proper : Proper 0x03 (udpReply actual)).bound
  have hstatus : (udpReply actual)[1]? = some 0 := by
    unfold udpReply
    cases to4 actual.ip <;> rfl
  have hatyp : (udpReply actual)[3]? ≠ some 0x03 := by
    unfold udpReply
    cases to4 actual.ip <;> simp
  rw [h] at hstatus hatyp
  cases hstatus
  refine ⟨a, hi, lo, h, ?_⟩
  rintro name hname rfl
  exact hatyp rfl

/-- From the request on. -/
theorem leads_request (set_upstream_addr : Text → Int) (ipStrategy : IPStrategy) (listen : Listened)
    (rsv : UInt8) (dst : Address) (hi lo : UInt8) {cmd : UInt8} (hc : command self.type = some cmd) :
    ∃ t, Leads ⟨read_response set_upstream_addr, handleRequest ipStrategy listen, [],
        request cmd rsv dst hi lo⟩ t ∧
      Settled set_upstream_addr t (answer ipStrategy listen self.type dst hi lo) := by
  have hserve : ∀ {output : Text} {q : Server},
      (if cmd = 0x01 ∧ refuses ipStrategy dst hi lo = true then .write refusedReply (.close .nothing)
        else if cmd = 0x01 then handleSOCKS5Connect (targetOf dst hi lo)
        else if cmd = 0x03 then handleSOCKS5UDP listen
        else .close .nothing : Server).Takes [] output q →
      Leads ⟨read_response set_upstream_addr, handleRequest ipStrategy listen, [],
        request cmd rsv dst hi lo⟩ ⟨read_response set_upstream_addr, q, output, []⟩ := by
    intro output q h
    have hleads := leads_right (p := read_response set_upstream_addr) (l := []) (r := [])
      (takes_request rsv h)
    rwa [List.append_nil] at hleads
  cases ht : self.type with
  | none =>
    rw [ht] at hc
    cases hc
  | tcp =>
    rw [ht] at hc
    cases hc
    by_cases hr : refuses ipStrategy dst hi lo = true
    · refine ⟨_, (hserve ?_).trans leads_refused, ?_⟩
      · rw [if_pos ⟨rfl, hr⟩]
        exact .write .refl
      · rw [answer, if_pos hr]
        exact ⟨rfl, rfl⟩
    · have hreply := leads_reply set_upstream_addr (.connect (targetOf dst hi lo)) (.ipv4 [0, 0, 0, 0] rfl)
        0 0 (by simp)
      refine ⟨_, (hserve ?_).trans hreply, ?_⟩
      · rw [if_neg (fun h => hr h.2), if_pos rfl]
        exact .write .refl
      · rw [answer, if_neg hr]
        exact ⟨rfl, rfl, rfl, rfl⟩
  | udpInTcp =>
    rw [ht] at hc
    cases hc
    exact ⟨_, (hserve .refl).trans (leads_closed (by decide)), rfl, rfl⟩
  | udpInUdp =>
    rw [ht] at hc
    cases hc
    cases listen with
    | opened actual =>
      obtain ⟨a, hi', lo', heq, hdst⟩ := udpReply_eq actual
      have hreply := leads_reply set_upstream_addr (.udpAssociate actual) a hi' lo' hdst
      have hw : (handleSOCKS5UDP (.opened actual)).Takes [] (udpReply actual ++ []) (.done (.udpAssociate actual)) :=
        .write .refl
      rw [List.append_nil, heq] at hw
      refine ⟨_, (hserve hw).trans hreply, ?_⟩
      rw [answer, heq]
      exact ⟨rfl, rfl, rfl, rfl⟩
    | err => exact ⟨_, (hserve .refl).trans (leads_closed (by decide)), rfl, rfl⟩
    | noAddr => exact ⟨_, (hserve .refl).trans (leads_closed (by decide)), rfl, rfl⟩

theorem write_auth_creds_none (h : presented self = none) (next : Client) :
    write_auth_creds self next = next := by
  unfold presented at h
  unfold write_auth_creds
  split at h
  · cases h
  · rfl

/-- A length that does not fit its byte cuts the credential off. -/
theorem write_auth_creds_some (h : presented self = some (u, p)) (next : Client) :
    write_auth_creds self next = .write (credsMessage u p) next ∧ u.length < 256 ∧ p.length < 256 := by
  have hcut : ∀ t : Text, (t.take (UInt8.ofNat t.length).toNat).length = (UInt8.ofNat t.length).toNat := by
    intro t
    rw [List.length_take, UInt8.toNat_ofNat']
    exact Nat.min_eq_left (Nat.mod_le _ _)
  unfold presented at h
  unfold write_auth_creds
  split at h
  · cases h
    refine ⟨?_, ?_, ?_⟩
    · rw [credsMessage, hcut, hcut, UInt8.ofNat_toNat, UInt8.ofNat_toNat]
    · rw [hcut]
      exact UInt8.toNat_lt _
    · rw [hcut]
      exact UInt8.toNat_lt _
  · cases h

/-- The negotiation at an open server. -/
theorem leads_method {next : UInt8 → Client} (hu : cfgp.username = []) :
    Leads ⟨write_auth_methods self (read_auth_method next), handleSOCKS5 ipStrategy cfgp listen, [], []⟩
      ⟨next 0x00, handleRequest ipStrategy listen, [], []⟩ :=
  leads_exchange (.write .refl) (takes_greeting hu) takes_method

theorem leads_method_auth (self : HevSocks5Client) (ipStrategy : IPStrategy) (listen : Listened)
    (next : UInt8 → Client) (hu : cfgp.username ≠ []) :
    Leads ⟨write_auth_methods self (read_auth_method next), handleSOCKS5 ipStrategy cfgp listen, [], []⟩
      ⟨next 0x02, handleSOCKS5UserPassAuth cfgp (handleRequest ipStrategy listen), [], []⟩ :=
  leads_exchange (.write .refl) (takes_greeting_auth _ _ _ hu) takes_method

theorem leads_creds (cfgp : ProxyConfig) (next : Client) (serve : Server) (h : presented self = some (u, p)) :
    Leads ⟨write_auth_creds self (read_auth_creds next), handleSOCKS5UserPassAuth cfgp serve, [], []⟩
      ⟨if u = cfgp.username ∧ p = cfgp.password then next else .close none,
        if u = cfgp.username ∧ p = cfgp.password then serve else .close .nothing, [], []⟩ := by
  obtain ⟨hw, hul, hpl⟩ := write_auth_creds_some h (read_auth_creds next)
  rw [hw]
  have hreply := takes_creds cfgp serve hul hpl
  by_cases hok : u = cfgp.username ∧ p = cfgp.password
  · simp only [if_pos hok] at hreply ⊢
    exact leads_exchange (.write .refl) (by rwa [List.append_nil]) (takes_credsReply 0x00)
  · simp only [if_neg hok] at hreply ⊢
    exact leads_exchange (.write .refl) (by rwa [List.append_nil]) (takes_credsReply 0x01)

/-- A client without a command closes, and the server finds no request. -/
theorem leads_unasked (l : Text) :
    Leads (⟨.close none, handleRequest ipStrategy listen, l, []⟩ : Connection)
      ⟨.close none, .close .nothing, l, []⟩ :=
  leads_right_eof (by decide)

theorem command_none {next : Client} (hm : self.addr.Holds dst hi lo) (hc : command self.type = none) :
    write_request self next = .close none := by
  rw [write_request, write_request_eq hm, hc]
  rfl

theorem command_some {next : Client} {cmd : UInt8} (hm : self.addr.Holds dst hi lo)
    (hc : command self.type = some cmd) : write_request self next = .write (request cmd 0 dst hi lo) next := by
  rw [write_request, write_request_eq hm, hc]
  rfl

theorem answer_none (hc : command self.type = none) : answer ipStrategy listen self.type dst hi lo = none := by
  cases ht : self.type with
  | none => rfl
  | tcp | udpInTcp | udpInUdp =>
    rw [ht] at hc
    cases hc

theorem leads_ask (set_upstream_addr : Text → Int) (ipStrategy : IPStrategy) (listen : Listened)
    (hm : self.addr.Holds dst hi lo) :
    ∃ t, Leads ⟨write_request self (read_response set_upstream_addr), handleRequest ipStrategy listen,
        [], []⟩ t ∧
      Settled set_upstream_addr t (answer ipStrategy listen self.type dst hi lo) := by
  cases hc : command self.type with
  | none =>
    rw [command_none hm hc, answer_none hc]
    exact ⟨_, leads_unasked [], rfl, rfl⟩
  | some cmd =>
    obtain ⟨t, ht, hs⟩ := leads_request set_upstream_addr ipStrategy listen 0 dst hi lo hc
    rw [command_some hm hc]
    exact ⟨t, (leads_left (l := []) (.write .refl)).trans (by rwa [List.nil_append, List.append_nil]), hs⟩

theorem admitted_of_open (hu : cfgp.username = []) : Admitted self cfgp := .inl hu

theorem admitted_iff (hu : cfgp.username ≠ []) (h : presented self = some (u, p)) :
    Admitted self cfgp ↔ u = cfgp.username ∧ p = cfgp.password := by
  rw [Admitted, h, or_iff_right hu, Option.some_inj, Prod.mk.injEq]

/-- The client that waits for each reply. -/
theorem leads_standard (hm : self.addr.Holds dst hi lo) (hp : cfgp.username ≠ [] → presented self ≠ none) :
    ∃ t, Leads (start self set_upstream_addr false ipStrategy cfgp listen) t ∧
      Settled set_upstream_addr t
        (if Admitted self cfgp then answer ipStrategy listen self.type dst hi lo else none) := by
  obtain ⟨t, hask, hs⟩ := leads_ask set_upstream_addr ipStrategy listen hm
  rw [start, handshake, if_neg Bool.false_ne_true, handshake_standard]
  by_cases hu : cfgp.username = []
  · rw [if_pos (admitted_of_open hu)]
    exact ⟨t, (leads_method hu).trans hask, hs⟩
  · obtain ⟨⟨u, p⟩, hup⟩ := Option.ne_none_iff_exists'.mp (hp hu)
    have hcreds := leads_creds cfgp (write_request self (read_response set_upstream_addr))
      (handleRequest ipStrategy listen) hup
    by_cases hok : u = cfgp.username ∧ p = cfgp.password
    · rw [if_pos hok, if_pos hok] at hcreds
      rw [if_pos ((admitted_iff hu hup).mpr hok)]
      exact ⟨t, (leads_method_auth _ _ _ _ hu).trans (hcreds.trans hask), hs⟩
    · rw [if_neg hok, if_neg hok] at hcreds
      rw [if_neg (mt (admitted_iff hu hup).mp hok)]
      exact ⟨_, (leads_method_auth _ _ _ _ hu).trans hcreds, rfl, rfl⟩

/-- What the client says of itself before the request, when it does not wait. -/
def introduction (self : HevSocks5Client) : Text :=
  match presented self with
  | some (u, p) => [0x05, 1, self.method] ++ credsMessage u p
  | none => [0x05, 1, self.method]

/-- The server's replies to it. -/
def verdict (self : HevSocks5Client) (cfgp : ProxyConfig) : Text :=
  if cfgp.username = [] then [0x05, 0x00]
  else if Admitted self cfgp then [0x05, 0x02] ++ [0x01, 0x00]
  else [0x05, 0x02] ++ [0x01, 0x01]

theorem takes_introduction (ipStrategy : IPStrategy) (listen : Listened) (hm : Matched self cfgp true) :
    (handleSOCKS5 ipStrategy cfgp listen).Takes (introduction self) (verdict self cfgp)
      (if Admitted self cfgp then handleRequest ipStrategy listen else .close .nothing) := by
  by_cases hu : cfgp.username = []
  · rw [introduction, hm.2 rfl hu, verdict, if_pos hu, if_pos (admitted_of_open hu)]
    exact takes_greeting hu
  · obtain ⟨⟨u, p⟩, hup⟩ := Option.ne_none_iff_exists'.mp (hm.1 hu)
    obtain ⟨-, hul, hpl⟩ := write_auth_creds_some hup (.close none)
    have h := (takes_greeting_auth ipStrategy listen self.method hu).trans
      (takes_creds cfgp (handleRequest ipStrategy listen) hul hpl)
    rw [introduction, hup, verdict, if_neg hu]
    by_cases hok : u = cfgp.username ∧ p = cfgp.password
    · rw [if_pos hok, if_pos hok] at h
      rw [if_pos ((admitted_iff hu hup).mpr hok), if_pos ((admitted_iff hu hup).mpr hok)]
      exact h
    · rw [if_neg hok, if_neg hok] at h
      rw [if_neg (mt (admitted_iff hu hup).mp hok), if_neg (mt (admitted_iff hu hup).mp hok)]
      exact h

/-- What the pipelining client does with the replies. -/
theorem takes_verdict (self : HevSocks5Client) (cfgp : ProxyConfig) (set_upstream_addr : Text → Int) :
    (auth_pipeline set_upstream_addr).Takes (verdict self cfgp) []
    (if Admitted self cfgp then read_response set_upstream_addr else .close none) := by
  unfold verdict auth_pipeline
  by_cases hu : cfgp.username = []
  · rw [if_pos hu, if_pos (admitted_of_open hu)]
    exact takes_method
  · rw [if_neg hu]
    by_cases hok : Admitted self cfgp
    · rw [if_pos hok, if_pos hok]
      exact takes_method.trans (takes_credsReply 0x00)
    · rw [if_neg hok, if_neg hok]
      exact takes_method.trans (takes_credsReply 0x01)

theorem takes_write_creds (self : HevSocks5Client) {next q : Client} (h : next.Takes [] output q) :
    (write_auth_methods self (write_auth_creds self next)).Takes [] (introduction self ++ output) q := by
  cases hup : presented self with
  | none =>
    rw [introduction, hup, write_auth_creds_none hup]
    exact .write h
  | some up =>
    obtain ⟨u, p⟩ := up
    rw [introduction, hup, (write_auth_creds_some hup next).1, List.append_assoc]
    exact .write (.write h)

/-- The client that sends all it has to say at once. -/
theorem leads_pipeline (ha : self.addr.Holds dst hi lo) (hm : Matched self cfgp true) :
    ∃ t, Leads (start self set_upstream_addr true ipStrategy cfgp listen) t ∧
      Settled set_upstream_addr t
        (if Admitted self cfgp then answer ipStrategy listen self.type dst hi lo else none) := by
  rw [start, handshake, if_pos rfl, handshake_pipeline]
  have hserver := takes_introduction ipStrategy listen hm
  cases hc : command self.type with
  | none =>
    rw [command_none ha hc, answer_none hc, ite_self]
    have hsent := leads_left (q := handleSOCKS5 ipStrategy cfgp listen) (l := []) (r := [])
      (takes_write_creds self (.refl (p := .close none)))
    have hserved := leads_right (p := (.close none : Client)) (l := []) (r := []) hserver
    by_cases hok : Admitted self cfgp
    · rw [if_pos hok] at hserved
      exact ⟨_, hsent.trans (hserved.trans (leads_unasked _)), rfl, rfl⟩
    · rw [if_neg hok] at hserved
      exact ⟨_, hsent.trans hserved, rfl, rfl⟩
  | some cmd =>
    rw [command_some ha hc]
    have hsent := leads_left (q := handleSOCKS5 ipStrategy cfgp listen) (l := []) (r := [])
      (takes_write_creds self (.write .refl : (Prog.write (request cmd 0 dst hi lo)
        (auth_pipeline set_upstream_addr)).Takes [] _ (auth_pipeline set_upstream_addr)))
    have hserved := leads_right (p := auth_pipeline set_upstream_addr) (l := [])
      (r := request cmd 0 dst hi lo) hserver
    have hread := leads_left (l := []) (r := request cmd 0 dst hi lo)
      (q := if Admitted self cfgp then handleRequest ipStrategy listen else .close .nothing)
      (takes_verdict self cfgp set_upstream_addr)
    rw [List.append_nil (request cmd 0 dst hi lo)] at hsent
    rw [List.append_nil (verdict self cfgp), List.append_nil (request cmd 0 dst hi lo)] at hread
    have hall := hsent.trans (hserved.trans hread)
    by_cases hok : Admitted self cfgp
    · rw [if_pos hok, if_pos hok] at hall
      rw [if_pos hok]
      obtain ⟨t, ht, hs⟩ := leads_request set_upstream_addr ipStrategy listen 0 dst hi lo hc
      exact ⟨t, hall.trans ht, hs⟩
    · rw [if_neg hok, if_neg hok] at hall
      rw [if_neg hok]
      exact ⟨_, hall, rfl, rfl⟩

/-- The end of the handshake. -/
theorem leads_settled (set_upstream_addr : Text → Int) (ipStrategy : IPStrategy) (listen : Listened)
    {pipeline : Bool} (ha : self.addr.Holds dst hi lo) (hm : Matched self cfgp pipeline) :
    ∃ t, Leads (start self set_upstream_addr pipeline ipStrategy cfgp listen) t ∧
      Settled set_upstream_addr t
        (if Admitted self cfgp then answer ipStrategy listen self.type dst hi lo else none) := by
  cases pipeline with
  | false => exact leads_standard ha hm.1
  | true => exact leads_pipeline ha hm

/-- However the two sides take turns, the handshake comes to an end, and always to the same one: both of
them have agreed on the request, or both have closed. -/
theorem handshake_agrees {pipeline : Bool} (ha : self.addr.Holds dst hi lo) (hm : Matched self cfgp pipeline) :
    ∃ t n, Settled set_upstream_addr t
        (if Admitted self cfgp then answer ipStrategy listen self.type dst hi lo else none) ∧
      ∀ ys u, Run Step (start self set_upstream_addr pipeline ipStrategy cfgp listen) ys u →
        ∃ zs, Run Step u zs t ∧ ys.length + zs.length = n := by
  obtain ⟨t, hleads, hs⟩ := leads_settled set_upstream_addr ipStrategy listen ha hm
  obtain ⟨n, hn⟩ := hleads.inevitable hs.no_step
  exact ⟨t, n, hs, hn⟩

/-- A server that wants credentials. -/
def serverWithAuth : ProxyConfig := ⟨[0x75], [0x70], []⟩

theorem handshake_agrees_auth : ∃ t n, Settled (fun _ => 0) t
        (some (.connect (joinHostPort [0x31, 0x2e, 0x31, 0x2e, 0x31, 0x2e, 0x31] (itoa 257)), connectReply)) ∧
      ∀ ys u, Run Step (start clientWithAuth (fun _ => 0) true .default serverWithAuth .err) ys u →
        ∃ zs, Run Step u zs t ∧ ys.length + zs.length = n := by
  obtain ⟨t, n, hs, h⟩ : ∃ t n, Settled (fun _ => 0) t (if Admitted clientWithAuth serverWithAuth then
        answer .default .err clientWithAuth.type (.ipv4 [1, 1, 1, 1] rfl) 1 1 else none) ∧
      ∀ ys u, Run Step (start clientWithAuth (fun _ => 0) true .default serverWithAuth .err) ys u →
        ∃ zs, Run Step u zs t ∧ ys.length + zs.length = n :=
    handshake_agrees ⟨rfl, ⟨List.replicate 253 1, List.replicate_append_replicate (n := 6)⟩⟩
      ⟨fun _ => by decide, fun _ h => by cases h⟩
  rw [if_pos (by decide)] at hs
  have hany : refuses .default (.ipv4 [1, 1, 1, 1] rfl) 1 1 ≠ true := by decide
  have hans : answer .default .err clientWithAuth.type (.ipv4 [1, 1, 1, 1] rfl) 1 1 =
      some (.connect (joinHostPort [0x31, 0x2e, 0x31, 0x2e, 0x31, 0x2e, 0x31] (itoa 257)), connectReply) := by
    show (if refuses .default (.ipv4 [1, 1, 1, 1] rfl) 1 1 then none
      else some (Served.connect (targetOf (.ipv4 [1, 1, 1, 1] rfl) 1 1), connectReply)) = _
    exact if_neg hany
  rw [hans] at hs
  exact ⟨t, n, hs, h⟩

/-- A client without credentials that waits for the method is left waiting by a server that wants them, and
the server by the client: both are at a read that the other one never serves. -/
theorem handshake_stalls (hu : cfgp.username ≠ []) (h : presented self = none) : ∃ t n,
    (∀ ys u, Run Step (start self set_upstream_addr false ipStrategy cfgp listen) ys u →
      ∃ zs, Run Step u zs t ∧ ys.length + zs.length = n) ∧
    Waiting t ∧ ∀ a u, ¬ Step t a u := by
  obtain ⟨k, hk⟩ : ∃ k : UInt8 → Client, k = fun method =>
      if method = 0x02 then
        write_auth_creds self <| read_auth_creds <| write_request self <| read_response set_upstream_addr
      else if method ≠ 0x00 then .close none
      else write_request self <| read_response set_upstream_addr := ⟨_, rfl⟩
  have hk2 : k 0x02 = read_auth_creds (write_request self (read_response set_upstream_addr)) := by
    rw [hk]
    exact (if_pos rfl).trans (write_auth_creds_none h _)
  have hleads := leads_method_auth self ipStrategy listen k hu
  rw [hk2] at hleads
  rw [start, handshake, if_neg Bool.false_ne_true, handshake_standard, ← hk]
  -- the client reads the verdict, the server the credentials
  have hwait : Waiting (⟨read_auth_creds (write_request self (read_response set_upstream_addr)),
      handleSOCKS5UserPassAuth cfgp (handleRequest ipStrategy listen), [], []⟩ : Duplex _ _ _) :=
    ⟨⟨2, _, rfl, Nat.zero_lt_two⟩, 2, _, rfl, Nat.zero_lt_two⟩
  obtain ⟨n, hn⟩ := hleads.inevitable hwait.no_step
  exact ⟨_, n, hn, hwait, hwait.no_step⟩

/-- A client that has no credentials. -/
def clientWithoutAuth : HevSocks5Client := { clientWithAuth with user := none }

theorem handshake_stalls_unasked : ∃ t n,
    (∀ ys u, Run Step (start clientWithoutAuth (fun _ => 0) false .default serverWithAuth .err) ys u →
      ∃ zs, Run Step u zs t ∧ ys.length + zs.length = n) ∧
    Waiting t ∧ ∀ a u, ¬ Step t a u :=
  handshake_stalls (List.cons_ne_nil _ _) rfl

end

end XTunnel.Socks5.Dialogue
