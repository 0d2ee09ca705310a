import XTunnel.Socks5.Client

/-! `hev_socks5_client_handshake` in its two modes: one message at a time, and all messages before the
first reply. A step that returns `-1` is `none`. -/
namespace XTunnel.Socks5

open Net

/-- The client; a credential that is not set is `none`, and `addr` is its upstream address. -/
structure HevSocks5Client where
  type : HevSocks5Type
  user : Option Text
  pass : Option Text
  addr : HevSocks5Addr

/-- What becomes of a message after the bytes that are sent already: how many of its bytes go out, and
what the call returns. -/
abbrev Network := Text → Text → Nat × Int

/-- `hev_task_io_socket_send` and `hev_task_io_socket_sendmsg`: all bytes sent so far. -/
def send (net : Network) (sent msg : Text) : Option Text :=
  let (k, res) := net sent msg
  if res ≤ 0 then none else some (sent ++ msg.take k)

/-- `hev_task_io_socket_recv` with `MSG_WAITALL`: the bytes and what is left to receive. -/
def recv (n : Nat) (input : Text) : Option (Text × Text) :=
  if input.length < n then none else some (input.take n, input.drop n)

namespace HevSocks5Client

variable (self : HevSocks5Client) (net : Network)

/-- The method that the client offers. -/
def method : UInt8 := if self.user = none ∨ self.pass = none then 0x00 else 0x02

def write_auth_methods (sent : Text) : Option Text := send net sent [0x05, 1, self.method]

/-- The lengths are cut to a byte, and so are the credentials. -/
def write_auth_creds (sent : Text) : Option Text :=
  match self.user, self.pass with
  | some user, some pass =>
    let ul := UInt8.ofNat user.length
    let pl := UInt8.ofNat pass.length
    send net sent ([0x01, ul] ++ user.take ul.toNat ++ [pl] ++ pass.take pl.toNat)
  | _, _ => some sent

def write_request (sent : Text) : Option Text :=
  (hev_socks5_client_write_request self.type self.addr).bind (send net sent)

end HevSocks5Client

/-- The method that the server selects. -/
def read_auth_method (input : Text) : Option (UInt8 × Text) := do
  let (auth, input) ← recv 2 input
  if auth.getD 0 0 ≠ 0x05 then none else some (auth.getD 1 0, input)

def read_auth_creds (input : Text) : Option Text := do
  let (res, input) ← recv 2 input
  if res.getD 0 0 ≠ 0x01 then none
  else if res.getD 1 0 ≠ 0x00 then none
  else some input

/-- The length of the address in a response, by its type. -/
def responseAddrLen (atype : UInt8) : Option Nat :=
  match atype with
  | 0x01 => some 6
  | 0x04 => some 18
  | _ => none

/-- What is left to receive, and the address that `set_upstream_addr` has accepted. -/
def read_response (set_upstream_addr : Text → Int) (input : Text) : Option (Text × Text) := do
  let (res, input) ← recv 4 input
  if res.getD 0 0 ≠ 0x05 then none
  else if res.getD 1 0 ≠ 0x00 then none
  else do
    let addrlen ← responseAddrLen (res.getD 3 0)
    let (addr, input) ← recv addrlen input
    let addr := res.getD 3 0 :: addr
    if set_upstream_addr addr < 0 then none else some (input, addr)

/-- A successful handshake: the bytes sent, the bytes left to receive and the upstream address. -/
structure Handshake where
  sent : Text
  input : Text
  upstream : Text
deriving DecidableEq

namespace HevSocks5Client

variable (self : HevSocks5Client) (net : Network) (set_upstream_addr : Text → Int)

/-- The branch on the selected method, with the credentials sent in it. -/
def auth_standard (method : UInt8) (sent input : Text) : Option (Text × Text) :=
  if method = 0x02 then do
    let sent ← self.write_auth_creds net sent
    let input ← read_auth_creds input
    some (sent, input)
  else if method ≠ 0x00 then none
  else some (sent, input)

def handshake_standard (sent input : Text) : Option Handshake := do
  let sent ← self.write_auth_methods net sent
  let (method, input) ← read_auth_method input
  let (sent, input) ← self.auth_standard net method sent input
  let sent ← self.write_request net sent
  let (input, upstream) ← read_response set_upstream_addr input
  some ⟨sent, input, upstream⟩

/-- The branch on the selected method, when the credentials are sent already. -/
def auth_pipeline (method : UInt8) (input : Text) : Option Text :=
  if method = 0x02 then read_auth_creds input
  else if method ≠ 0x00 then none
  else some input

def handshake_pipeline (sent input : Text) : Option Handshake := do
  let sent ← self.write_auth_methods net sent
  let sent ← self.write_auth_creds net sent
  let sent ← self.write_request net sent
  let (method, input) ← read_auth_method input
  let input ← auth_pipeline method input
  let (input, upstream) ← read_response set_upstream_addr input
  some ⟨sent, input, upstream⟩

def handshake (pipeline : Bool) (sent input : Text) : Option Handshake :=
  if pipeline then self.handshake_pipeline net set_upstream_addr sent input
  else self.handshake_standard net set_upstream_addr sent input

end HevSocks5Client

/-- Of the methods that the client knows, the server selects only the one that it has offered. -/
def SelectsOffered (self : HevSocks5Client) (input : Text) : Prop :=
  ∀ ver m rest, input = ver :: m :: rest → m = 0x00 ∨ m = 0x02 → m = self.method

variable {self : HevSocks5Client} {net : Network} {sent input rest : Text} {m : UInt8}

theorem read_auth_method_eq (h : read_auth_method input = some (m, rest)) :
    ∃ ver, input = ver :: m :: rest := by
  match input with
  | [] | [_] => cases h
  | ver :: m' :: input =>
    have hr : recv 2 (ver :: m' :: input) = some ([ver, m'], input) := rfl
    rw [read_auth_method, hr] at h
    simp only [Option.bind_eq_bind, Option.bind_some] at h
    split at h
    · cases h
    · cases h
      exact ⟨ver, rfl⟩

/-- Without credentials there is nothing to write. -/
theorem write_auth_creds_none (h : self.method = 0x00) :
    self.write_auth_creds net sent = some sent := by
  unfold HevSocks5Client.method at h
  split at h
  · rename_i hnone
    unfold HevSocks5Client.write_auth_creds
    rcases hnone with hu | hp
    · rw [hu]
    · rw [hp]
      cases self.user <;> rfl
  · cases h

/-- Behind the offered method, both branches come to the same, wherever the credentials are sent. -/
theorem auth_standard_eq (h : m = 0x00 ∨ m = 0x02 → m = self.method) :
    self.auth_standard net m sent input = (do
      let sent ← self.write_auth_creds net sent
      let input ← HevSocks5Client.auth_pipeline m input
      some (sent, input)) := by
  unfold HevSocks5Client.auth_standard HevSocks5Client.auth_pipeline
  by_cases h2 : m = 0x02
  · rw [if_pos h2, if_pos h2]
  · rw [if_neg h2, if_neg h2]
    by_cases h0 : m = 0x00
    · have hm := h (.inl h0)
      rw [write_auth_creds_none (hm.symm.trans h0)]
      simp [h0]
    · rw [if_pos h0, if_pos h0]
      cases self.write_auth_creds net sent <;> rfl

/-- In both modes the handshake has the same result, and where it succeeds it has sent, received and
set the same. -/
theorem handshake_pipeline_eq (net : Network) (set_upstream_addr : Text → Int) (sent : Text)
    (h : SelectsOffered self input) :
    self.handshake net set_upstream_addr true sent input =
      self.handshake net set_upstream_addr false sent input := by
  change self.handshake_pipeline net set_upstream_addr sent input =
    self.handshake_standard net set_upstream_addr sent input
  rw [HevSocks5Client.handshake_pipeline, HevSocks5Client.handshake_standard]
  cases self.write_auth_methods net sent with
  | none => rfl
  | some sent =>
    simp only [Option.bind_eq_bind, Option.bind_some]
    cases hm : read_auth_method input with
    | none =>
      cases self.write_auth_creds net sent with
      | none => rfl
      | some sent =>
        simp only [Option.bind_some]
        cases self.write_request net sent <;> rfl
    | some r =>
      obtain ⟨m, rest⟩ := r
      obtain ⟨ver, hin⟩ := read_auth_method_eq hm
      simp only [Option.bind_some, auth_standard_eq (h ver m rest hin)]
      cases self.write_auth_creds net sent with
      | none => rfl
      | some sent =>
        simp only [Option.bind_some, Option.bind_eq_bind]
        cases HevSocks5Client.auth_pipeline m rest with
        | none => cases self.write_request net sent <;> rfl
        | some rest => rfl

/-- A client with credentials that asks for an IPv4 address. -/
def clientWithAuth : HevSocks5Client :=
  ⟨.tcp, some [0x75], some [0x70], ⟨0x01, List.replicate 259 1, List.length_replicate⟩⟩

/-- The replies to it, and a byte of relayed data behind them. -/
def repliesWithAuth : Text := [5, 2, 1, 0, 5, 0, 0, 1, 192, 0, 2, 1, 0, 53, 0x61]

theorem handshake_pipeline_eq_auth :
    clientWithAuth.handshake (fun _ msg => (msg.length, msg.length)) (fun _ => 0) true []
        repliesWithAuth =
      clientWithAuth.handshake (fun _ msg => (msg.length, msg.length)) (fun _ => 0) false []
        repliesWithAuth ∧
    clientWithAuth.handshake (fun _ msg => (msg.length, msg.length)) (fun _ => 0) true []
        repliesWithAuth =
      some ⟨[5, 1, 2, 1, 1, 0x75, 1, 0x70, 5, 1, 0, 1, 1, 1, 1, 1, 1, 1], [0x61],
        [1, 192, 0, 2, 1, 0, 53]⟩ := by
  refine ⟨handshake_pipeline_eq _ _ _ fun ver m rest he _ => ?_, by decide⟩
  cases he
  rfl

end XTunnel.Socks5
