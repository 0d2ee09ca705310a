import XTunnel.Socks5.Packet

/-! `handleSOCKS5` over the bytes that a client sends before the end of its stream. -/
namespace XTunnel.Socks5

open Net

structure ProxyConfig where
  username : Text
  password : Text
  host : Text

/-- `io.ReadFull` into `n` zero bytes: the buffer, the unread bytes and whether it was filled. -/
def readFull (n : Nat) (s : Text) : Text × Text × Bool :=
  (s.take n ++ List.replicate (n - s.length) 0, s.drop n, n ≤ s.length)

/-- How the handshake ends. A connection that goes on keeps its unread bytes. -/
inductive Outcome
  | closed
  | refused
  | connect (target rest : Text)
  | udpAssociate (rest : Text)
deriving DecidableEq

def refusedReply : Text := [0x05, 0x02, 0x00, 0x01, 0, 0, 0, 0, 0, 0]

/-- The address of a request. An unknown address type reads nothing. -/
def readAddr (atyp : UInt8) (s : Text) : Text × Text :=
  match atyp with
  | 0x01 =>
    let (b, s, _) := readFull 4 s
    (ipString b, s)
  | 0x03 =>
    let (b, s, _) := readFull 1 s
    let (addr, s, _) := readFull (b.getD 0 0).toNat s
    (addr, s)
  | 0x04 =>
    let (b, s, _) := readFull 16 s
    (ipString b, s)
  | _ => ([], s)

/-- The check of a CONNECT request against the strategy. -/
def strategyRefuses (ipStrategy : IPStrategy) (atyp : UInt8) (ip : Option IP) : Bool :=
  match ipStrategy with
  | .ipv4Only => atyp == 0x04 || ip.any fun ip => (to4 ip).isNone
  | .ipv6Only => atyp == 0x01 || ip.any fun ip => (to4 ip).isSome
  | _ => false

/-- The part of `handleSOCKS5` after the method negotiation: replies and outcome. -/
def handleRequest (ipStrategy : IPStrategy) (s : Text) : List Text × Outcome :=
  let (head, s, ok) := readFull 4 s
  if !ok then ([], .closed)
  else
    let (addr, s) := readAddr (head.getD 3 0) s
    let (pb, s, _) := readFull 2 s
    let port := be16 (pb.getD 0 0) (pb.getD 1 0)
    let target := joinHostPort addr (itoa port)
    let ip := parseIP (splitHostPortOrEmpty target).1
    if head.getD 1 0 = 0x01 ∧ strategyRefuses ipStrategy (head.getD 3 0) ip = true then
      ([refusedReply], .refused)
    else if head.getD 1 0 = 0x01 then ([], .connect target s)
    else if head.getD 1 0 = 0x03 then ([], .udpAssociate s)
    else ([], .closed)

/-- The reply, the unread bytes and whether the client is admitted. -/
def handleSOCKS5UserPassAuth (cfgp : ProxyConfig) (s : Text) : Text × Text × Bool :=
  let (b, s, _) := readFull 2 s
  let (u, s, _) := readFull (b.getD 1 0).toNat s
  -- a failed read of the password length leaves the first byte of `b` in its place
  let l := s.getD 0 (b.getD 0 0)
  let (p, s, _) := readFull l.toNat (s.drop 1)
  if u = cfgp.username ∧ p = cfgp.password then ([0x01, 0x00], s, true)
  else ([0x01, 0x01], s, false)

def handleSOCKS5 (ipStrategy : IPStrategy) (cfgp : ProxyConfig) (s : Text) :
    List Text × Outcome :=
  let (buf, s, ok) := readFull 2 s
  if !ok || buf.getD 0 0 != 0x05 then ([], .closed)
  else
    let (_, s, _) := readFull (buf.getD 1 0).toNat s
    if cfgp.username ≠ [] then
      let (reply, s, ok) := handleSOCKS5UserPassAuth cfgp s
      if ok then
        let (replies, outcome) := handleRequest ipStrategy s
        ([0x05, 0x02] :: reply :: replies, outcome)
      else ([[0x05, 0x02], reply], .closed)
    else
      let (replies, outcome) := handleRequest ipStrategy s
      ([0x05, 0x00] :: replies, outcome)

/-- A CONNECT request; its reserved byte is free. -/
def connectRequest (rsv : UInt8) (a : Address) (hi lo : UInt8) : Text :=
  [0x05, 0x01, rsv, a.atyp] ++ (a.field ++ [hi, lo])

/-- The bytes take the client through the method negotiation. -/
def Greets (cfgp : ProxyConfig) (hello : Text) : Prop :=
  ∃ replies, ∀ ipStrategy s, handleSOCKS5 ipStrategy cfgp (hello ++ s) =
    (replies ++ (handleRequest ipStrategy s).1, (handleRequest ipStrategy s).2)

section

variable {a s : Text} {n : Nat}

theorem readFull_append (h : a.length = n) : readFull n (a ++ s) = (a, s, true) := by
  subst h
  simp [readFull]

/-- Without a user name, any offer of methods leads to the request. -/
theorem greets_open {cfgp : ProxyConfig} (hu : cfgp.username = []) (h : a.length < 256) :
    Greets cfgp ([0x05, UInt8.ofNat a.length] ++ a) := by
  refine ⟨[[0x05, 0x00]], fun ipStrategy s => ?_⟩
  have h2 : readFull 2 ([0x05, UInt8.ofNat a.length] ++ (a ++ s)) = (_, _, true) :=
    readFull_append rfl
  have ha : readFull a.length (a ++ s) = (a, s, true) := readFull_append rfl
  simp only [handleSOCKS5, List.append_assoc, h2, List.getD_cons_zero, List.getD_cons_succ,
    toNat_ofNat_length h, ha]
  simp [hu]

/-- With a user name, the configured credentials lead to the request. -/
theorem greets_auth {cfgp : ProxyConfig} (hu : cfgp.username ≠ []) (h : a.length < 256)
    (hul : cfgp.username.length < 256) (hpl : cfgp.password.length < 256) (ver : UInt8) :
    Greets cfgp ([0x05, UInt8.ofNat a.length] ++ (a ++ ([ver, UInt8.ofNat cfgp.username.length] ++
      (cfgp.username ++ ([UInt8.ofNat cfgp.password.length] ++ cfgp.password))))) := by
  refine ⟨[[0x05, 0x02], [0x01, 0x00]], fun ipStrategy s => ?_⟩
  have hread : ∀ (b : Text) t, readFull b.length (b ++ t) = (b, t, true) :=
    fun b t => readFull_append rfl
  have h2 : ∀ (x y : UInt8) t, readFull 2 ([x, y] ++ t) = ([x, y], t, true) :=
    fun x y t => readFull_append rfl
  have hone : ∀ (x d : UInt8) t, ([x] ++ t).getD 0 d = x := fun x d t => rfl
  have hdrop : ∀ (x : UInt8) t, ([x] ++ t).drop 1 = t := fun x t => rfl
  simp only [handleSOCKS5, handleSOCKS5UserPassAuth, List.append_assoc, h2, hread, hone, hdrop,
    List.getD_cons_zero, List.getD_cons_succ, toNat_ofNat_length h, toNat_ofNat_length hul,
    toNat_ofNat_length hpl]
  simp [hu]

theorem readAddr_field (a : Address) (s : Text) : readAddr a.atyp (a.field ++ s) = (a.text, s) := by
  cases a with
  | ipv4 ip h => simp only [readAddr, Address.atyp, Address.field, Address.text, readFull_append h]
  | domain name h =>
    have h1 : readFull 1 ([UInt8.ofNat name.length] ++ (name ++ s)) = (_, _, true) :=
      readFull_append rfl
    have hn : readFull name.length (name ++ s) = (name, s, true) := readFull_append rfl
    simp only [readAddr, Address.atyp, Address.field, Address.text]
    rw [List.cons_append, ← List.singleton_append, h1]
    simp only [List.getD_cons_zero, toNat_ofNat_length h, hn]
  | ipv6 ip h => simp only [readAddr, Address.atyp, Address.field, Address.text, readFull_append h]

/-- A complete CONNECT request is refused by the strategy or goes on to its target. -/
theorem handleRequest_connect (ipStrategy : IPStrategy) (rsv : UInt8) (a : Address) (hi lo : UInt8)
    (s : Text) : handleRequest ipStrategy (connectRequest rsv a hi lo ++ s) =
      let target := joinHostPort a.text (itoa (be16 hi lo))
      if strategyRefuses ipStrategy a.atyp (parseIP (splitHostPortOrEmpty target).1) then
        ([refusedReply], .refused)
      else ([], .connect target s) := by
  have h4 : readFull 4 ([0x05, 0x01, rsv, a.atyp] ++ (a.field ++ ([hi, lo] ++ s))) =
      ([0x05, 0x01, rsv, a.atyp], a.field ++ ([hi, lo] ++ s), true) := readFull_append rfl
  have h2 : readFull 2 ([hi, lo] ++ s) = ([hi, lo], s, true) := readFull_append rfl
  simp only [handleRequest, connectRequest, List.append_assoc, h4, List.getD_cons_zero,
    List.getD_cons_succ, readAddr_field, h2]
  simp

end
end XTunnel.Socks5
