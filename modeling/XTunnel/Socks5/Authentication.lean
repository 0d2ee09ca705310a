import XTunnel.Socks5.Handshake

/-! Which client streams get past the user name and password check. -/
namespace XTunnel.Socks5

open Net

/-- The sub-negotiation of the credentials; its version byte is free. -/
def credentials (ver : UInt8) (cfgp : ProxyConfig) : Text :=
  [ver, UInt8.ofNat cfgp.username.length] ++ (cfgp.username ++
    ([UInt8.ofNat cfgp.password.length] ++ cfgp.password))

/-- A stream that begins with a greeting, the configured credentials and the head of a request. -/
def Authenticates (cfgp : ProxyConfig) (s : Text) : Prop :=
  ∃ (methods : Text) (ver : UInt8) (request : Text), methods.length < 256 ∧
    cfgp.username.length < 256 ∧ cfgp.password.length < 256 ∧
    s = [0x05, UInt8.ofNat methods.length] ++ (methods ++ (credentials ver cfgp ++ request)) ∧
    4 ≤ request.length

/-- The handshake goes on to `handleSOCKS5Connect` or to `handleSOCKS5UDP`. -/
def Outcome.proceeds : Outcome → Bool
  | .connect _ _ | .udpAssociate _ => true
  | .closed | .refused => false

variable {cfgp : ProxyConfig} {ipStrategy : IPStrategy} {s t b reply : Text} {n : Nat} {ok : Bool}

/-- A read that leaves bytes behind was filled by the stream. -/
theorem readFull_eq (h : readFull n s = (b, t, ok)) (ht : t ≠ []) : s = b ++ t ∧ b.length = n := by
  cases h
  have hlt : n < s.length := by
    by_contra hle
    exact ht (List.drop_of_length_le (by omega))
  rw [Nat.sub_eq_zero_of_le (by omega), List.replicate_zero, List.append_nil]
  refine ⟨(List.take_append_drop n s).symm, ?_⟩
  rw [List.length_take]
  omega

theorem handleRequest_proceeds (h : (handleRequest ipStrategy s).2.proceeds = true) : 4 ≤ s.length := by
  by_contra hlt
  have hok : (readFull 4 s).2.2 = false := decide_eq_false (by omega)
  rw [handleRequest] at h
  simp only [hok, Bool.not_false, if_true] at h
  cases h

/-- Nothing but the configured credentials is admitted with bytes to spare. -/
theorem handleSOCKS5UserPassAuth_admits
    (h : handleSOCKS5UserPassAuth cfgp s = (reply, t, true)) (ht : t ≠ []) :
    ∃ ver, s = credentials ver cfgp ++ t ∧ cfgp.username.length < 256 ∧
      cfgp.password.length < 256 := by
  rw [handleSOCKS5UserPassAuth] at h
  obtain ⟨b, s₁, ok₁, h₁⟩ : ∃ b s₁ ok₁, readFull 2 s = (b, s₁, ok₁) := ⟨_, _, _, rfl⟩
  obtain ⟨u, s₂, ok₂, h₂⟩ : ∃ u s₂ ok₂, readFull (b.getD 1 0).toNat s₁ = (u, s₂, ok₂) :=
    ⟨_, _, _, rfl⟩
  obtain ⟨p, s₃, ok₃, h₃⟩ : ∃ p s₃ ok₃,
      readFull (s₂.getD 0 (b.getD 0 0)).toNat (s₂.drop 1) = (p, s₃, ok₃) := ⟨_, _, _, rfl⟩
  simp only [h₁, h₂, h₃] at h
  split at h
  · rename_i hup
    obtain ⟨rfl, rfl⟩ := hup
    cases h
    -- the unread bytes fill every read before them, from the last one to the first
    obtain ⟨hp, hplen⟩ := readFull_eq h₃ ht
    cases s₂ with
    | nil => exact absurd (List.append_eq_nil_iff.mp hp.symm).2 ht
    | cons l s₂ =>
      obtain ⟨rfl, hulen⟩ := readFull_eq h₂ (List.cons_ne_nil l s₂)
      obtain ⟨rfl, hblen⟩ := readFull_eq h₁ (by simp)
      obtain ⟨ver, ul, rfl⟩ := List.length_eq_two.mp hblen
      rw [List.getD_cons_zero] at hplen
      rw [List.getD_cons_succ, List.getD_cons_zero] at hulen
      rw [List.drop_one, List.tail_cons] at hp
      refine ⟨ver, ?_, hulen ▸ ul.toNat_lt, hplen ▸ l.toNat_lt⟩
      rw [credentials, hulen, hplen, UInt8.ofNat_toNat, UInt8.ofNat_toNat, hp]
      simp
  · cases h

/-- Authentication is sound: a client that gets as far as a request has sent the configured
credentials, in full and nothing else in their place. -/
theorem handleSOCKS5_authenticates (ipStrategy : IPStrategy) (hu : cfgp.username ≠ [])
    (h : (handleSOCKS5 ipStrategy cfgp s).2.proceeds = true) : Authenticates cfgp s := by
  rw [handleSOCKS5] at h
  obtain ⟨buf, s₁, ok₁, h₁⟩ : ∃ buf s₁ ok₁, readFull 2 s = (buf, s₁, ok₁) := ⟨_, _, _, rfl⟩
  obtain ⟨methods, s₂, ok₂, h₂⟩ : ∃ methods s₂ ok₂,
      readFull (buf.getD 1 0).toNat s₁ = (methods, s₂, ok₂) := ⟨_, _, _, rfl⟩
  obtain ⟨reply, s₃, ok₃, h₃⟩ : ∃ reply s₃ ok₃,
      handleSOCKS5UserPassAuth cfgp s₂ = (reply, s₃, ok₃) := ⟨_, _, _, rfl⟩
  simp only [h₁, h₂, h₃, if_pos hu] at h
  split at h
  · cases h
  · rename_i hbuf
    cases ok₃ with
    | false => cases h
    | true =>
      have hlen := handleRequest_proceeds h
      have hne : s₃ ≠ [] := List.ne_nil_of_length_pos (by omega)
      obtain ⟨ver, rfl, hul, hpl⟩ := handleSOCKS5UserPassAuth_admits h₃ hne
      obtain ⟨rfl, hmlen⟩ := readFull_eq h₂ (by simp [hne])
      obtain ⟨rfl, hblen⟩ := readFull_eq h₁ (by simp [hne])
      obtain ⟨v, k, rfl⟩ := List.length_eq_two.mp hblen
      rw [List.getD_cons_succ, List.getD_cons_zero] at hmlen
      have hv : v = 0x05 := by
        by_contra hv
        exact hbuf (by simp [hv])
      refine ⟨methods, ver, s₃, hmlen ▸ k.toNat_lt, hul, hpl, ?_, hlen⟩
      rw [hv, hmlen, UInt8.ofNat_toNat]

theorem handleSOCKS5_authenticates_user : Authenticates ⟨[0x75], [0x70], []⟩
    [5, 1, 2, 1, 1, 0x75, 1, 0x70, 5, 3, 0, 1] :=
  handleSOCKS5_authenticates .default (by decide) (by decide)

end XTunnel.Socks5
