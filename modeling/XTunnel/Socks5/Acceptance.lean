import XTunnel.Socks5.Handshake

/-! Which client streams open a tunnel stream, and for which target. -/
namespace XTunnel.Socks5

open Net

/-- `handleSOCKS5Connect` up to the target that it hands to `openTCPStream`; `err` says that the
success reply could not be written. -/
def handleSOCKS5Connect (err : Bool) (target : Text) : Option Text :=
  if err then none else some target

/-- The target of the tunnel stream that a client stream opens under the default strategy. -/
def tunnelTarget (cfgp : ProxyConfig) (s : Text) : Option Text :=
  match (handleSOCKS5 .default cfgp s).2 with
  | .connect target _ => handleSOCKS5Connect false target
  | _ => none

/-- A complete greeting, then a complete CONNECT request for the target. -/
def WellFormed (s target : Text) : Prop :=
  ∃ (methods : Text) (rsv : UInt8) (a : Address) (hi lo : UInt8) (rest : Text),
    methods.length < 256 ∧ 0x00 ∈ methods ∧
    s = [0x05, UInt8.ofNat methods.length] ++ (methods ++ (connectRequest rsv a hi lo ++ rest)) ∧
    target = joinHostPort a.text (itoa (be16 hi lo))

/-- The bytes after the head of a request hold an address of the type and a port. -/
def CompleteBody (atyp : UInt8) (body : Text) : Prop :=
  (atyp = 0x01 ∧ 6 ≤ body.length) ∨ (atyp = 0x04 ∧ 18 ≤ body.length) ∨
    (atyp = 0x03 ∧ ∃ l rest, body = l :: rest ∧ l.toNat + 2 ≤ rest.length)

/-- A stream that gets as far as the head of a request with command 1. -/
structure ReachesConnect (s methods : Text) (ver rsv atyp : UInt8) (body : Text) : Prop where
  methods_lt : methods.length < 256
  eq : s = [0x05, UInt8.ofNat methods.length] ++ (methods ++ ([ver, 0x01, rsv, atyp] ++ body))

/-- What the server leaves unchecked, once the head of a CONNECT request is there. -/
def ConnectIsComplete (s : Text) : Prop :=
  ∀ methods ver rsv atyp body, ReachesConnect s methods ver rsv atyp body →
    0x00 ∈ methods ∧ ver = 0x05 ∧ CompleteBody atyp body

variable {cfgp : ProxyConfig} {s t target methods methods' body body' : Text}
  {ver rsv atyp ver' rsv' atyp' : UInt8} {n : Nat}

theorem completeBody_iff : CompleteBody atyp body ↔
    ∃ (a : Address) (hi lo : UInt8) (rest : Text), a.atyp = atyp ∧
      body = a.field ++ [hi, lo] ++ rest := by
  have hsplit : ∀ k, k + 2 ≤ body.length → ∃ hi lo rest, body = body.take k ++ [hi, lo] ++ rest := by
    intro k hk
    have hdrop : (body.drop k).length = body.length - k := List.length_drop
    obtain ⟨hi, t, ht⟩ := List.exists_cons_of_length_pos (l := body.drop k) (by omega)
    obtain ⟨lo, rest, rfl⟩ := List.exists_cons_of_length_pos (l := t) (by
      rw [ht, List.length_cons] at hdrop
      omega)
    refine ⟨hi, lo, rest, ?_⟩
    rw [List.append_assoc, List.cons_append, List.singleton_append, ← ht, List.take_append_drop]
  constructor
  · rintro (⟨rfl, hlen⟩ | ⟨rfl, hlen⟩ | ⟨rfl, l, rest, rfl, hlen⟩)
    · obtain ⟨hi, lo, rest, hb⟩ := hsplit 4 hlen
      exact ⟨.ipv4 (body.take 4) (by rw [List.length_take]; omega), hi, lo, rest, rfl, hb⟩
    · obtain ⟨hi, lo, rest, hb⟩ := hsplit 16 hlen
      exact ⟨.ipv6 (body.take 16) (by rw [List.length_take]; omega), hi, lo, rest, rfl, hb⟩
    · obtain ⟨hi, lo, rest', hb⟩ := hsplit (1 + l.toNat) (by rw [List.length_cons]; omega)
      have hname : (rest.take l.toNat).length = l.toNat := by
        rw [List.length_take]
        omega
      refine ⟨.domain (rest.take l.toNat) (by rw [hname]; exact l.toNat_lt), hi, lo, rest', rfl, ?_⟩
      rw [hb, Address.field, hname, UInt8.ofNat_toNat, Nat.add_comm, List.take_succ_cons]
  · rintro ⟨a, hi, lo, rest, rfl, rfl⟩
    cases a with
    | ipv4 ip h =>
      refine Or.inl ⟨rfl, ?_⟩
      simp [Address.field]
      omega
    | ipv6 ip h =>
      refine Or.inr (Or.inl ⟨rfl, ?_⟩)
      simp [Address.field]
      omega
    | domain name h =>
      refine Or.inr (Or.inr ⟨rfl, UInt8.ofNat name.length, name ++ [hi, lo] ++ rest, ?_, ?_⟩)
      · simp [Address.field]
      · rw [toNat_ofNat_length h]
        simp

/-- The methods are skipped, and everything after them is the request. -/
theorem tunnelTarget_hello (hu : cfgp.username = []) (hm : methods.length < 256) (s : Text) :
    tunnelTarget cfgp ([0x05, UInt8.ofNat methods.length] ++ (methods ++ s)) =
      match (handleRequest .default s).2 with
      | .connect target _ => some target
      | _ => none := by
  obtain ⟨replies, hg⟩ := greets_open (a := methods) hu hm
  rw [tunnelTarget, ← List.append_assoc, hg]
  rfl

/-- A head with command 1 is enough to open a tunnel stream. -/
theorem tunnelTarget_of_reaches (hu : cfgp.username = [])
    (h : ReachesConnect s methods ver rsv atyp body) : ∃ t, tunnelTarget cfgp s = some t := by
  obtain ⟨hm, rfl⟩ := h
  have h4 : readFull 4 ([ver, 0x01, rsv, atyp] ++ body) = ([ver, 0x01, rsv, atyp], body, true) :=
    readFull_append rfl
  rw [tunnelTarget_hello hu hm, handleRequest, h4]
  simp [strategyRefuses]

theorem handleRequest_connects {st : IPStrategy} {rest : Text}
    (h : (handleRequest st s).2 = .connect t rest) :
    ∃ ver rsv atyp body, s = [ver, 0x01, rsv, atyp] ++ body := by
  match s with
  | [] | [_] | [_, _] | [_, _, _] => cases h
  | ver :: cmd :: rsv :: atyp :: body =>
    have h4 : readFull 4 ([ver, cmd, rsv, atyp] ++ body) = ([ver, cmd, rsv, atyp], body, true) :=
      readFull_append rfl
    by_cases hc : cmd = 0x01
    · subst hc
      exact ⟨ver, rsv, atyp, body, rfl⟩
    · change (handleRequest st ([ver, cmd, rsv, atyp] ++ body)).2 = .connect t rest at h
      rw [handleRequest, h4] at h
      simp [hc] at h
      split at h
      · cases h
      · cases h

/-- Nothing less opens one. -/
theorem reaches_of_tunnelTarget (hu : cfgp.username = []) (h : tunnelTarget cfgp s = some t) :
    ∃ methods ver rsv atyp body, ReachesConnect s methods ver rsv atyp body := by
  match s with
  | [] | [_] => cases h
  | v :: n :: s =>
    by_cases hv : v = 0x05
    · subst hv
      by_cases hn : n.toNat ≤ s.length
      · have hm : (s.take n.toNat).length = n.toNat := by
          rw [List.length_take]
          omega
        have hs : 0x05 :: n :: s = [0x05, UInt8.ofNat (s.take n.toNat).length] ++
            (s.take n.toNat ++ s.drop n.toNat) := by
          rw [hm, UInt8.ofNat_toNat, List.take_append_drop]
          rfl
        rw [hs, tunnelTarget_hello hu (by rw [hm]; exact n.toNat_lt)] at h
        split at h
        · rename_i hr
          obtain ⟨ver, rsv, atyp, body, hb⟩ := handleRequest_connects hr
          exact ⟨_, ver, rsv, atyp, body, by rw [hm]; exact n.toNat_lt, by rw [hs, hb]⟩
        · cases h
      · -- the methods take all that is left
        have h2 : readFull 2 ([0x05, n] ++ s) = ([0x05, n], s, true) := readFull_append rfl
        have hnil : (readFull n.toNat s).2.1 = [] := by
          simp [readFull]
          omega
        change tunnelTarget cfgp ([0x05, n] ++ s) = some t at h
        rw [tunnelTarget, handleSOCKS5, h2] at h
        simp [hu, hnil] at h
        cases h
    · rw [tunnelTarget, handleSOCKS5] at h
      simp [readFull, hv] at h

theorem ReachesConnect.unique (h : ReachesConnect s methods ver rsv atyp body)
    (h' : ReachesConnect s methods' ver' rsv' atyp' body') :
    methods = methods' ∧ ver = ver' ∧ atyp = atyp' ∧ body = body' := by
  have heq := h.eq.symm.trans h'.eq
  simp only [List.cons_append, List.nil_append, List.cons.injEq, true_and] at heq
  have hlen : methods.length = methods'.length := by
    rw [← toNat_ofNat_length h.methods_lt, heq.1, toNat_ofNat_length h'.methods_lt]
  obtain ⟨hm, htail⟩ := List.append_inj heq.2 hlen
  simp only [List.cons.injEq, true_and] at htail
  exact ⟨hm, htail.1, htail.2.2.1, htail.2.2.2⟩

theorem WellFormed.opens (hu : cfgp.username = []) (h : WellFormed s t) :
    tunnelTarget cfgp s = some t := by
  obtain ⟨methods, rsv, a, hi, lo, rest, hm, -, rfl, rfl⟩ := h
  rw [tunnelTarget_hello hu hm, handleRequest_connect]
  simp [strategyRefuses]

theorem WellFormed.reaches (h : WellFormed s t) : ∃ methods rsv atyp body,
    ReachesConnect s methods 0x05 rsv atyp body ∧ 0x00 ∈ methods ∧ CompleteBody atyp body := by
  obtain ⟨methods, rsv, a, hi, lo, rest, hm, h0, rfl, -⟩ := h
  refine ⟨methods, rsv, a.atyp, a.field ++ [hi, lo] ++ rest, ⟨hm, ?_⟩, h0, ?_⟩
  · simp [connectRequest]
  · exact completeBody_iff.mpr ⟨a, hi, lo, rest, rfl, rfl⟩

theorem wellFormed_of_reaches (h : ReachesConnect s methods 0x05 rsv atyp body)
    (h0 : 0x00 ∈ methods) (hb : CompleteBody atyp body) : ∃ t, WellFormed s t := by
  obtain ⟨a, hi, lo, rest, rfl, rfl⟩ := completeBody_iff.mp hb
  refine ⟨_, methods, rsv, a, hi, lo, rest, h.methods_lt, h0, ?_, rfl⟩
  rw [h.eq]
  simp [connectRequest]

theorem opens_well_formed_iff (hu : cfgp.username = []) :
    (∀ t, tunnelTarget cfgp s = some t ↔ WellFormed s t) ↔ ConnectIsComplete s := by
  constructor
  · intro hall methods ver rsv atyp body hr
    obtain ⟨t, ht⟩ := tunnelTarget_of_reaches hu hr
    obtain ⟨methods', rsv', atyp', body', hr', h0, hb⟩ := ((hall t).mp ht).reaches
    obtain ⟨rfl, rfl, rfl, rfl⟩ := hr'.unique hr
    exact ⟨h0, rfl, hb⟩
  · intro hcomplete t
    refine ⟨fun ht => ?_, WellFormed.opens hu⟩
    obtain ⟨methods, ver, rsv, atyp, body, hr⟩ := reaches_of_tunnelTarget hu ht
    obtain ⟨h0, rfl, hb⟩ := hcomplete _ _ _ _ _ hr
    obtain ⟨t', hw⟩ := wellFormed_of_reaches hr h0 hb
    rw [hw.opens hu] at ht
    cases ht
    exact hw

theorem opens_well_formed_iff_open :
    (∀ t, tunnelTarget ⟨[], [], []⟩ [0x05, 1, 0, 0x05, 1, 0, 1, 192, 0, 2, 1, 0, 53] = some t ↔
        WellFormed [0x05, 1, 0, 0x05, 1, 0, 1, 192, 0, 2, 1, 0, 53] t) ↔
      ConnectIsComplete [0x05, 1, 0, 0x05, 1, 0, 1, 192, 0, 2, 1, 0, 53] :=
  opens_well_formed_iff rfl

/-- A request cut off after its address type opens a tunnel stream to `0.0.0.0:0`. -/
theorem truncated_request_opens :
    tunnelTarget ⟨[], [], []⟩ [0x05, 1, 0, 0x05, 1, 0, 1] =
      some [48, 46, 48, 46, 48, 46, 48, 58, 48] ∧
    ¬ ∀ t, tunnelTarget ⟨[], [], []⟩ [0x05, 1, 0, 0x05, 1, 0, 1] = some t ↔
      WellFormed [0x05, 1, 0, 0x05, 1, 0, 1] t := by
  refine ⟨by decide, ?_⟩
  rw [opens_well_formed_iff rfl]
  intro hcomplete
  have hr : ReachesConnect [0x05, 1, 0, 0x05, 1, 0, 1] [0] 0x05 0 1 [] := ⟨by decide, rfl⟩
  rcases (hcomplete _ _ _ _ _ hr).2.2 with ⟨-, h⟩ | ⟨h, -⟩ | ⟨h, -⟩
  · exact absurd h (by decide)
  · exact absurd h (by decide)
  · exact absurd h (by decide)

end XTunnel.Socks5
