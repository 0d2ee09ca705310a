import XTunnel.Dns.Wire
import XTunnel.Loop
import XTunnel.Net.Base64

/-! `parseDNSResponse` and `parseHTTPSRecord` with every index and slice expression that they
evaluate, and their safety on any input. -/
namespace XTunnel.Ech

open Net Loop Outcome

def typeHTTPS : Nat := 65

/-- `binary.BigEndian.Uint16` -/
def uint16 (b : Text) : Outcome Nat := do
  let lo ← index b 1
  let hi ← index b 0
  pure (hi.toNat * 256 + lo.toNat)

/-- One iteration over the labels of a name. -/
def labelStep (b : Text) (offset : Nat) : Outcome (Nat ⊕ Nat) :=
  if offset < b.length then do
    let x ← index b offset
    if x ≠ 0 then pure (.inl (offset + (x.toNat + 1))) else pure (.inr offset)
  else pure (.inr offset)

def skipLabels (fuel : Nat) (b : Text) (offset : Nat) : Outcome Nat := loop (labelStep b) fuel offset

/-- One iteration over the parameters of an HTTPS record. -/
def paramStep (data : Text) (offset : Nat) : Outcome (Nat ⊕ Text) :=
  if offset + 4 ≤ data.length then do
    let key ← slice data offset (offset + 2) >>= uint16
    let length ← slice data (offset + 2) (offset + 4) >>= uint16
    let offset := offset + 4
    if offset + length > data.length then pure (.inr [])
    else do
      let value ← slice data offset (offset + length)
      if key = 5 then pure (.inr (Base64.encodeToString value)) else pure (.inl (offset + length))
  else pure (.inr [])

/-- `offset < len(data) && data[offset] == 0` -/
def rootAt (data : Text) (offset : Nat) : Outcome Bool :=
  if offset < data.length then do
    let x ← index data offset
    pure (x == 0)
  else pure false

/-- The offset behind the target name of an HTTPS record. -/
def skipTarget (fuel : Nat) (data : Text) : Outcome Nat := do
  let root ← rootAt data 2
  if root then pure 3
  else do
    let offset ← skipLabels fuel data 2
    pure (offset + 1)

def parseHTTPSRecord (fuel : Nat) (data : Text) : Outcome Text :=
  if data.length < 2 then pure []
  else do
    let offset ← skipTarget fuel data
    loop (paramStep data) fuel offset

/-- The offset behind the owner name of a record. -/
def skipOwner (fuel : Nat) (response : Text) (offset : Nat) : Outcome Nat := do
  let x ← index response offset
  if x &&& 0xC0 = 0xC0 then pure (offset + 2)
  else do
    let offset ← skipLabels fuel response offset
    pure (offset + 1)

/-- One iteration over the answers: record `i`, at an offset. -/
def recordStep (fuel : Nat) (response : Text) (ancount : Nat) (s : Nat × Nat) :
    Outcome (Nat × Nat ⊕ Text) :=
  let (i, offset) := s
  if i < ancount then
    if offset ≥ response.length then pure (.inr [])
    else do
      let offset ← skipOwner fuel response offset
      if offset + 10 > response.length then pure (.inr [])
      else do
        let rrType ← slice response offset (offset + 2) >>= uint16
        let offset := offset + 8
        let dataLen ← slice response offset (offset + 2) >>= uint16
        let offset := offset + 2
        if offset + dataLen > response.length then pure (.inr [])
        else do
          let data ← slice response offset (offset + dataLen)
          let offset := offset + dataLen
          if rrType = typeHTTPS then do
            let ech ← parseHTTPSRecord fuel data
            if ech ≠ [] then pure (.inr ech) else pure (.inl (i + 1, offset))
          else pure (.inl (i + 1, offset))
  else pure (.inr [])

/-- The offset behind the question section, as it is skipped. -/
def skipQuestion (fuel : Nat) (response : Text) : Outcome Nat := do
  let offset ← skipLabels fuel response 12
  pure (offset + 5)

/-- Each loop has at most `fuel` iterations. -/
def parseDNSResponse (fuel : Nat) (response : Text) : Outcome (Except String Text) :=
  if response.length < 12 then pure (.error "响应过短")
  else do
    let ancount ← slice response 6 8 >>= uint16
    if ancount = 0 then pure (.error "无答案记录")
    else do
      let offset ← skipQuestion fuel response
      let ech ← loop (recordStep fuel response ancount) fuel (0, offset)
      pure (.ok ech)

/-- The text is empty, or the base64 of a part of the bytes. -/
def FromPart (b ech : Text) : Prop := ech ≠ [] → ∃ v, v <:+: b ∧ ech = Base64.encodeToString v

variable {b : Text} {lo hi off off' fuel ancount i n : Nat} {P : Nat → Prop}

theorem uint16_returns (h : b.length = 2) (hP : ∀ n, P n) : (uint16 b).Returns P := by
  rw [uint16, index_of_lt (by omega), done_bind, index_of_lt (by omega), done_bind]
  exact hP _

/-- A number in two bytes inside is read. -/
theorem field_returns (lo : Nat) (h : lo + 2 ≤ b.length) (hP : ∀ n, P n) :
    (slice b lo (lo + 2) >>= uint16).Returns P := by
  rw [slice_of_le (Nat.le_add_right lo 2) h, done_bind]
  refine uint16_returns ?_ hP
  rw [length_take_drop h]
  omega

theorem labelStep_returns (b : Text) (off : Nat) : (labelStep b off).Returns fun
    | .inl off' => off < off' ∧ off < b.length
    | .inr off' => off' = off := by
  unfold labelStep
  split
  · rename_i h
    rw [index_of_lt h, done_bind]
    split
    · exact ⟨by omega, h⟩
    · exact rfl
  · exact rfl

theorem skipLabels_returns (h : b.length < fuel) :
    (skipLabels fuel b off).Returns fun off' => off ≤ off' := by
  refine loop_returns (fun o => off ≤ o) (fun o => b.length - o) (fun o ho => ?_)
    (le_refl off) (by omega)
  refine (labelStep_returns b o).mono fun next hn => ?_
  cases next with
  | inl o' => exact ⟨by omega, by omega⟩
  | inr o' => exact hn ▸ ho

theorem take_drop_infix {k : Nat} : (b.drop lo).take k <:+: b :=
  (List.take_prefix _ _).isInfix.trans (List.drop_suffix _ _).isInfix

theorem paramStep_returns (b : Text) (off : Nat) : (paramStep b off).Returns fun
    | .inl off' => off < off' ∧ off < b.length
    | .inr ech => FromPart b ech := by
  unfold paramStep
  split
  · rename_i h
    rw [returns_bind]
    refine field_returns off (by omega) fun key => ?_
    rw [returns_bind]
    refine field_returns (off + 2) (by omega) fun length => ?_
    dsimp only
    split
    · exact fun hne => absurd rfl hne
    · rename_i hlen
      rw [slice_of_le (by omega) (by omega), done_bind]
      split
      · exact fun _ => ⟨_, take_drop_infix, rfl⟩
      · exact ⟨by omega, by omega⟩
  · exact fun hne => absurd rfl hne

theorem rootAt_returns : (rootAt b off).Returns fun _ => True := by
  unfold rootAt
  split
  · rename_i h
    rw [index_of_lt h]
    exact trivial
  · exact trivial

theorem skipTarget_returns (h : b.length < fuel) : (skipTarget fuel b).Returns fun _ => True := by
  unfold skipTarget
  rw [returns_bind]
  refine rootAt_returns.mono fun root _ => ?_
  split
  · exact trivial
  · rw [returns_bind]
    exact (skipLabels_returns h).mono fun _ _ => trivial

theorem parseHTTPSRecord_returns (h : b.length < fuel) :
    (parseHTTPSRecord fuel b).Returns (FromPart b) := by
  unfold parseHTTPSRecord
  split
  · exact fun hne => absurd rfl hne
  · rw [returns_bind]
    refine (skipTarget_returns h).mono fun off _ => ?_
    refine loop_returns (fun _ => True) (fun o => b.length - o) (fun o _ => ?_)
      trivial (by omega)
    refine (paramStep_returns b o).mono fun next hn => ?_
    cases next with
    | inl o' => exact ⟨trivial, by omega⟩
    | inr ech => exact hn

theorem skipOwner_returns (h : b.length < fuel) (hoff : off < b.length) :
    (skipOwner fuel b off).Returns fun off' => off < off' := by
  unfold skipOwner
  rw [index_of_lt hoff, done_bind]
  split
  · exact Nat.lt_add_of_pos_right (by decide)
  · rw [returns_bind]
    exact (skipLabels_returns h).mono fun off' hle => Nat.lt_succ_of_le hle

theorem recordStep_returns (h : b.length < fuel) (ancount i off : Nat) :
    (recordStep fuel b ancount (i, off)).Returns fun
      | .inl s => off < s.2 ∧ off < b.length
      | .inr ech => FromPart b ech := by
  have hnone : FromPart b [] := fun hne => absurd rfl hne
  unfold recordStep
  dsimp only
  split
  · split
    · exact hnone
    · rename_i hoff
      rw [returns_bind]
      refine (skipOwner_returns h (by omega)).mono fun off' hlt => ?_
      split
      · exact hnone
      · rename_i hbody
        rw [returns_bind]
        refine field_returns off' (by omega) fun rrType => ?_
        rw [returns_bind]
        refine field_returns (off' + 8) (by omega) fun dataLen => ?_
        split
        · exact hnone
        · rename_i hdata
          rw [slice_of_le (by omega) (by omega), done_bind]
          have hpart : ((b.drop (off' + 8 + 2)).take (off' + 8 + 2 + dataLen - (off' + 8 + 2))) <:+:
            b := take_drop_infix
          split
          · rw [returns_bind]
            have hlen := hpart.length_le
            refine (parseHTTPSRecord_returns (by omega)).mono fun ech hech => ?_
            split
            · intro hne
              obtain ⟨v, hv, he⟩ := hech hne
              exact ⟨v, hv.trans hpart, he⟩
            · exact ⟨by omega, by omega⟩
          · exact ⟨by omega, by omega⟩
  · exact hnone

theorem parseDNSResponse_returns (h : b.length < fuel) : (parseDNSResponse fuel b).Returns fun
    | .ok ech => FromPart b ech
    | .error _ => True := by
  unfold parseDNSResponse
  split
  · exact trivial
  · rename_i h12
    rw [returns_bind]
    refine field_returns 6 (by omega) fun ancount => ?_
    split
    · exact trivial
    · rw [returns_bind, skipQuestion, returns_bind]
      refine (skipLabels_returns h).mono fun off _ => ?_
      rw [pure_eq, returns_done, returns_bind]
      refine loop_returns (fun _ => True) (fun s => b.length - s.2) (fun s _ => ?_)
        trivial (by omega)
      refine (recordStep_returns h ancount s.1 s.2).mono fun next hn => ?_
      cases next with
      | inl s' => exact ⟨trivial, by omega⟩
      | inr ech => exact hn

/-- What the parser does on any bytes: every iteration of its loops moves forward, and it returns,
with no panic, at most a part of them. -/
structure ParserSafe (b : Text) : Prop where
  label_forward : ∀ off off', labelStep b off = done (.inl off') → off < off'
  param_forward : ∀ off off', paramStep b off = done (.inl off') → off < off'
  record_forward : ∀ fuel ancount i off s, b.length < fuel →
    recordStep fuel b ancount (i, off) = done (.inl s) → off < s.2
  record_returns : ∀ fuel, b.length < fuel → (parseHTTPSRecord fuel b).Returns (FromPart b)
  response_returns : ∀ fuel, b.length < fuel → (parseDNSResponse fuel b).Returns fun
    | .ok ech => FromPart b ech
    | .error _ => True

theorem parser_safe (b : Text) : ParserSafe b where
  label_forward off off' h := by
    have hr := labelStep_returns b off
    rw [h] at hr
    exact hr.1
  param_forward off off' h := by
    have hr := paramStep_returns b off
    rw [h] at hr
    exact hr.1
  record_forward fuel ancount i off s hf h := by
    have hr := recordStep_returns hf ancount i off
    rw [h] at hr
    exact hr.1
  record_returns fuel hf := parseHTTPSRecord_returns hf
  response_returns fuel hf := parseDNSResponse_returns hf

end XTunnel.Ech
