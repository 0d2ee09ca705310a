import XTunnel.Ech.Query

/-! What `parseDNSResponse` finds in well-formed responses. -/
namespace XTunnel.Ech

open Net Loop Outcome
open Dns (At Name Question Record Message NameAt RecordAt Items be)

/-- The data of an HTTPS record. -/
structure HTTPS where
  priority : Nat
  target : Name
  params : List (Nat × Text)

def paramBytes (p : Nat × Text) : Text := be 2 p.1 ++ (be 2 p.2.length ++ p.2)

namespace HTTPS

def encode (h : HTTPS) : Text :=
  be 2 h.priority ++ (h.target.encode ++ h.params.flatMap paramBytes)

/-- The keys of the parameters are in ascending order. -/
structure Valid (h : HTTPS) : Prop where
  priority : h.priority < 65536
  target : h.target.Valid
  params : ∀ p ∈ h.params, p.1 < 65536 ∧ p.2.length < 65536
  keys : h.params.Pairwise fun p p' => p.1 < p'.1

/-- The value of the first parameter with key 5 that is not empty. -/
def ech (h : HTTPS) : Option Text :=
  (h.params.find? fun p => p.1 = 5 ∧ p.2 ≠ []).map Prod.snd

end HTTPS

/-- An answer record where it stands, with its data if it is an HTTPS record. -/
structure Answer where
  off : Nat
  record : Record
  https : Option HTTPS

namespace Answer

def ech (a : Answer) : Option Text := a.https.bind HTTPS.ech

def WellFormed (a : Answer) : Prop :=
  match a.https with
  | some h => a.record.rtype = typeHTTPS ∧ h.Valid ∧ a.record.rdata = h.encode
  | none => a.record.rtype ≠ typeHTTPS

/-- The owner name is written out in full, or is a pointer alone. -/
def Aligned (msg : Text) (a : Answer) : Prop :=
  At msg a.off a.record.name.encode ∨ ∃ t < 0x4000, At msg a.off (be 2 (0xc000 + t))

end Answer

inductive AnswerAt (msg : Text) (prior : List (Nat × Name)) :
    Nat → Answer → Nat → List (Nat × Name) → Prop
  | mk {e : Nat} {a : Answer} {occ : List (Nat × Name)} :
      RecordAt msg prior a.off a.record e occ → a.WellFormed → AnswerAt msg prior a.off a e occ

/-- A well-formed response to one question, with its answers. -/
structure Response (msg : Text) (q : Question) (answers : List Answer) : Prop where
  parses : ∃ m, Dns.Parses msg m ∧ m.questions = [q] ∧ m.answers = answers.map Answer.record
  answers : ∃ e prior, Items (AnswerAt msg) (q.name.occurrences 12) (12 + q.encode.length) answers
    e prior

/-- What the parser is for: the first non-empty value, in the order of the answers. -/
def extracted (answers : List Answer) : Except String Text :=
  if answers = [] then .error "无答案记录"
  else .ok ((answers.findSome? Answer.ech).elim [] Base64.encodeToString)

/-- Up to the first answer with a value, every owner name keeps the parser aligned. -/
def OwnersAligned (msg : Text) (answers : List Answer) : Prop :=
  ∀ pre a post, answers = pre ++ a :: post → (∀ b ∈ pre, b.ech = none) → a.Aligned msg

variable {msg xs data : Text} {off e fuel n i ancount : Nat} {name : Name} {a : Answer}
  {prior prior' occ : List (Nat × Name)} {q : Question} {as : List Answer} {h : HTTPS}
  {ps : List (Nat × Text)} {x : UInt8}

theorem slice_at (h : At msg off xs) (hle : off + xs.length ≤ msg.length) :
    slice msg off (off + xs.length) = done xs := by
  rw [slice_of_le (Nat.le_add_right _ _) hle, Nat.add_sub_cancel_left]
  obtain ⟨t, ht⟩ := h
  rw [← ht, List.take_left]

theorem uint16_be (hn : n < 65536) : uint16 (be 2 n) = done n := by
  have h1 : index (be 2 n) 1 = done (UInt8.ofNat n) := rfl
  have h0 : index (be 2 n) 0 = done (UInt8.ofNat (n / 256)) := rfl
  rw [uint16, h1, done_bind, h0, done_bind, pure_eq, UInt8.toNat_ofNat', UInt8.toNat_ofNat']
  congr 1
  omega

/-- A number that stands in two bytes is read. -/
theorem field_at (h : At msg off (be 2 n)) (hn : n < 65536) :
    (slice msg off (off + 2) >>= uint16) = done n := by
  have hle := h.length_le (by simp [Dns.be_two])
  have hs := slice_at h hle
  rw [Dns.length_be] at hs
  rw [hs, done_bind, uint16_be hn]

theorem pointer_bits (x : UInt8) : x &&& 0xC0 = 0xC0 ↔ 192 ≤ x.toNat := by
  have hall : ∀ n < 256, UInt8.ofNat n &&& 0xC0 = 0xC0 ↔ 192 ≤ n := by decide +kernel
  have hx := hall x.toNat x.toNat_lt
  rwa [UInt8.ofNat_toNat] at hx

theorem skipOwner_encode (hl : ∀ l ∈ name, 0 < l.length ∧ l.length < 64)
    (h : At msg off name.encode) (hf : msg.length < fuel) :
    skipOwner fuel msg off = done (off + name.encode.length) := by
  have hlen := name_length_le name
  have hskip := skipLabels_name hl h hf
  have hhead : ∃ x xs, name.encode = x :: xs ∧ x.toNat < 64 := by
    cases name with
    | nil => exact ⟨0, [], rfl, by decide⟩
    | cons l name =>
      have hlt := (List.forall_mem_cons.mp hl).1.2
      exact ⟨_, _, Name.encode_cons l name, by rw [Dns.toNat_length hlt]; exact hlt⟩
  obtain ⟨x, xs, hx, hlt⟩ := hhead
  have hbits : ¬ (x &&& 0xC0 = 0xC0) := by
    rw [pointer_bits]
    omega
  rw [skipOwner, index_at (hx ▸ h), done_bind, if_neg hbits, hskip, done_bind, pure_eq]
  congr 1
  omega

theorem skipOwner_pointer {t : Nat} (ht : t < 0x4000) (h : At msg off (be 2 (0xc000 + t))) :
    skipOwner fuel msg off = done (off + 2) := by
  have hbits : UInt8.ofNat ((0xc000 + t) / 256) &&& 0xC0 = 0xC0 := by
    rw [pointer_bits, UInt8.toNat_ofNat']
    omega
  rw [Dns.be_two] at h
  rw [skipOwner, index_at h, done_bind, if_pos hbits]
  rfl

/-- An aligned owner name is skipped to where it ends. -/
theorem skipOwner_aligned (ha : a.Aligned msg) (hv : a.record.Valid)
    (hn : NameAt msg prior a.off a.record.name e occ) (hf : msg.length < fuel) :
    skipOwner fuel msg a.off = done e := by
  rcases ha with hat | ⟨t, ht, hat⟩
  · obtain ⟨rfl, -⟩ := (Dns.nameAt_encode hv.name.label hat).mp hn
    exact skipOwner_encode hv.name.label hat hf
  · obtain ⟨-, rfl, -⟩ := (Dns.nameAt_pointer ht hat).mp hn
    exact skipOwner_pointer ht hat

theorem skipTarget_encode (hl : ∀ l ∈ name, 0 < l.length ∧ l.length < 64)
    (h : At data 2 name.encode) (hf : data.length < fuel) :
    skipTarget fuel data = done (2 + name.encode.length) := by
  have hlen := name_length_le name
  have hle := h.length_le (List.ne_nil_of_length_pos (by omega))
  have hskip := skipLabels_name hl h hf
  cases name with
  | nil =>
    have h0 : At data 2 [0] := h
    have hroot : rootAt data 2 = done true := by
      rw [rootAt, if_pos (by omega), index_at h0]
      rfl
    rw [skipTarget, hroot]
    rfl
  | cons l name =>
    obtain ⟨hpos, hlt⟩ := (List.forall_mem_cons.mp hl).1
    have hx := Dns.toNat_length hlt
    have hne : (UInt8.ofNat l.length == 0) = false := by
      rw [beq_eq_false_iff_ne]
      intro h0
      rw [h0] at hx
      exact absurd hx (Nat.ne_of_lt hpos)
    have hhead := h
    rw [Name.encode_cons] at hhead
    have hroot : rootAt data 2 = done false := by
      rw [rootAt, if_pos (by omega), index_at hhead, done_bind, hne]
      rfl
    rw [skipTarget, hroot, done_bind, if_neg Bool.false_ne_true, hskip, done_bind, pure_eq]
    congr 1

/-- One parameter is read as it is written. -/
theorem paramStep_at {p : Nat × Text} (hp : p.1 < 65536 ∧ p.2.length < 65536)
    (h : At data off (paramBytes p)) : paramStep data off =
      if p.1 = 5 then done (.inr (Base64.encodeToString p.2))
      else done (.inl (off + (paramBytes p).length)) := by
  have hlen : (paramBytes p).length = 4 + p.2.length := by
    rw [paramBytes, List.length_append, List.length_append, Dns.length_be, Dns.length_be]
    omega
  have hle := h.length_le (List.ne_nil_of_length_pos (by omega))
  rw [paramBytes, Dns.at_append, Dns.at_append, Dns.length_be, Dns.length_be] at h
  obtain ⟨hkey, hlength, hvalue⟩ := h
  have hval := slice_at hvalue (by omega)
  have hfield := field_at hlength hp.2
  rw [paramStep, if_pos (by omega), field_at hkey hp.1, done_bind, hfield, done_bind]
  dsimp only
  rw [if_neg (by omega), hval, done_bind]
  split
  · rfl
  · rw [hlen, pure_eq, Nat.add_assoc]

theorem params_loop (hp : ∀ p ∈ ps, p.1 < 65536 ∧ p.2.length < 65536)
    (h : At data off (ps.flatMap paramBytes))
    (hend : off + (ps.flatMap paramBytes).length = data.length) (hf : data.length - off < fuel) :
    loop (paramStep data) fuel off =
      done ((ps.find? (·.1 = 5)).elim [] fun p => Base64.encodeToString p.2) := by
  induction ps generalizing off fuel with
  | nil =>
    obtain ⟨fuel, rfl⟩ := Nat.exists_eq_succ_of_ne_zero (Nat.ne_zero_of_lt hf)
    rw [List.flatMap_nil, List.length_nil, Nat.add_zero] at hend
    refine loop_exit ?_
    rw [paramStep, if_neg (by omega)]
    rfl
  | cons p ps ih =>
    obtain ⟨hp1, hp⟩ := List.forall_mem_cons.mp hp
    rw [List.flatMap_cons, Dns.at_append] at h
    rw [List.flatMap_cons, List.length_append] at hend
    have hpos : 0 < (paramBytes p).length := by
      rw [paramBytes, List.length_append, Dns.length_be]
      omega
    have hstep := paramStep_at hp1 h.1
    obtain ⟨fuel, rfl⟩ := Nat.exists_eq_succ_of_ne_zero (Nat.ne_zero_of_lt hf)
    by_cases h5 : p.1 = 5
    · rw [if_pos h5] at hstep
      rw [loop_exit hstep, List.find?_cons_of_pos (by simpa using h5)]
      rfl
    · rw [if_neg h5] at hstep
      rw [loop_next hstep, List.find?_cons_of_neg (by simpa using h5)]
      exact ih hp h.2 (by omega) (by omega)

/-- With the keys in order there is at most one value to find. -/
theorem find_ech (hk : ps.Pairwise fun p p' => p.1 < p'.1) :
    ((ps.find? (·.1 = 5)).elim [] fun p => Base64.encodeToString p.2) =
      ((ps.find? fun p => p.1 = 5 ∧ p.2 ≠ []).map Prod.snd).elim [] Base64.encodeToString := by
  induction ps with
  | nil => rfl
  | cons p ps ih =>
    obtain ⟨hp, hk⟩ := List.pairwise_cons.mp hk
    by_cases h5 : p.1 = 5
    · rw [List.find?_cons_of_pos (by simpa using h5)]
      by_cases hv : p.2 = []
      · have hrest : ps.find? (fun p => p.1 = 5 ∧ p.2 ≠ []) = none := by
          rw [List.find?_eq_none]
          intro p' hp' hmatch
          have hlt := hp p' hp'
          have heq := (of_decide_eq_true hmatch).1
          omega
        rw [List.find?_cons_of_neg (by simp [hv]), hrest, Option.elim_some, hv]
        rfl
      · rw [List.find?_cons_of_pos (by simpa using ⟨h5, hv⟩)]
        rfl
    · rw [List.find?_cons_of_neg (by simpa using h5), List.find?_cons_of_neg (by simp [h5])]
      exact ih hk

theorem parseHTTPSRecord_encode (hv : h.Valid) (hf : h.encode.length < fuel) :
    parseHTTPSRecord fuel h.encode = done (h.ech.elim [] Base64.encodeToString) := by
  have hlen : h.encode.length =
      2 + h.target.encode.length + (h.params.flatMap paramBytes).length := by
    rw [HTTPS.encode, List.length_append, List.length_append, Dns.length_be]
    omega
  have hat : At h.encode 0 (be 2 h.priority ++ (h.target.encode ++ h.params.flatMap paramBytes)) :=
    List.prefix_rfl
  rw [Dns.at_append, Dns.at_append, Dns.length_be, Nat.zero_add] at hat
  obtain ⟨-, htarget, hparams⟩ := hat
  rw [parseHTTPSRecord, if_neg (by omega), skipTarget_encode hv.target.label htarget hf, done_bind,
    params_loop hv.params hparams hlen.symm (by omega), find_ech hv.keys]
  rfl

theorem HTTPS.ech_ne_nil {v : Text} (he : h.ech = some v) : v ≠ [] := by
  obtain ⟨p, hp, rfl⟩ := Option.map_eq_some_iff.mp he
  have hmatch := List.find?_some hp
  exact (of_decide_eq_true hmatch).2

/-- One aligned answer: its value ends the loop, and without one the loop goes on behind it. -/
theorem recordStep_at (hr : RecordAt msg prior a.off a.record e occ) (hw : a.WellFormed)
    (ha : a.Aligned msg) (hi : i < ancount) (hf : msg.length < fuel) :
    recordStep fuel msg ancount (i, a.off) =
      match a.ech with
      | some v => done (.inr (Base64.encodeToString v))
      | none => done (.inl (i + 1, e)) := by
  cases hr with
  | mk hv hn hb =>
    have hoff := Dns.nameAt_lt hn
    have hlen : a.record.body.length = 10 + a.record.rdata.length := by
      simp only [Record.body, List.length_append, Dns.length_be]
    have hle := hb.length_le (List.ne_nil_of_length_pos (by omega))
    simp only [Record.body, Dns.at_append, List.length_append, Dns.length_be] at hb
    obtain ⟨⟨⟨⟨htype, -⟩, -⟩, hrdlen⟩, hrdata⟩ := hb
    have hdata := slice_at hrdata (by omega)
    rw [recordStep]
    dsimp only
    rw [if_pos hi, if_neg (by omega), skipOwner_aligned ha hv hn hf, done_bind, if_neg (by omega),
      field_at htype hv.rtype, done_bind, field_at hrdlen hv.rdata, done_bind, if_neg (by omega),
      hdata, done_bind]
    unfold Answer.WellFormed at hw
    split at hw
    · rename_i h hh
      obtain ⟨ht, hhv, hd⟩ := hw
      have hfuel : h.encode.length < fuel := by
        rw [← hd]
        omega
      have hrec := parseHTTPSRecord_encode hhv hfuel
      rw [if_pos ht, hd, hrec, done_bind, Answer.ech, hh, Option.bind_some]
      cases he : h.ech with
      | none => rfl
      | some v =>
        have hne : Base64.encodeToString v ≠ [] := fun h0 =>
          h.ech_ne_nil he (Base64.encodeToString_eq_nil.mp h0)
        exact if_pos hne
    · rename_i hh
      rw [if_neg hw, Answer.ech, hh]
      rfl

theorem answers_loop (hi : Items (AnswerAt msg) prior off as e prior') (hown : OwnersAligned msg as)
    (hcount : n + as.length = ancount) (hf : msg.length < fuel) {k : Nat}
    (hk : msg.length - off < k) : loop (recordStep fuel msg ancount) k (n, off) =
      done ((as.findSome? Answer.ech).elim [] Base64.encodeToString) := by
  induction hi generalizing n k with
  | nil =>
    obtain ⟨k, rfl⟩ := Nat.exists_eq_succ_of_ne_zero (Nat.ne_zero_of_lt hk)
    refine loop_exit ?_
    rw [recordStep]
    exact if_neg (by rw [List.length_nil] at hcount; omega)
  | @cons _ _ _ _ m _ a as ha _ ih =>
    cases ha with
    | mk hr hw =>
      rw [List.length_cons] at hcount
      have hstep := recordStep_at (i := n) hr hw (hown [] a as rfl (by simp))
        (show n < ancount by omega) hf
      obtain ⟨k, rfl⟩ := Nat.exists_eq_succ_of_ne_zero (Nat.ne_zero_of_lt hk)
      rw [List.findSome?_cons]
      cases he : a.ech with
      | some v =>
        rw [he] at hstep
        exact loop_exit hstep
      | none =>
        rw [he] at hstep
        rw [loop_next hstep]
        have hlt : a.off < msg.length ∧ a.off < m := by
          cases hr with
          | mk _ hn _ => exact ⟨Dns.nameAt_lt hn, by have hend := Dns.nameAt_end hn; omega⟩
        refine ih (fun pre b post hpost hpre => ?_) (by omega) (by omega)
        refine hown (a :: pre) b post (by rw [hpost]; rfl) fun c hc => ?_
        rcases List.mem_cons.mp hc with rfl | hc
        · exact he
        · exact hpre c hc

theorem parseDNSResponse_extracted (hr : Response msg q as) (hown : OwnersAligned msg as)
    (hf : msg.length < fuel) : parseDNSResponse fuel msg = done (extracted as) := by
  obtain ⟨m, hp, hq, has⟩ := hr.parses
  obtain ⟨e, prior, hitems⟩ := hr.answers
  have h12 : 12 ≤ msg.length := by
    have hle := hp.header.length_le (List.ne_nil_of_length_pos (by simp))
    rw [Dns.length_header] at hle
    omega
  have hcount : as.length < 65536 := by
    rw [← List.length_map Answer.record, ← has]
    exact hp.counts.2.2.2.1
  have hfield : At msg 6 (be 2 as.length) := by
    have hh := hp.header
    simp only [Dns.header, Dns.at_append, List.length_append, Dns.length_be, has,
      List.length_map] at hh
    exact hh.1.1.2
  have hquest := hp.question_at hq
  have hskip := skipQuestion_encode hquest.1 hquest.2 hf
  rw [parseDNSResponse, if_neg (by omega), field_at hfield hcount, done_bind, extracted]
  by_cases hnil : as = []
  · rw [if_pos hnil, if_pos (by rw [hnil]; rfl)]
    rfl
  · rw [if_neg hnil, if_neg (by simpa using hnil), hskip, done_bind,
      answers_loop hitems hown (Nat.zero_add _) hf (by omega), done_bind, pure_eq]

theorem items_answers {rs : List Record} (hi : Items (RecordAt msg) prior off rs e prior')
    (hc : ∀ r ∈ rs, r.rtype = typeHTTPS → ∃ h : HTTPS, h.Valid ∧ r.rdata = h.encode) :
    ∃ as, Items (AnswerAt msg) prior off as e prior' ∧ rs = as.map Answer.record := by
  induction hi with
  | nil => exact ⟨[], .nil, rfl⟩
  | @cons _ _ _ off _ _ r rs hr _ ih =>
    obtain ⟨hr5, hc⟩ := List.forall_mem_cons.mp hc
    obtain ⟨as, has, rfl⟩ := ih hc
    by_cases ht : r.rtype = typeHTTPS
    · obtain ⟨h, hv, hd⟩ := hr5 ht
      have hw : Answer.WellFormed ⟨off, r, some h⟩ := ⟨ht, hv, hd⟩
      exact ⟨⟨off, r, some h⟩ :: as, .cons (.mk hr hw) has, rfl⟩
    · have hw : Answer.WellFormed ⟨off, r, none⟩ := ht
      exact ⟨⟨off, r, none⟩ :: as, .cons (.mk hr hw) has, rfl⟩

/-- Every message with one question and well-formed HTTPS records is such a response. -/
theorem exists_response {m : Message} (hp : Dns.Parses msg m) (hq : m.questions = [q])
    (hc : ∀ r ∈ m.answers, r.rtype = typeHTTPS → ∃ h : HTTPS, h.Valid ∧ r.rdata = h.encode) :
    ∃ as, Response msg q as ∧ m.answers = as.map Answer.record := by
  obtain ⟨hv, hat⟩ := hp.question_at hq
  obtain ⟨e₁, e₂, -, p₁, p₂, -, -, hs, ha, -⟩ := hp.sections
  rw [hq] at hs
  cases hs with
  | cons hquest hnil =>
    cases hnil
    obtain ⟨rfl, rfl⟩ := (Dns.questionAt_encode hv hat).mp hquest
    obtain ⟨as, has, he⟩ := items_answers ha hc
    exact ⟨as, ⟨⟨m, hp, hq, he⟩, ⟨e₂, p₂, has⟩⟩, he⟩

/-- A response to the question for `b`, with one HTTPS record that has a value. -/
def responseTo (owner : Text) : Text :=
  Dns.header 0 0x8180 1 1 0 0 ++ ([1, 0x62, 0] ++ be 2 65 ++ be 2 1) ++ (owner ++
    (be 2 65 ++ be 2 1 ++ be 4 60 ++ be 2 8 ++ [0, 1, 0, 0, 5, 0, 1, 7]))

def answerTo (name : Name) : Answer :=
  ⟨19, ⟨name, 65, 1, 60, [0, 1, 0, 0, 5, 0, 1, 7]⟩, some ⟨1, [], [(5, [7])]⟩⟩

theorem response_to {owner : Text} (hv : name.Valid) (hn : NameAt (responseTo owner)
    ((⟨[[0x62]], 65, 1⟩ : Question).name.occurrences 12) 19 name (19 + owner.length) occ)
    (hquest : At (responseTo owner) 12 (⟨[[0x62]], 65, 1⟩ : Question).encode)
    (hhead : At (responseTo owner) 0 (Dns.header 0 0x8180 1 1 0 0))
    (hbody : At (responseTo owner) (19 + owner.length) (answerTo name).record.body) :
    Response (responseTo owner) ⟨[[0x62]], 65, 1⟩ [answerTo name] := by
  have hqv : (⟨[[0x62]], 65, 1⟩ : Question).Valid :=
    ⟨⟨by decide, by decide⟩, by decide, by decide⟩
  have hrv : (answerTo name).record.Valid :=
    ⟨hv, (by decide : 65 < 65536), (by decide : 1 < 65536), (by decide : 60 < 2 ^ 32),
      (by decide : 8 < 65536)⟩
  have hhttps : HTTPS.Valid ⟨1, [], [(5, [7])]⟩ :=
    ⟨by decide, ⟨by decide, by decide⟩, by decide, by decide⟩
  have hw : (answerTo name).WellFormed := ⟨rfl, hhttps, rfl⟩
  have hrec := RecordAt.mk hrv hn hbody .nil
  have hend : 19 + owner.length + 10 + (answerTo name).record.rdata.length =
      (responseTo owner).length := by
    simp [responseTo, answerTo]
    omega
  rw [hend] at hrec
  have hp : Dns.Parses (responseTo owner)
      ⟨0, 0x8180, [⟨[[0x62]], 65, 1⟩], [(answerTo name).record], [], []⟩ := by
    have hcounts : 0 < 65536 ∧ 0x8180 < 65536 ∧ 1 < 65536 ∧ 1 < 65536 ∧ 0 < 65536 ∧ 0 < 65536 := by
      decide
    exact ⟨hhead, hcounts, _, _, _, _, _, _, _, .cons ((Dns.questionAt_encode hqv hquest).mpr
      ⟨rfl, rfl⟩) .nil, .cons hrec .nil, .nil, .nil⟩
  exact ⟨⟨_, hp, rfl, rfl⟩, _, _, .cons (.mk hrec hw) .nil⟩

/-- The question is for `b`, an alias of `c`; the owner of the HTTPS record points to the name in the
data of the alias. -/
def aliasedResponse : Text :=
  Dns.header 0 0x8180 1 2 0 0 ++ ([1, 0x62, 0] ++ be 2 65 ++ be 2 1) ++
    (be 2 0xc00c ++ (be 2 5 ++ be 2 1 ++ be 4 60 ++ be 2 3 ++ [1, 0x63, 0])) ++
    (be 2 0xc01f ++ (be 2 65 ++ be 2 1 ++ be 4 60 ++ be 2 8 ++ [0, 1, 0, 0, 5, 0, 1, 7]))

def aliasedAnswers : List Answer :=
  [⟨19, ⟨[[0x62]], 5, 1, 60, [1, 0x63, 0]⟩, none⟩,
    ⟨34, ⟨[[0x63]], 65, 1, 60, [0, 1, 0, 0, 5, 0, 1, 7]⟩, some ⟨1, [], [(5, [7])]⟩⟩]

theorem response_aliased : Response aliasedResponse ⟨[[0x62]], 65, 1⟩ aliasedAnswers := by
  have hq : (⟨[[0x62]], 65, 1⟩ : Question).Valid := ⟨⟨by decide, by decide⟩, by decide, by decide⟩
  have hquest : Dns.QuestionAt aliasedResponse [] 12 ⟨[[0x62]], 65, 1⟩ _ _ :=
    (Dns.questionAt_encode hq (by decide)).mpr ⟨rfl, rfl⟩
  have howner : NameAt aliasedResponse (Name.occurrences 12 [[0x62]]) 19 [[0x62]] 21 _ :=
    .pointer (by decide) (by decide : At aliasedResponse 19 (be 2 (0xc000 + 12))) (by decide)
  have hlabel : NameAt aliasedResponse (Name.occurrences 12 [[0x62]] ++ [(19, [[0x62]])]) 31 [[0x63]]
      34 _ := .label (by decide) (by decide) (by decide) (.root (by decide))
  have halias : RecordAt aliasedResponse (Name.occurrences 12 [[0x62]]) 19
      ⟨[[0x62]], 5, 1, 60, [1, 0x63, 0]⟩ 34 _ :=
    .mk ⟨⟨by decide, by decide⟩, by decide, by decide, by decide, by decide⟩ howner (by decide)
      (.cons (by decide) (by decide) hlabel .nil)
  have hpointer : NameAt aliasedResponse (Name.occurrences 12 [[0x62]] ++ ([(19, [[0x62]])] ++
      ([(31, [[0x63]]), (33, [])] ++ []))) 34 [[0x63]] 36 _ :=
    .pointer (by decide) (by decide : At aliasedResponse 34 (be 2 (0xc000 + 31))) (by decide)
  have hhttps : RecordAt aliasedResponse (Name.occurrences 12 [[0x62]] ++ ([(19, [[0x62]])] ++
      ([(31, [[0x63]]), (33, [])] ++ []))) 34 ⟨[[0x63]], 65, 1, 60, [0, 1, 0, 0, 5, 0, 1, 7]⟩ 54 _ :=
    .mk ⟨⟨by decide, by decide⟩, by decide, by decide, by decide, by decide⟩ hpointer (by decide) .nil
  have hvalid : HTTPS.Valid ⟨1, [], [(5, [7])]⟩ :=
    ⟨by decide, ⟨by decide, by decide⟩, by decide, by decide⟩
  have hparses : Dns.Parses aliasedResponse
      ⟨0, 0x8180, [⟨[[0x62]], 65, 1⟩], aliasedAnswers.map Answer.record, [], []⟩ :=
    ⟨by decide, by decide, _, _, _, _, _, _, _, .cons hquest .nil,
      .cons halias (.cons hhttps .nil), .nil, .nil⟩
  have hnone : Answer.WellFormed ⟨19, ⟨[[0x62]], 5, 1, 60, [1, 0x63, 0]⟩, none⟩ :=
    (by decide : 5 ≠ typeHTTPS)
  exact ⟨⟨_, hparses, rfl, rfl⟩, _, _, .cons (.mk halias hnone)
    (.cons (.mk hhttps ⟨rfl, hvalid, rfl⟩) .nil)⟩

theorem parseDNSResponse_extracted_aliased :
    parseDNSResponse 100 aliasedResponse = done (extracted aliasedAnswers) ∧
      extracted aliasedAnswers = .ok (Base64.encodeToString [7]) := by
  have hall : ∀ a ∈ aliasedAnswers, a.Aligned aliasedResponse := by
    have hat : At aliasedResponse 19 (be 2 (0xc000 + 12)) ∧
        At aliasedResponse 34 (be 2 (0xc000 + 31)) := by decide
    exact List.forall_mem_cons.mpr ⟨.inr ⟨12, by decide, hat.1⟩,
      List.forall_mem_singleton.mpr (.inr ⟨31, by decide, hat.2⟩)⟩
  refine ⟨parseDNSResponse_extracted response_aliased (fun pre a post he _ => hall a ?_)
    (by decide), rfl⟩
  rw [he]
  exact List.mem_append_right _ List.mem_cons_self

/-- An owner name `a` with a pointer to `b` behind it makes the parser lose the value. -/
theorem mixed_owner_loses_ech : ¬ ∀ msg q as fuel, Response msg q as → msg.length < fuel →
    parseDNSResponse fuel msg = done (extracted as) := by
  intro h
  have hptr : At (responseTo [1, 0x61, 0xc0, 0x0c]) 21 (be 2 (0xc000 + 12)) := by decide
  have hn : NameAt (responseTo [1, 0x61, 0xc0, 0x0c])
      ((⟨[[0x62]], 65, 1⟩ : Question).name.occurrences 12) 19 [[0x61], [0x62]] 23 _ :=
    .label (by decide) (by decide) (by decide) (.pointer (by decide) hptr (by decide))
  have hv : Name.Valid [[0x61], [0x62]] := ⟨by decide, by decide⟩
  have hr := response_to hv hn (by decide) (by decide) (by decide)
  have he := h _ _ _ 100 hr (by decide)
  rw [show parseDNSResponse 100 (responseTo [1, 0x61, 0xc0, 0x0c]) = done (.ok []) by decide] at he
  cases he

end XTunnel.Ech
