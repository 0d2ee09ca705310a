import Mathlib.Data.List.Forall2
import XTunnel.Ech.Response

/-! `buildDNSQuery` against the wire format, and the skip of the question that it writes. -/
namespace XTunnel.Ech

open Net Loop Outcome
open Dns (At Name Question Message be)

def queryHeader : Text :=
  [0x00, 0x01, 0x01, 0x00, 0x00, 0x01, 0x00, 0x00, 0x00, 0x00, 0x00, 0x00]

def buildDNSQuery (domain : Text) (qtype : UInt16) : Text :=
  queryHeader ++
    (domain.splitOn dot).flatMap (fun label => UInt8.ofNat label.length :: label) ++
    ([0x00] : Text) ++ ([(qtype >>> 8).toUInt8, qtype.toUInt8, 0x00, 0x01] : Text)

/-- A domain name as it is written, with or without the trailing dot. -/
def written (name : Name) (trailing : Bool) : Text := name.text ++ if trailing then [dot] else []

/-- The names that can be written: no label holds a dot. -/
structure Writable (name : Name) : Prop where
  label : ∀ l ∈ name, 0 < l.length ∧ l.length ≤ 63 ∧ dot ∉ l
  size : name.text.length ≤ 253

/-- The message asks one question for the name, in class IN, and ends after it; the parser of
responses skips that question up to the end. -/
structure IsQuery (msg : Text) (name : Name) (qtype : Nat) : Prop where
  parses : ∀ m, Dns.Parses msg m ↔ m = ⟨1, 256, [⟨name, qtype, 1⟩], [], [], []⟩
  skips : ∀ fuel, msg.length < fuel → skipQuestion fuel msg = done msg.length

/-- The empty labels that the split finds behind the name. -/
def emptyLabels (name : Name) (trailing : Bool) : Nat :=
  (if name = [] then 1 else 0) + if trailing then 1 else 0

variable {msg : Text} {name : Name} {off fuel qtype : Nat} {trailing : Bool} {l : Text}
  {x : UInt8} {xs : Text}

theorem index_at (h : At msg off (x :: xs)) : index msg off = done x := by
  have hlt : off < msg.length := by
    have hle := h.length_le (List.cons_ne_nil x xs)
    rw [List.length_cons] at hle
    omega
  rw [index_of_lt hlt]
  obtain ⟨t, ht⟩ := h
  rw [List.drop_eq_getElem_cons hlt] at ht
  rw [(List.cons.inj ht).1]

theorem labelStep_at (h : At msg off (x :: xs)) : labelStep msg off =
    if x ≠ 0 then done (.inl (off + (x.toNat + 1))) else done (.inr off) := by
  have hle := h.length_le (List.cons_ne_nil x xs)
  rw [List.length_cons] at hle
  rw [labelStep, if_pos (by omega), index_at h, done_bind]
  rfl

/-- A name that is written out is skipped up to its last byte. -/
theorem skipLabels_encode (hl : ∀ l ∈ name, 0 < l.length ∧ l.length < 64)
    (h : At msg off name.encode) (hf : name.length < fuel) :
    skipLabels fuel msg off = done (off + (name.encode.length - 1)) := by
  obtain ⟨fuel, rfl⟩ := Nat.exists_eq_succ_of_ne_zero (Nat.ne_zero_of_lt hf)
  induction name generalizing off fuel with
  | nil => exact loop_exit (by rw [labelStep_at h]; rfl)
  | cons l name ih =>
    obtain ⟨⟨hpos, hlt⟩, htail⟩ := List.forall_mem_cons.mp hl
    rw [Name.encode_cons, Dns.at_append] at h
    have hx := Dns.toNat_length hlt
    have hne : UInt8.ofNat l.length ≠ 0 := by
      intro h0
      rw [h0] at hx
      exact absurd hx (Nat.ne_of_lt hpos)
    have hstep : labelStep msg off = done (.inl (off + (l.length + 1))) := by
      rw [labelStep_at h.1, if_pos hne, hx]
    have hlen : 0 < (Name.encode name).length := by simp [Name.encode]
    rw [List.length_cons] at hf
    obtain ⟨fuel, rfl⟩ := Nat.exists_eq_succ_of_ne_zero (show fuel ≠ 0 by omega)
    have hrest := ih htail h.2 fuel (by omega)
    rw [skipLabels, List.length_cons] at hrest
    rw [skipLabels, loop_next hstep, hrest, Name.encode_cons, List.length_append, List.length_cons]
    congr 1
    omega

theorem name_length_le (name : Name) : name.length < name.encode.length := by
  induction name with
  | nil => decide
  | cons l name ih =>
    rw [Name.encode_cons, List.length_append, List.length_cons, List.length_cons]
    omega

/-- The length of the message bounds the labels of its names. -/
theorem skipLabels_name (hl : ∀ l ∈ name, 0 < l.length ∧ l.length < 64)
    (h : At msg off name.encode) (hf : msg.length < fuel) :
    skipLabels fuel msg off = done (off + (name.encode.length - 1)) := by
  have hlen := name_length_le name
  have hle := h.length_le (List.ne_nil_of_length_pos (by omega))
  exact skipLabels_encode hl h (by omega)

/-- The question of a message is skipped to its end. -/
theorem skipQuestion_encode {q : Question} (hv : q.Valid) (h : At msg 12 q.encode)
    (hf : msg.length < fuel) : skipQuestion fuel msg = done (12 + q.encode.length) := by
  have hlen := name_length_le q.name
  rw [skipQuestion, skipLabels_name hv.name.label (Dns.at_append.mp h).1 hf, done_bind, pure_eq,
    Question.encode, List.length_append, List.length_append, Dns.length_be, Dns.length_be]
  congr 1
  omega

theorem intercalate_dot (l : Text) (name : Name) :
    [dot].intercalate (l :: name) = l ++ name.flatMap (dot :: ·) := by
  induction name generalizing l with
  | nil => rw [List.intercalate_singleton, List.flatMap_nil, List.append_nil]
  | cons l' name ih =>
    rw [List.intercalate_cons_cons, ih, List.flatMap_cons, List.append_assoc]
    rfl

theorem written_eq : written name trailing =
    [dot].intercalate (name ++ List.replicate (emptyLabels name trailing) []) := by
  cases name with
  | nil => cases trailing <;> rfl
  | cons l name =>
    rw [List.cons_append, intercalate_dot, written, Name.text, emptyLabels]
    cases trailing <;> simp

theorem split_written (hw : Writable name) : (written name trailing).splitOn dot =
    name ++ List.replicate (emptyLabels name trailing) [] := by
  rw [written_eq]
  refine List.splitOn_intercalate _ (fun l hl => ?_) ?_
  · rcases List.mem_append.mp hl with hl | hl
    · exact (hw.label l hl).2.2
    · rw [List.eq_of_mem_replicate hl]
      exact List.not_mem_nil
  · cases name with
    | nil =>
      rw [List.nil_append, emptyLabels, if_pos rfl, Nat.add_comm]
      exact List.cons_ne_nil _ _
    | cons l name => exact List.cons_ne_nil _ _

theorem qtype_bytes (q : UInt16) : [(q >>> 8).toUInt8, q.toUInt8] = be 2 q.toNat := by
  have hhi : (q >>> 8).toUInt8 = UInt8.ofNat (q.toNat / 256) := by
    apply UInt8.toNat_inj.mp
    rw [UInt16.toNat_toUInt8, UInt16.toNat_shiftRight, UInt8.toNat_ofNat', Nat.shiftRight_eq_div_pow]
    rfl
  have hlo : q.toUInt8 = UInt8.ofNat q.toNat := by
    apply UInt8.toNat_inj.mp
    rw [UInt16.toNat_toUInt8, UInt8.toNat_ofNat']
  rw [hhi, hlo, Dns.be_two]

/-- The empty labels come out as zero bytes between the name and the type. -/
theorem buildDNSQuery_eq (hw : Writable name) (q : UInt16) :
    buildDNSQuery (written name trailing) q = Dns.header 1 256 1 0 0 0 ++
      (name.encode ++ (List.replicate (emptyLabels name trailing) 0 ++ (be 2 q.toNat ++ be 2 1))) := by
  have hempty : ∀ k, (List.replicate k ([] : Text)).flatMap
      (fun label => UInt8.ofNat label.length :: label) = List.replicate k 0 := by
    intro k
    induction k with
    | zero => rfl
    | succ k ih =>
      rw [List.replicate_succ, List.flatMap_cons, ih]
      rfl
  have hzeros : ∀ k, List.replicate k (0 : UInt8) ++ [0] = [0] ++ List.replicate k 0 := by
    intro k
    rw [← List.replicate_succ', List.replicate_succ]
    rfl
  have htail : [(q >>> 8).toUInt8, q.toUInt8, 0x00, 0x01] = be 2 q.toNat ++ be 2 1 := by
    rw [← qtype_bytes]
    rfl
  rw [buildDNSQuery, split_written hw, List.flatMap_append, hempty, htail, Name.encode]
  simp only [List.append_assoc]
  rw [← List.append_assoc (List.replicate _ _) [0x00], hzeros]
  simp only [List.append_assoc]
  rfl

theorem Writable.valid (hw : Writable name) (hne : name ≠ []) : name.Valid := by
  refine ⟨fun l hl => ⟨(hw.label l hl).1, Nat.lt_succ_of_le (hw.label l hl).2.1⟩, ?_⟩
  have hsize := hw.size
  cases name with
  | nil => exact absurd rfl hne
  | cons l name =>
    have hdots : (name.flatMap fun l => UInt8.ofNat l.length :: l).length =
        (name.flatMap (0x2e :: ·)).length := by
      rw [List.length_flatMap, List.length_flatMap]
      rfl
    rw [Name.text, List.length_append] at hsize
    rw [Name.encode, List.flatMap_cons, List.length_append, List.length_append, hdots,
      List.length_cons, List.length_singleton]
    omega

/-- A header before the question alone is the query for it. -/
theorem isQuery_encode (hv : name.Valid) (hq : qtype < 65536) (hmsg : msg =
    Dns.header 1 256 1 0 0 0 ++ (name.encode ++ (be 2 qtype ++ be 2 1))) :
    IsQuery msg name qtype := by
  let q : Question := ⟨name, qtype, 1⟩
  have hvq : q.Valid := ⟨hv, hq, Nat.one_lt_two_pow (by decide : 16 ≠ 0)⟩
  have hat : At msg 0 (Dns.header 1 256 1 0 0 0 ++ q.encode) := by
    rw [hmsg]
    exact List.prefix_rfl
  rw [Dns.at_append, Dns.length_header, Nat.zero_add] at hat
  have hlen : msg.length = 12 + q.encode.length := by
    rw [hmsg, List.length_append, Dns.length_header]
    rfl
  constructor
  · intro m
    have hone : ∀ q' ∈ [q], q'.Valid := by
      intro q' hm
      rwa [List.mem_singleton.mp hm]
    have hcat : msg = Dns.header 1 256 [q].length ([] : List Dns.Pointed).length 0 0 ++
        ([q].flatMap Question.encode ++ ([] : List Dns.Pointed).flatMap Dns.Pointed.encode) := by
      rw [hmsg, List.flatMap_nil, List.append_nil, List.flatMap_singleton]
      rfl
    have hcount : [q].length < 65536 := by
      rw [List.length_singleton]
      decide
    have hiff := Dns.parses_pointed (m := m) (by decide) (by decide) (by decide) hcount
      (by decide) hone (by simp) (by simp) hcat
    constructor
    · intro hp
      obtain ⟨hid, hflags, hquest, hns, hadd, -, hans⟩ :=
        hiff.mp ⟨hp, hp.questions_eq hat.1 hvq hat.2⟩
      obtain ⟨id, flags, questions, answers, authorities, additionals⟩ := m
      simp only at hid hflags hquest hns hadd hans
      rw [hid, hflags, hquest, hns, hadd, List.forall₂_nil_left_iff.mp hans]
    · intro hm
      rw [hm] at hiff ⊢
      exact (hiff.mpr ⟨rfl, rfl, rfl, rfl, rfl, rfl, .nil⟩).1
  · intro fuel hf
    rw [skipQuestion_encode hvq hat.2 hf, hlen]

theorem emptyLabels_eq_zero : emptyLabels name trailing = 0 ↔ name ≠ [] ∧ trailing = false := by
  cases name <;> cases trailing <;> simp [emptyLabels]

/-- `buildDNSQuery` asks for a name that is written without the trailing dot, and for no other. -/
theorem buildDNSQuery_iff (hw : Writable name) (q : UInt16) :
    IsQuery (buildDNSQuery (written name trailing) q) name q.toNat ↔
      name ≠ [] ∧ trailing = false := by
  rw [buildDNSQuery_eq hw, ← emptyLabels_eq_zero]
  constructor
  · intro h
    generalize hmsg : Dns.header 1 256 1 0 0 0 ++ (name.encode ++
      (List.replicate (emptyLabels name trailing) 0 ++ (be 2 q.toNat ++ be 2 1))) = msg at h
    obtain ⟨e₁, e₂, e₃, p₁, p₂, p₃, p₄, hs, ha, hns, hadd⟩ := ((h.parses _).mpr rfl).sections
    have hname : At msg 12 name.encode := by
      have hat : At msg 0 msg := List.prefix_rfl
      nth_rewrite 2 [← hmsg] at hat
      exact (Dns.at_append.mp (Dns.at_append.mp hat).2).1
    -- the sections end with the question, and that ends before the empty labels
    cases ha
    cases hns
    obtain hend : e₁ = msg.length := by
      cases hadd
      rfl
    cases hs with
    | cons hquest hnil =>
      cases hnil
      cases hquest with
      | mk hv hn _ =>
        have hm := ((Dns.nameAt_encode hv.name.label hname).mp hn).1
        rw [← hmsg, hm] at hend
        simp only [List.length_append, Dns.length_header, Dns.length_be,
          List.length_replicate] at hend
        omega
  · intro h0
    have hne := (emptyLabels_eq_zero.mp h0).1
    refine isQuery_encode (hw.valid hne) q.toNat_lt ?_
    rw [h0]
    rfl

theorem writable_example : Writable [[0x61], [0x62, 0x63]] := by
  refine ⟨?_, by decide⟩
  simp [dot]

theorem buildDNSQuery_iff_plain :
    IsQuery (buildDNSQuery (written [[0x61], [0x62, 0x63]] false) 65) [[0x61], [0x62, 0x63]]
      (65 : UInt16).toNat :=
  (buildDNSQuery_iff writable_example 65).mpr ⟨List.cons_ne_nil _ _, rfl⟩

/-- The query for `a.bc.` goes on for a byte after its question. -/
theorem trailing_dot_breaks_query : ¬ ∀ name trailing (q : UInt16), Writable name →
    IsQuery (buildDNSQuery (written name trailing) q) name q.toNat := by
  intro h
  have hskip := (h _ true 65 writable_example).skips 100 (by decide)
  exact absurd hskip (by decide)

end XTunnel.Ech
