import Mathlib.Data.List.Basic
import Mathlib.Algebra.Order.Ring.Nat

/-! The wire form of DNS messages: names with their compression, questions, resource records and the
counts of the header. -/
namespace XTunnel.Dns

abbrev Bytes := List UInt8

variable {msg xs ys : Bytes} {k n off e m : Nat}

/-- The `k` bytes of a number, the most significant first. -/
def be : Nat → Nat → Bytes
  | 0, _ => []
  | k + 1, n => be k (n / 256) ++ [UInt8.ofNat n]

def ofBe (b : Bytes) : Nat := b.foldl (fun n x => n * 256 + x.toNat) 0

@[simp] theorem length_be : (be k n).length = k := by
  induction k generalizing n with
  | zero => rfl
  | succ k ih => simp [be, ih]

theorem ofBe_be : ofBe (be k n) = n % 256 ^ k := by
  induction k generalizing n with
  | zero => simp [be, ofBe, Nat.mod_one]
  | succ k ih =>
    have hx : (UInt8.ofNat n).toNat = n % 256 := by simp
    have hk : ofBe (be k (n / 256)) = n / 256 % 256 ^ k := ih
    rw [ofBe] at hk
    rw [be, ofBe, List.foldl_append, hk, List.foldl_cons, List.foldl_nil, hx, Nat.pow_succ,
      Nat.mul_comm (256 ^ k) 256, Nat.mod_mul]
    omega

theorem be_inj (h : be k n = be k m) (hn : n < 256 ^ k) (hm : m < 256 ^ k) : n = m := by
  have he := congrArg ofBe h
  rwa [ofBe_be, ofBe_be, Nat.mod_eq_of_lt hn, Nat.mod_eq_of_lt hm] at he

/-- The bytes stand in the message at the offset. -/
def At (msg : Bytes) (off : Nat) (b : Bytes) : Prop := b <+: msg.drop off

instance {msg b : Bytes} {off : Nat} : Decidable (At msg off b) :=
  inferInstanceAs (Decidable (b <+: msg.drop off))

theorem at_append : At msg off (xs ++ ys) ↔ At msg off xs ∧ At msg (off + xs.length) ys := by
  unfold At
  rw [← List.drop_drop]
  constructor
  · rintro ⟨t, ht⟩
    rw [← ht, List.append_assoc, List.drop_left]
    exact ⟨List.prefix_append _ _, List.prefix_append _ _⟩
  · rintro ⟨⟨t, ht⟩, hy⟩
    rw [← ht, List.drop_left] at hy
    rw [← ht]
    exact (List.prefix_append_right_inj xs).mpr hy

theorem At.unique (hx : At msg off xs) (hy : At msg off ys) (h : xs.length = ys.length) : xs = ys :=
  (List.prefix_of_prefix_length_le hx hy h.le).eq_of_length h

theorem At.length_le (h : At msg off xs) (hne : xs ≠ []) : off + xs.length ≤ msg.length := by
  have hl := List.IsPrefix.length_le h
  have hpos := List.length_pos_of_ne_nil hne
  rw [List.length_drop] at hl
  omega

/-- A domain name by its labels, without the root. -/
abbrev Name := List Bytes

namespace Name

/-- The wire form without compression. -/
def encode (name : Name) : Bytes := name.flatMap (fun l => UInt8.ofNat l.length :: l) ++ [0]

/-- The presentation form without escapes. -/
def text : Name → Bytes
  | [] => []
  | l :: name => l ++ name.flatMap (0x2e :: ·)

structure Valid (name : Name) : Prop where
  label : ∀ l ∈ name, 0 < l.length ∧ l.length < 64
  size : name.encode.length ≤ 255

/-- Where the name and its parents occur when it is written at an offset. -/
def occurrences : Nat → Name → List (Nat × Name)
  | off, [] => [(off, [])]
  | off, l :: name => (off, l :: name) :: occurrences (off + 1 + l.length) name

theorem encode_cons (l : Bytes) (name : Name) :
    encode (l :: name) = UInt8.ofNat l.length :: l ++ encode name := by
  simp [encode]

end Name

/-- A name is at the offset: its labels one by one, or a pointer to a prior occurrence. It makes
names occur where it is. -/
inductive NameAt (msg : Bytes) (prior : List (Nat × Name)) :
    Nat → Name → Nat → List (Nat × Name) → Prop
  | root {off : Nat} : At msg off [0] → NameAt msg prior off [] (off + 1) [(off, [])]
  | label {off e : Nat} {l : Bytes} {name : Name} {occ : List (Nat × Name)} :
      0 < l.length → l.length < 64 → At msg off (UInt8.ofNat l.length :: l) →
      NameAt msg prior (off + 1 + l.length) name e occ →
      NameAt msg prior off (l :: name) e ((off, l :: name) :: occ)
  | pointer {off target : Nat} {name : Name} :
      target < 0x4000 → At msg off (be 2 (0xc000 + target)) → (target, name) ∈ prior →
      NameAt msg prior off name (off + 2) [(off, name)]

structure Question where
  name : Name
  qtype : Nat
  qclass : Nat
deriving DecidableEq

structure Record where
  name : Name
  rtype : Nat
  rclass : Nat
  ttl : Nat
  rdata : Bytes

namespace Question

def encode (q : Question) : Bytes := q.name.encode ++ (be 2 q.qtype ++ be 2 q.qclass)

structure Valid (q : Question) : Prop where
  name : q.name.Valid
  qtype : q.qtype < 65536
  qclass : q.qclass < 65536

end Question

inductive QuestionAt (msg : Bytes) (prior : List (Nat × Name)) :
    Nat → Question → Nat → List (Nat × Name) → Prop
  | mk {off m : Nat} {q : Question} {occ : List (Nat × Name)} :
      q.Valid → NameAt msg prior off q.name m occ → At msg m (be 2 q.qtype ++ be 2 q.qclass) →
      QuestionAt msg prior off q (m + 4) occ

/-- The fixed part of a record, and its data. -/
def Record.body (r : Record) : Bytes :=
  be 2 r.rtype ++ be 2 r.rclass ++ be 4 r.ttl ++ be 2 r.rdata.length ++ r.rdata

structure Record.Valid (r : Record) : Prop where
  name : r.name.Valid
  rtype : r.rtype < 65536
  rclass : r.rclass < 65536
  ttl : r.ttl < 2 ^ 32
  rdata : r.rdata.length < 65536

/-- Names that stand between two offsets, one after the other, with what they make occur. -/
inductive NamesIn (msg : Bytes) (lo hi : Nat) : List (Nat × Name) → List (Nat × Name) → Prop
  | nil {prior : List (Nat × Name)} : NamesIn msg lo hi prior []
  | cons {prior occ occ' : List (Nat × Name)} {off e : Nat} {name : Name} :
      lo ≤ off → e ≤ hi → NameAt msg prior off name e occ → NamesIn msg lo hi (prior ++ occ) occ' →
      NamesIn msg lo hi prior (occ ++ occ')

/-- The owner of a record and the names in its data occur in it. -/
inductive RecordAt (msg : Bytes) (prior : List (Nat × Name)) :
    Nat → Record → Nat → List (Nat × Name) → Prop
  | mk {off m : Nat} {r : Record} {occ occ' : List (Nat × Name)} :
      r.Valid → NameAt msg prior off r.name m occ → At msg m r.body →
      NamesIn msg (m + 10) (m + 10 + r.rdata.length) (prior ++ occ) occ' →
      RecordAt msg prior off r (m + 10 + r.rdata.length) (occ ++ occ')

/-- Items one after the other; what occurs in one is prior to the next. -/
inductive Items {α : Type} (ItemAt : List (Nat × Name) → Nat → α → Nat → List (Nat × Name) → Prop) :
    List (Nat × Name) → Nat → List α → Nat → List (Nat × Name) → Prop
  | nil {prior : List (Nat × Name)} {off : Nat} : Items ItemAt prior off [] off prior
  | cons {prior prior' occ : List (Nat × Name)} {off m e : Nat} {a : α} {as : List α} :
      ItemAt prior off a m occ → Items ItemAt (prior ++ occ) m as e prior' →
      Items ItemAt prior off (a :: as) e prior'

/-- A message by its sections; the counts of the header are theirs. -/
structure Message where
  id : Nat
  flags : Nat
  questions : List Question
  answers : List Record
  authorities : List Record
  additionals : List Record

/-- The twelve bytes of a header. -/
def header (id flags qd an ns ar : Nat) : Bytes :=
  be 2 id ++ be 2 flags ++ be 2 qd ++ be 2 an ++ be 2 ns ++ be 2 ar

@[simp] theorem length_header {id flags qd an ns ar : Nat} :
    (header id flags qd an ns ar).length = 12 := by
  simp [header]

/-- The bytes are the wire form of the message, from the header to the last record. -/
structure Parses (msg : Bytes) (m : Message) : Prop where
  header : At msg 0 (Dns.header m.id m.flags m.questions.length m.answers.length
    m.authorities.length m.additionals.length)
  counts : m.id < 65536 ∧ m.flags < 65536 ∧ m.questions.length < 65536 ∧ m.answers.length < 65536 ∧
    m.authorities.length < 65536 ∧ m.additionals.length < 65536
  sections : ∃ e₁ e₂ e₃ p₁ p₂ p₃ p₄, Items (QuestionAt msg) [] 12 m.questions e₁ p₁ ∧
    Items (RecordAt msg) p₁ e₁ m.answers e₂ p₂ ∧ Items (RecordAt msg) p₂ e₂ m.authorities e₃ p₃ ∧
    Items (RecordAt msg) p₃ e₃ m.additionals msg.length p₄

variable {prior prior' occ occ' : List (Nat × Name)} {x y : UInt8} {name : Name} {target : Nat}
  {q : Question} {qs : List Question} {r : Record} {rs : List Record} {id flags an ns ar : Nat}

theorem At.head (h : At msg off (x :: xs)) (h' : At msg off (y :: ys)) : x = y := by
  obtain ⟨t, ht⟩ := h
  obtain ⟨t', ht'⟩ := h'
  rw [← ht'] at ht
  exact (List.cons.inj ht).1

theorem be_two (n : Nat) : be 2 n = [UInt8.ofNat (n / 256), UInt8.ofNat n] := rfl

/-- The first byte of a pointer. -/
theorem At.pointer_head (h : At msg off (be 2 (0xc000 + target))) (ht : target < 0x4000)
    (hx : At msg off (x :: xs)) : 192 ≤ x.toNat := by
  obtain rfl := hx.head h
  rw [UInt8.toNat_ofNat']
  omega

theorem toNat_length {l : Bytes} (h : l.length < 64) : (UInt8.ofNat l.length).toNat = l.length := by
  rw [UInt8.toNat_ofNat']
  omega

/-- A name occurs nowhere before its offset. -/
theorem nameAt_occurs (h : NameAt msg prior off name e occ) : ∀ x ∈ occ, off ≤ x.1 := by
  induction h with
  | root | pointer =>
    intro x hx
    rw [List.mem_singleton.mp hx]
  | label _ _ _ _ ih =>
    intro x hx
    rcases List.mem_cons.mp hx with rfl | hx
    · exact Nat.le_refl _
    · have hle := ih x hx
      omega

theorem namesIn_occurs {lo hi : Nat} (h : NamesIn msg lo hi prior occ) : ∀ x ∈ occ, lo ≤ x.1 := by
  induction h with
  | nil => exact List.forall_mem_nil _
  | cons hlo _ hn _ ih =>
    intro x hx
    rcases List.mem_append.mp hx with hx | hx
    · exact Nat.le_trans hlo (nameAt_occurs hn x hx)
    · exact ih x hx

/-- A name that is written out is read as such. -/
theorem nameAt_encode (hl : ∀ l ∈ name, 0 < l.length ∧ l.length < 64)
    (h : At msg off name.encode) :
    NameAt msg prior off name e occ ↔
      e = off + name.encode.length ∧ occ = name.occurrences off := by
  induction name generalizing off e occ with
  | nil =>
    constructor
    · intro hn
      cases hn with
      | root => exact ⟨rfl, rfl⟩
      | pointer ht hp => exact absurd (hp.pointer_head ht h) (by decide)
    · rintro ⟨rfl, rfl⟩
      exact .root h
  | cons l name ih =>
    obtain ⟨⟨hpos, hlt⟩, hl⟩ := List.forall_mem_cons.mp hl
    rw [Name.encode_cons, at_append] at h
    have hoff : off + (UInt8.ofNat l.length :: l).length = off + 1 + l.length := by
      rw [List.length_cons]
      omega
    have hlen : (Name.encode (l :: name)).length = 1 + l.length + (Name.encode name).length := by
      rw [Name.encode_cons, List.length_append, List.length_cons]
      omega
    rw [hoff] at h
    constructor
    · intro hn
      cases hn with
      | label _ _ _ hn =>
        obtain ⟨rfl, rfl⟩ := (ih hl h.2).mp hn
        exact ⟨by omega, rfl⟩
      | pointer ht hp =>
        have hx := hp.pointer_head ht h.1
        rw [toNat_length hlt] at hx
        omega
    · rintro ⟨rfl, rfl⟩
      refine .label hpos hlt h.1 ((ih hl h.2).mpr ⟨by omega, rfl⟩)

/-- A name by a pointer. -/
theorem nameAt_pointer (ht : target < 0x4000) (h : At msg off (be 2 (0xc000 + target))) :
    NameAt msg prior off name e occ ↔
      (target, name) ∈ prior ∧ e = off + 2 ∧ occ = [(off, name)] := by
  constructor
  · intro hn
    cases hn with
    | root h0 => exact absurd (h.pointer_head ht h0) (by decide)
    | label _ hlt hl =>
      have hx := h.pointer_head ht hl
      rw [toNat_length hlt] at hx
      omega
    | @pointer _ target' _ ht' hp hm =>
      have he := be_inj (hp.unique h (by simp)) (by omega) (by omega)
      obtain rfl : target' = target := by omega
      exact ⟨hm, rfl, rfl⟩
  · rintro ⟨hm, rfl, rfl⟩
    exact .pointer ht h hm

theorem questionAt_encode (hv : q.Valid) (h : At msg off q.encode) :
    QuestionAt msg prior off q e occ ↔
      e = off + q.encode.length ∧ occ = q.name.occurrences off := by
  rw [Question.encode, at_append] at h
  have hlen : q.encode.length = q.name.encode.length + 4 := by simp [Question.encode]
  constructor
  · intro hq
    cases hq with
    | mk _ hn _ =>
      obtain ⟨rfl, rfl⟩ := (nameAt_encode hv.name.label h.1).mp hn
      exact ⟨by omega, rfl⟩
  · rintro ⟨rfl, rfl⟩
    rw [hlen, ← Nat.add_assoc]
    exact .mk hv ((nameAt_encode hv.name.label h.1).mpr ⟨rfl, rfl⟩) h.2

/-- Where the names of a section of questions occur. -/
def occurrences : Nat → List Question → List (Nat × Name)
  | _, [] => []
  | off, q :: qs => q.name.occurrences off ++ occurrences (off + q.encode.length) qs

theorem items_questions (hv : ∀ q ∈ qs, q.Valid) (h : At msg off (qs.flatMap Question.encode)) :
    Items (QuestionAt msg) prior off qs e prior' ↔
      e = off + (qs.flatMap Question.encode).length ∧ prior' = prior ++ occurrences off qs := by
  induction qs generalizing off prior with
  | nil =>
    constructor
    · intro hi
      cases hi
      simp [occurrences]
    · rintro ⟨rfl, rfl⟩
      simpa [occurrences] using .nil
  | cons q qs ih =>
    obtain ⟨hq, hv⟩ := List.forall_mem_cons.mp hv
    rw [List.flatMap_cons, at_append] at h
    rw [List.flatMap_cons, List.length_append, occurrences, ← List.append_assoc, ← Nat.add_assoc,
      ← ih hv h.2]
    constructor
    · intro hi
      cases hi with
      | cons ha hi =>
        obtain ⟨rfl, rfl⟩ := (questionAt_encode hq h.1).mp ha
        exact hi
    · exact .cons ((questionAt_encode hq h.1).mpr ⟨rfl, rfl⟩)

/-- A record whose owner is a pointer to `target`. -/
structure Pointed where
  target : Nat
  rtype : Nat
  rclass : Nat
  ttl : Nat
  rdata : Bytes

namespace Pointed

def encode (p : Pointed) : Bytes :=
  be 2 (0xc000 + p.target) ++ (be 2 p.rtype ++ be 2 p.rclass ++ be 4 p.ttl ++
    be 2 p.rdata.length ++ p.rdata)

structure Valid (p : Pointed) : Prop where
  target : p.target < 0x4000
  rtype : p.rtype < 65536
  rclass : p.rclass < 65536
  ttl : p.ttl < 2 ^ 32
  rdata : p.rdata.length < 65536

/-- The record that it stands for, if its owner is `name`. -/
def record (p : Pointed) (name : Name) : Record := ⟨name, p.rtype, p.rclass, p.ttl, p.rdata⟩

end Pointed

variable {p : Pointed} {ps : List Pointed}

theorem body_inj {r r' : Record} (h : At msg off r.body) (h' : At msg off r'.body) (hr : r.Valid)
    (hr' : r'.Valid) (hn : r.name = r'.name) : r = r' := by
  obtain ⟨name, rtype, rclass, ttl, rdata⟩ := r
  obtain ⟨name', rtype', rclass', ttl', rdata'⟩ := r'
  simp only [Record.body, at_append, length_be, List.length_append] at h h'
  obtain ⟨⟨⟨⟨h1, h2⟩, h3⟩, h4⟩, h5⟩ := h
  obtain ⟨⟨⟨⟨h1', h2'⟩, h3'⟩, h4'⟩, h5'⟩ := h'
  have e1 := be_inj (h1.unique h1' (by simp)) hr.rtype hr'.rtype
  have e2 := be_inj (h2.unique h2' (by simp)) hr.rclass hr'.rclass
  have e3 := be_inj (h3.unique h3' (by simp)) hr.ttl hr'.ttl
  have e4 := be_inj (h4.unique h4' (by simp)) hr.rdata hr'.rdata
  have e5 := h5.unique h5' e4
  simp only at hn e1 e2 e3 e5
  subst hn e1 e2 e3 e5
  rfl

theorem recordAt_pointed (hp : p.Valid) (h : At msg off p.encode) :
    RecordAt msg prior off r e occ ↔
      (p.target, r.name) ∈ prior ∧ r.name.Valid ∧ r = p.record r.name ∧
        e = off + p.encode.length ∧ ∃ occ', occ = (off, r.name) :: occ' ∧
          NamesIn msg (off + 12) e (prior ++ [(off, r.name)]) occ' := by
  rw [Pointed.encode, at_append, length_be] at h
  have hlen : p.encode.length = 2 + 10 + p.rdata.length := by
    simp [Pointed.encode]
    omega
  have hvalid : r.name.Valid → (p.record r.name).Valid := fun hn =>
    ⟨hn, hp.rtype, hp.rclass, hp.ttl, hp.rdata⟩
  constructor
  · intro hr
    cases hr with
    | @mk _ _ _ occ' hv hn hb hin =>
      obtain ⟨hm, rfl, rfl⟩ := (nameAt_pointer hp.target h.1).mp hn
      have he : r = p.record r.name := body_inj hb h.2 hv (hvalid hv.name) rfl
      have hrd : r.rdata.length = p.rdata.length := by rw [he]; rfl
      exact ⟨hm, hv.name, he, by omega, occ', rfl, hin⟩
  · rintro ⟨hm, hn, hr, rfl, occ', rfl, hin⟩
    have hat : NameAt msg prior off r.name (off + 2) [(off, r.name)] :=
      (nameAt_pointer hp.target h.1).mpr ⟨hm, rfl, rfl⟩
    have hrd : r.rdata.length = p.rdata.length := by rw [hr]; rfl
    have hb : At msg (off + 2) r.body := by rw [hr]; exact h.2
    have hend : off + p.encode.length = off + 2 + 10 + r.rdata.length := by omega
    rw [hend] at hin ⊢
    exact .mk (hr ▸ hvalid hn) hat hb hin

/-- The record is that of the pointer, whose target is an occurrence of its owner. -/
def Pointed.Gives (base : List (Nat × Name)) (p : Pointed) (r : Record) : Prop :=
  (p.target, r.name) ∈ base ∧ r.name.Valid ∧ r = p.record r.name

/-- Records by pointers below `start`, where only names of `base` occur. -/
theorem items_pointed {base : List (Nat × Name)} {start : Nat} (hv : ∀ p ∈ ps, p.Valid)
    (ht : ∀ p ∈ ps, p.target < start) (hs : start ≤ off)
    (hbase : ∀ o name, o < start → ((o, name) ∈ prior ↔ (o, name) ∈ base))
    (h : At msg off (ps.flatMap Pointed.encode)) :
    (∃ prior', Items (RecordAt msg) prior off rs e prior') ∧ rs.length = ps.length ↔
      e = off + (ps.flatMap Pointed.encode).length ∧ List.Forall₂ (Pointed.Gives base) ps rs := by
  induction ps generalizing off prior rs with
  | nil =>
    constructor
    · rintro ⟨⟨prior', hi⟩, hlen⟩
      cases hi with
      | nil => simp
      | cons => simp at hlen
    · rintro ⟨rfl, hf⟩
      cases hf
      exact ⟨⟨prior, by simpa using .nil⟩, rfl⟩
  | cons p ps ih =>
    obtain ⟨hp, hv⟩ := List.forall_mem_cons.mp hv
    obtain ⟨htp, ht⟩ := List.forall_mem_cons.mp ht
    rw [List.flatMap_cons, at_append] at h
    -- what a record makes occur lies behind `start`
    have hnext : ∀ (r : Record) occ, (∀ x ∈ occ, off + 12 ≤ x.1) → ∀ o name, o < start →
        ((o, name) ∈ prior ++ (off, r.name) :: occ ↔ (o, name) ∈ base) := by
      intro r occ hocc o name ho
      rw [List.mem_append, hbase o name ho, List.mem_cons, Prod.mk.injEq]
      refine ⟨fun hor => hor.resolve_right ?_, .inl⟩
      rintro (⟨rfl, -⟩ | hx)
      · omega
      · have hle := hocc _ hx
        omega
    rw [List.flatMap_cons, List.length_append, ← Nat.add_assoc]
    constructor
    · rintro ⟨⟨prior', hi⟩, hlen⟩
      cases hi with
      | nil => simp at hlen
      | @cons _ _ _ _ _ _ r rs ha hi =>
        obtain ⟨hm, hn, hr, rfl, occ', rfl, hin⟩ := (recordAt_pointed hp h.1).mp ha
        have hrest := (ih hv ht (by omega) (hnext r occ' (namesIn_occurs hin)) h.2).mp
          ⟨⟨prior', hi⟩, by simpa using hlen⟩
        exact ⟨hrest.1, .cons ⟨(hbase _ _ htp).mp hm, hn, hr⟩ hrest.2⟩
    · rintro ⟨rfl, hf⟩
      cases hf with
      | @cons _ r _ rs hg hf =>
        obtain ⟨hm, hn, hr⟩ := hg
        have hat : RecordAt msg prior off r (off + p.encode.length) [(off, r.name)] :=
          (recordAt_pointed hp h.1).mpr ⟨(hbase _ _ htp).mpr hm, hn, hr, rfl, [], rfl, .nil⟩
        obtain ⟨⟨prior', hi⟩, hlen⟩ :=
          (ih hv ht (by omega) (hnext r [] (List.forall_mem_nil _)) h.2).mpr ⟨rfl, hf⟩
        exact ⟨⟨prior', .cons hat hi⟩, by simp [hlen]⟩

theorem nameAt_lt (h : NameAt msg prior off name e occ) : off < msg.length := by
  cases h with
  | root hb | label _ _ hb =>
    have hle := hb.length_le (List.cons_ne_nil _ _)
    rw [List.length_cons] at hle
    omega
  | pointer _ hb =>
    have hle := hb.length_le (by simp [be_two])
    rw [length_be] at hle
    omega

theorem nameAt_end (h : NameAt msg prior off name e occ) : off < e := by
  induction h with
  | root | pointer => omega
  | label _ _ _ _ ih => omega

/-- No record begins at the end of the message. -/
theorem items_end (h : Items (RecordAt msg) prior msg.length rs e prior') : rs = [] := by
  cases h with
  | nil => rfl
  | cons ha _ =>
    cases ha with
    | mk _ hn _ =>
      have hlt := nameAt_lt hn
      omega

/-- The one message that a header, a section of questions and records by pointers into it can be,
and when it is one: nothing may be counted as additional. -/
theorem parses_pointed {m : Message} (hid : id < 65536) (hflags : flags < 65536)
    (har : ar < 65536) (hq : qs.length < 65536) (hp : ps.length < 65536)
    (hqs : ∀ q ∈ qs, q.Valid) (hps : ∀ p ∈ ps, p.Valid)
    (ht : ∀ p ∈ ps, p.target < 12 + (qs.flatMap Question.encode).length)
    (hmsg : msg = Dns.header id flags qs.length ps.length 0 ar ++
      (qs.flatMap Question.encode ++ ps.flatMap Pointed.encode)) :
    Parses msg m ∧ m.questions = qs ↔ m.id = id ∧ m.flags = flags ∧ m.questions = qs ∧
      m.authorities = [] ∧ m.additionals = [] ∧ ar = 0 ∧
      List.Forall₂ (Pointed.Gives (occurrences 12 qs)) ps m.answers := by
  have hat : At msg 0 (Dns.header id flags qs.length ps.length 0 ar ++
      (qs.flatMap Question.encode ++ ps.flatMap Pointed.encode)) := by
    rw [hmsg]
    exact List.prefix_rfl
  rw [at_append, length_header, Nat.zero_add, at_append] at hat
  obtain ⟨hhead, hquest, hans⟩ := hat
  have hlen : msg.length = 12 + (qs.flatMap Question.encode).length +
      (ps.flatMap Pointed.encode).length := by
    rw [hmsg, List.length_append, length_header, List.length_append]
    omega
  have hrecords : ∀ rs e, (∃ prior', Items (RecordAt msg) (occurrences 12 qs)
      (12 + (qs.flatMap Question.encode).length) rs e prior') ∧ rs.length = ps.length ↔
        e = msg.length ∧ List.Forall₂ (Pointed.Gives (occurrences 12 qs)) ps rs := by
    intro rs e
    rw [hlen]
    exact items_pointed hps ht le_rfl (fun _ _ _ => Iff.rfl) hans
  constructor
  · rintro ⟨hparse, hmq⟩
    obtain ⟨cid, cflags, -, can, cns, car⟩ := hparse.counts
    have heq := hparse.header.unique hhead (by simp)
    simp only [Dns.header] at heq
    simp only [List.append_assoc] at heq
    obtain ⟨h1, heq⟩ := List.append_inj heq (by simp)
    obtain ⟨h2, heq⟩ := List.append_inj heq (by simp)
    obtain ⟨-, heq⟩ := List.append_inj heq (by simp)
    obtain ⟨h4, heq⟩ := List.append_inj heq (by simp)
    obtain ⟨h5, h6⟩ := List.append_inj heq (by simp)
    have hanswers := be_inj h4 can hp
    have hns : m.authorities = [] := List.length_eq_zero_iff.mp (be_inj h5 cns (by decide))
    obtain ⟨e₁, e₂, e₃, p₁, p₂, p₃, p₄, s1, s2, s3, s4⟩ := hparse.sections
    rw [hmq] at s1
    obtain ⟨rfl, rfl⟩ := (items_questions hqs hquest).mp s1
    obtain ⟨rfl, hgives⟩ := (hrecords m.answers e₂).mp ⟨⟨_, s2⟩, hanswers⟩
    rw [hns] at s3
    cases s3
    have hadd := items_end s4
    have har0 := be_inj h6 car har
    rw [hadd] at har0
    exact ⟨be_inj h1 cid hid, be_inj h2 cflags hflags, hmq, hns, hadd, har0.symm, hgives⟩
  · rintro ⟨rfl, rfl, rfl, hns, hadd, rfl, hgives⟩
    obtain ⟨⟨p₂, s2⟩, hanswers⟩ := (hrecords m.answers msg.length).mpr ⟨rfl, hgives⟩
    refine ⟨⟨?_, ⟨hid, hflags, hq, hanswers ▸ hp, ?_, ?_⟩, ?_⟩, rfl⟩
    · rw [hns, hadd, hanswers]
      exact hhead
    · rw [hns]
      decide
    · rw [hadd]
      decide
    · rw [hns, hadd]
      exact ⟨_, _, _, _, p₂, p₂, p₂, (items_questions hqs hquest).mpr ⟨rfl, rfl⟩, s2, .nil, .nil⟩

/-- Where a name is written out, no other name can be read. -/
theorem nameAt_unique {name' : Name} (hl : ∀ l ∈ name, 0 < l.length ∧ l.length < 64)
    (h : At msg off name.encode) (hn : NameAt msg prior off name' e occ) (hp : prior = []) :
    name' = name := by
  induction name generalizing off name' occ with
  | nil =>
    cases hn with
    | root => rfl
    | label hpos hlt hb =>
      have hx := congrArg UInt8.toNat (hb.head h)
      rw [toNat_length hlt] at hx
      exact absurd hx (Nat.ne_of_gt hpos)
    | pointer _ _ hm => exact absurd (hp ▸ hm) List.not_mem_nil
  | cons l name ih =>
    obtain ⟨⟨hpos, hlt⟩, htail⟩ := List.forall_mem_cons.mp hl
    rw [Name.encode_cons, at_append] at h
    cases hn with
    | root hb =>
      have hx := congrArg UInt8.toNat (hb.head h.1)
      rw [toNat_length hlt] at hx
      exact absurd hx.symm (Nat.ne_of_gt hpos)
    | @label _ _ l' name' _ _ hlt' hb hn =>
      have hx := congrArg UInt8.toNat (hb.head h.1)
      rw [toNat_length hlt, toNat_length hlt'] at hx
      have heq := hb.unique h.1 (by rw [List.length_cons, List.length_cons, hx])
      obtain ⟨-, rfl⟩ := List.cons.inj heq
      have hrest := h.2
      rw [List.length_cons, Nat.add_comm l'.length 1, ← Nat.add_assoc] at hrest
      rw [ih htail hrest hn]
    | pointer _ _ hm => exact absurd (hp ▸ hm) List.not_mem_nil

/-- Where no name is prior, a name is written out. -/
theorem nameAt_written (h : NameAt msg prior off name e occ) (hp : prior = []) :
    At msg off name.encode := by
  induction h with
  | root hb => exact hb
  | @label off _ l _ _ _ _ hb _ ih =>
    have hoff : off + (UInt8.ofNat l.length :: l).length = off + 1 + l.length := by
      rw [List.length_cons]
      omega
    rw [Name.encode_cons, at_append, hoff]
    exact ⟨hb, ih⟩
  | pointer _ _ hm => exact absurd (hp ▸ hm) List.not_mem_nil

/-- The only question of a message is written out behind its header. -/
theorem Parses.question_at {m : Message} (h : Parses msg m) (hm : m.questions = [q]) :
    q.Valid ∧ At msg 12 q.encode := by
  obtain ⟨e₁, -, -, p₁, -, -, -, hs, -⟩ := h.sections
  rw [hm] at hs
  cases hs with
  | cons hq hnil =>
    cases hq with
    | mk hv hn hb =>
      have hat := nameAt_written hn rfl
      obtain ⟨rfl, -⟩ := (nameAt_encode hv.name.label hat).mp hn
      exact ⟨hv, at_append.mpr ⟨hat, hb⟩⟩

/-- A message with one question, written out, has no other question. -/
theorem Parses.questions_eq {m : Message} (h : Parses msg m)
    (hhead : At msg 0 (Dns.header id flags 1 an ns ar)) (hq : q.Valid)
    (hat : At msg 12 q.encode) : m.questions = [q] := by
  obtain ⟨-, -, cqd, -⟩ := h.counts
  have heq := h.header.unique hhead (by simp)
  simp only [Dns.header, List.append_assoc] at heq
  obtain ⟨-, heq⟩ := List.append_inj heq (by simp)
  obtain ⟨-, heq⟩ := List.append_inj heq (by simp)
  obtain ⟨h3, -⟩ := List.append_inj heq (by simp)
  have hone := be_inj h3 cqd (by decide)
  obtain ⟨e₁, -, -, p₁, -, -, -, hs, -⟩ := h.sections
  rw [Question.encode, at_append] at hat
  match m.questions, hone, hs with
  | [q'], _, .cons (.mk hv hn hb) .nil =>
    have hname := nameAt_unique hq.name.label hat.1 hn rfl
    have hm := ((nameAt_encode hq.name.label hat.1).mp (hname ▸ hn)).1
    rw [hm] at hb
    obtain ⟨ht, hc⟩ := List.append_inj (hb.unique hat.2 (by simp)) (by simp)
    have htype := be_inj ht hv.qtype hq.qtype
    have hclass := be_inj hc hv.qclass hq.qclass
    obtain ⟨name, qtype, qclass⟩ := q
    obtain ⟨name', qtype', qclass'⟩ := q'
    simp only at hname htype hclass
    rw [hname, htype, hclass]

end XTunnel.Dns
