import XTunnel.Dns.Wire
import XTunnel.MappedDns.Store

/-! `hev_mapped_dns_handle`: the walk over the questions of a query, and the answers written behind
them. -/
namespace XTunnel.MappedDns

open Dns (Bytes be)

def readU16 (p : Bytes) (off : Nat) : Nat :=
  (p.getD off 0).toNat * 256 + (p.getD (off + 1) 0).toNat

def writeU16 (v : Nat) : Bytes := [UInt8.ofNat (v / 256), UInt8.ofNat v]

def writeU32 (v : Nat) : Bytes :=
  [UInt8.ofNat (v / 2 ^ 24), UInt8.ofNat (v / 2 ^ 16), UInt8.ofNat (v / 2 ^ 8), UInt8.ofNat v]

/-- The buffer after bytes are written at an offset. -/
def store (sb : Bytes) (off : Nat) (b : Bytes) : Bytes :=
  sb.take off ++ b ++ sb.drop (off + b.length)

/-- The C string at an offset. -/
def cstring (rb : Bytes) (off : Nat) : Name := (rb.drop off).takeWhile (· ≠ 0)

/-- The loop over the labels of a name, whose length bytes become dots, up to the root; every turn
moves on, so `qlen` turns are enough. -/
def skipName (qlen : Nat) : Nat → Bytes → Nat → Option (Bytes × Nat)
  | 0, _, _ => none
  | fuel + 1, rb, off =>
    -- behind the query a zero byte or another one leads to the same -1
    let len := rb.getD off 0
    if len = 0 then some (rb, off)
    else
      let next := off + 1 + len.toNat
      if next ≥ qlen then none else skipName qlen fuel (rb.set off 0x2e) next

/-- The variables of the loop over the questions; `answers` is `ipo` and `ips`, `ipn` of them. -/
structure Walk where
  dns : HevMappedDNS
  rb : Bytes
  off : Nat
  answers : List (Nat × BitVec 32)

/-- One turn of the loop; an error is the -1, with the store that is left. -/
def handleQuestion (qlen : Nat) (alloc : Bool) (w : Walk) : Except HevMappedDNS Walk :=
  match skipName qlen qlen w.rb w.off with
  | none => .error w.dns
  | some (rb, off) =>
    let off := off + 1
    if off + 3 ≥ qlen then .error w.dns
    else if readU16 rb off = 1 ∧ readU16 rb (off + 2) = 1 then
      match w.dns.find (cstring rb (w.off + 1)) alloc with
      | (dns, some idx) => .ok ⟨dns, rb, off + 4, w.answers ++ [(w.off, dns.address idx)]⟩
      | (dns, none) => .ok ⟨dns, rb, off + 4, w.answers⟩
    else .ok ⟨w.dns, rb, off + 4, w.answers⟩

/-- `alloc` tells whether a node is allocated at the `i`th question, if it needs one. -/
def handleQuestions (qlen : Nat) (alloc : Nat → Bool) : Nat → Nat → Walk → Except HevMappedDNS Walk
  | 0, _, w => .ok w
  | n + 1, i, w =>
    match handleQuestion qlen (alloc i) w with
    | .error dns => .error dns
    | .ok w => handleQuestions qlen alloc n (i + 1) w

/-- The sixteen bytes of an answer. -/
def answerBytes (ipo : Nat) (ip : BitVec 32) : Bytes :=
  [0xc0, UInt8.ofNat ipo] ++ writeU16 1 ++ writeU16 1 ++ writeU32 1 ++ writeU16 4 ++
    writeU32 ip.toNat

def writeAnswers : List (Nat × BitVec 32) → Bytes → Nat → Option (Bytes × Nat)
  | [], sb, off => some (sb, off)
  | (ipo, ip) :: answers, sb, off =>
    if off + 15 ≥ sb.length then none
    else writeAnswers answers (store sb off (answerBytes ipo ip)) (off + 16)

structure Response where
  dns : HevMappedDNS
  sb : Bytes
  off : Nat

/-- `hev_mapped_dns_handle` on the bytes of a query and a buffer for its reply. -/
def handle (self : HevMappedDNS) (alloc : Nat → Bool) (req res : Bytes) :
    Except HevMappedDNS Response :=
  if res.length < req.length then .error self
  else
    let qd := readU16 req 4
    let fl := readU16 req 2
    let sb := store (store res 0 req) 6 [0, 0, 0, 0]
    if qd > 32 then .error self
    else
      match handleQuestions req.length alloc qd 0 ⟨self, req, 12, []⟩ with
      | .error dns => .error dns
      | .ok w =>
        match writeAnswers w.answers sb w.off with
        | none => .error w.dns
        | some (sb, off) =>
          let sb := store sb 2 (writeU16 (fl ||| 0x8000 ||| ((fl &&& 0x100) >>> 1)))
          let sb := store sb 6 (writeU16 w.answers.length)
          .ok ⟨w.dns, sb, off⟩

/-- A query that is well formed up to its last question, with what comes behind. -/
structure Query where
  id : Nat
  flags : Nat
  an : Nat
  ns : Nat
  ar : Nat
  questions : List Dns.Question
  rest : Bytes
  counts : id < 65536 ∧ flags < 65536 ∧ ar < 65536
  few : questions.length ≤ 32
  valid : ∀ q ∈ questions, q.Valid

namespace Query

def bytes (q : Query) : Bytes :=
  Dns.header q.id q.flags q.questions.length q.an q.ns q.ar ++
    (q.questions.flatMap Dns.Question.encode ++ q.rest)

end Query

/-- The name that the store is asked for: the presentation form up to a zero byte. -/
def cname (name : Dns.Name) : Name := (Dns.Name.text name).takeWhile (· ≠ 0)

/-- A question for an address, with its offset. -/
structure Asked where
  off : Nat
  name : Dns.Name
  alloc : Bool

/-- The questions for an address, of those from the `i`th on at an offset. -/
def asked (alloc : Nat → Bool) : Nat → Nat → List Dns.Question → List Asked
  | _, _, [] => []
  | i, off, q :: qs =>
    if q.qtype = 1 ∧ q.qclass = 1 then
      ⟨off, q.name, alloc i⟩ :: asked alloc (i + 1) (off + q.encode.length) qs
    else asked alloc (i + 1) (off + q.encode.length) qs

/-- The store after the questions, and the answers that it gives. -/
def serve : HevMappedDNS → List Asked → HevMappedDNS × List (Nat × BitVec 32)
  | dns, [] => (dns, [])
  | dns, a :: as =>
    match dns.find (cname a.name) a.alloc with
    | (dns, some idx) => ((serve dns as).1, (a.off, dns.address idx) :: (serve dns as).2)
    | (dns, none) => serve dns as

/-- The owner of an answer points to the low byte of an offset. -/
def pointed (a : Nat × BitVec 32) : Dns.Pointed := ⟨a.1 % 256, 1, 1, 1, be 4 a.2.toNat⟩

/-- The flags of a reply: a response, recursion available if it was desired. -/
def replyFlags (fl : Nat) : Nat := fl ||| 0x8000 ||| ((fl &&& 0x100) >>> 1)

/-- The bytes of a reply. -/
def Query.reply (q : Query) (answers : List (Nat × BitVec 32)) : Bytes :=
  Dns.header q.id (replyFlags q.flags) q.questions.length answers.length 0 q.ar ++
    (q.questions.flatMap Dns.Question.encode ++ (answers.map pointed).flatMap Dns.Pointed.encode)

variable {self dns : HevMappedDNS} {alloc : Nat → Bool} {pre post b old : Bytes} {v n : Nat}
  {name : Dns.Name} {q : Dns.Question} {qs : List Dns.Question} {qlen : Nat}

theorem writeU16_eq : writeU16 v = be 2 v := rfl

theorem writeU32_eq : writeU32 v = be 4 v := by
  simp [writeU32, be, Nat.div_div_eq_div_mul]

theorem readU16_append (pre post : Bytes) (hv : v < 65536) :
    readU16 (pre ++ (be 2 v ++ post)) pre.length = v := by
  have h0 : (pre ++ (be 2 v ++ post)).getD pre.length 0 = UInt8.ofNat (v / 256) := by
    simp [Dns.be_two]
  have h1 : (pre ++ (be 2 v ++ post)).getD (pre.length + 1) 0 = UInt8.ofNat v := by
    simp [Dns.be_two]
  rw [readU16, h0, h1, UInt8.toNat_ofNat', UInt8.toNat_ofNat']
  omega

theorem store_append (pre old b post : Bytes) (h : old.length = b.length) :
    store (pre ++ (old ++ post)) pre.length b = pre ++ (b ++ post) := by
  rw [store, List.take_left, ← h, ← List.drop_drop, List.drop_left, List.drop_left,
    List.append_assoc]

/-- The wire form of a name with dots for its length bytes. -/
def dotted (name : Dns.Name) : Bytes := name.flatMap (0x2e :: ·) ++ [0]

theorem length_dotted : (dotted name).length = (Dns.Name.encode name).length := by
  simp [dotted, Dns.Name.encode, List.length_flatMap]

theorem encode_ne_nil (name : Dns.Name) : 0 < (Dns.Name.encode name).length := by
  simp [Dns.Name.encode]

/-- The loop over the labels of a name that is written out. -/
theorem skipName_encode {fuel : Nat} (hl : ∀ l ∈ name, 0 < l.length ∧ l.length < 64)
    (hf : name.length < fuel) (hq : pre.length + (Dns.Name.encode name).length ≤ qlen) :
    skipName qlen fuel (pre ++ (Dns.Name.encode name ++ post)) pre.length =
      some (pre ++ (dotted name ++ post), pre.length + (Dns.Name.encode name).length - 1) := by
  induction name generalizing pre fuel with
  | nil =>
    obtain ⟨fuel, rfl⟩ := Nat.exists_eq_add_of_lt hf
    simp [skipName, Dns.Name.encode, dotted]
  | cons l name ih =>
    obtain ⟨⟨hpos, hlt⟩, hl⟩ := List.forall_mem_cons.mp hl
    obtain ⟨fuel, rfl⟩ : ∃ k, fuel = k + 1 := ⟨fuel - 1, by simp at hf; omega⟩
    have hlen : (Dns.Name.encode (l :: name)).length =
        1 + l.length + (Dns.Name.encode name).length := by
      rw [Dns.Name.encode_cons, List.length_append, List.length_cons]
      omega
    have hpos' := encode_ne_nil name
    have hbyte : (UInt8.ofNat l.length).toNat = l.length := Dns.toNat_length hlt
    have hne : UInt8.ofNat l.length ≠ 0 := by
      intro h
      rw [h] at hbyte
      simp at hbyte
      omega
    have hget : (pre ++ (Dns.Name.encode (l :: name) ++ post)).getD pre.length 0 =
        UInt8.ofNat l.length := by
      simp [Dns.Name.encode_cons]
    have hset : (pre ++ (Dns.Name.encode (l :: name) ++ post)).set pre.length 0x2e =
        (pre ++ 0x2e :: l) ++ (Dns.Name.encode name ++ post) := by
      simp [Dns.Name.encode_cons]
    have hnext : pre.length + 1 + l.length = (pre ++ 0x2e :: l).length := by
      rw [List.length_append, List.length_cons]
      omega
    rw [skipName, hget, if_neg hne, hbyte, if_neg (by omega), hset, hnext,
      ih hl (by simpa using hf) (by omega)]
    simp only [Option.some.injEq, Prod.mk.injEq]
    refine ⟨by simp [dotted], by omega⟩

/-- The C string behind the first dot of a name, before a question that asks for an address. -/
theorem cstring_dotted :
    cstring (pre ++ (dotted name ++ (be 2 1 ++ post))) (pre.length + 1) = cname name := by
  rw [cstring, ← List.drop_drop, List.drop_left]
  cases name with
  | nil => simp [dotted, cname, Dns.Name.text, Dns.be_two]
  | cons l name =>
    have hd : (dotted (l :: name) ++ (be 2 1 ++ post)).drop 1 =
        Dns.Name.text (l :: name) ++ 0 :: (be 2 1 ++ post) := by
      simp [dotted, Dns.Name.text]
    rw [hd, cname, List.takeWhile_append]
    split
    · rename_i h
      have hall : (Dns.Name.text (l :: name)).takeWhile (· ≠ 0) = Dns.Name.text (l :: name) :=
        (List.takeWhile_prefix _).eq_of_length h
      rw [hall]
      simp
    · rfl

variable {as : List Asked} {answers : List (Nat × BitVec 32)} {w : Walk} {i : Nat} {ok : Bool}

theorem length_lt_encode (name : Dns.Name) : name.length < (Dns.Name.encode name).length := by
  induction name with
  | nil => simp [Dns.Name.encode]
  | cons l name ih =>
    rw [Dns.Name.encode_cons, List.length_append, List.length_cons, List.length_cons]
    omega

/-- What a question does to the store and to the answers. -/
def serveOne (ok : Bool) (off : Nat) (q : Dns.Question) (dns : HevMappedDNS) :
    HevMappedDNS × List (Nat × BitVec 32) :=
  serve dns (asked (fun _ => ok) 0 off [q])

theorem length_encode : q.encode.length = (Dns.Name.encode q.name).length + 4 := by
  simp [Dns.Question.encode]

/-- What the loop over the labels leaves of a question that is written out, and what is read behind
it. -/
theorem question_read (hv : q.Valid) (hq : qlen = (pre ++ (q.encode ++ post)).length) :
    ∃ rb off, skipName qlen qlen (pre ++ (q.encode ++ post)) pre.length = some (rb ++ post, off) ∧
      rb.length = pre.length + q.encode.length ∧ off + 1 + 4 = pre.length + q.encode.length ∧
      readU16 (rb ++ post) (off + 1) = q.qtype ∧ readU16 (rb ++ post) (off + 1 + 2) = q.qclass ∧
      (q.qtype = 1 → cstring (rb ++ post) (pre.length + 1) = cname q.name) := by
  have hpos := encode_ne_nil q.name
  have hlen := length_encode (q := q)
  have hqlen : qlen = pre.length + q.encode.length + post.length := by
    rw [hq, List.length_append, List.length_append, Nat.add_assoc]
  have hlabels := length_lt_encode q.name
  have hrb : pre ++ (dotted q.name ++ (be 2 q.qtype ++ be 2 q.qclass)) ++ post =
      pre ++ (dotted q.name ++ (be 2 q.qtype ++ (be 2 q.qclass ++ post))) := by
    simp [List.append_assoc]
  have hskip : skipName qlen qlen (pre ++ (q.encode ++ post)) pre.length =
      some (pre ++ (dotted q.name ++ (be 2 q.qtype ++ (be 2 q.qclass ++ post))),
        pre.length + (Dns.Name.encode q.name).length - 1) := by
    have hs : skipName qlen qlen (pre ++ (Dns.Name.encode q.name ++
        (be 2 q.qtype ++ (be 2 q.qclass ++ post)))) pre.length =
          some (pre ++ (dotted q.name ++ (be 2 q.qtype ++ (be 2 q.qclass ++ post))),
            pre.length + (Dns.Name.encode q.name).length - 1) :=
      skipName_encode hv.name.label (by omega) (by omega)
    simpa [Dns.Question.encode, List.append_assoc] using hs
  have hoff : pre.length + (Dns.Name.encode q.name).length - 1 + 1 =
      (pre ++ dotted q.name).length := by
    rw [List.length_append, length_dotted]
    omega
  have htype : readU16 (pre ++ (dotted q.name ++ (be 2 q.qtype ++ (be 2 q.qclass ++ post))))
      (pre ++ dotted q.name).length = q.qtype := by
    rw [← List.append_assoc pre]
    exact readU16_append _ _ hv.qtype
  have hclass : readU16 (pre ++ (dotted q.name ++ (be 2 q.qtype ++ (be 2 q.qclass ++ post))))
      ((pre ++ dotted q.name).length + 2) = q.qclass := by
    have he : (pre ++ dotted q.name).length + 2 = (pre ++ dotted q.name ++ be 2 q.qtype).length := by
      rw [@List.length_append _ (pre ++ dotted q.name), Dns.length_be]
    rw [he, ← List.append_assoc pre, ← List.append_assoc _ (be 2 q.qtype)]
    exact readU16_append _ _ hv.qclass
  have hdotted : (pre ++ dotted q.name).length = pre.length + (Dns.Name.encode q.name).length := by
    rw [List.length_append, length_dotted]
  refine ⟨pre ++ (dotted q.name ++ (be 2 q.qtype ++ be 2 q.qclass)), _, hrb ▸ hskip, ?_, by omega,
    ?_, ?_, fun h1 => ?_⟩
  · simp [length_dotted, Dns.Question.encode, List.length_append]
  · rw [hrb, hoff, htype]
  · rw [hrb, hoff, hclass]
  · rw [hrb, h1]
    exact cstring_dotted

/-- A turn of the loop over the questions, at a question that is written out. -/
theorem handleQuestion_encode (dns : HevMappedDNS) (ok : Bool) (hv : q.Valid)
    (hq : qlen = (pre ++ (q.encode ++ post)).length) (answers : List (Nat × BitVec 32)) :
    ∃ rb, handleQuestion qlen ok ⟨dns, pre ++ (q.encode ++ post), pre.length, answers⟩ =
      .ok ⟨(serveOne ok pre.length q dns).1, rb ++ post, pre.length + q.encode.length,
        answers ++ (serveOne ok pre.length q dns).2⟩ ∧
      rb.length = pre.length + q.encode.length := by
  have hqlen : qlen = pre.length + q.encode.length + post.length := by
    rw [hq, List.length_append, List.length_append, Nat.add_assoc]
  obtain ⟨rb, off, hskip, hrb, hend, htype, hclass, hname⟩ := question_read hv hq
  refine ⟨rb, ?_, hrb⟩
  simp only [handleQuestion, hskip, htype, hclass, hend]
  rw [if_neg (by omega)]
  by_cases hA : q.qtype = 1 ∧ q.qclass = 1
  · rw [if_pos hA, hname hA.1]
    simp only [serveOne, asked, if_pos hA, serve]
    split <;> simp_all
  · rw [if_neg hA]
    simp [serveOne, asked, if_neg hA, serve]

theorem serve_append {bs : List Asked} :
    serve dns (as ++ bs) =
      ((serve (serve dns as).1 bs).1, (serve dns as).2 ++ (serve (serve dns as).1 bs).2) := by
  induction as generalizing dns with
  | nil => rfl
  | cons a as ih =>
    simp only [List.cons_append, serve]
    split
    · rw [ih]
      rfl
    · exact ih

theorem asked_cons {off : Nat} :
    asked alloc i off (q :: qs) =
      asked (fun _ => alloc i) 0 off [q] ++ asked alloc (i + 1) (off + q.encode.length) qs := by
  simp only [asked]
  split <;> rfl

/-- The loop over questions that are written out. -/
theorem handleQuestions_encode (pre post : Bytes) (dns : HevMappedDNS) (alloc : Nat → Bool)
    (answers : List (Nat × BitVec 32)) (i : Nat) (hv : ∀ q ∈ qs, q.Valid)
    (hq : qlen = (pre ++ (qs.flatMap Dns.Question.encode ++ post)).length) :
    ∃ rb, handleQuestions qlen alloc qs.length i
        ⟨dns, pre ++ (qs.flatMap Dns.Question.encode ++ post), pre.length, answers⟩ =
      .ok ⟨(serve dns (asked alloc i pre.length qs)).1, rb,
        pre.length + (qs.flatMap Dns.Question.encode).length,
        answers ++ (serve dns (asked alloc i pre.length qs)).2⟩ := by
  induction qs generalizing pre dns answers i with
  | nil => exact ⟨pre ++ post, by simp [handleQuestions, asked, serve]⟩
  | cons q qs ih =>
    obtain ⟨hvq, hv⟩ := List.forall_mem_cons.mp hv
    rw [List.flatMap_cons, List.append_assoc] at hq ⊢
    obtain ⟨rb, hrb, hlen⟩ := handleQuestion_encode dns (alloc i) hvq hq answers
    have hq' : qlen = (rb ++ (qs.flatMap Dns.Question.encode ++ post)).length := by
      rw [hq]
      simp only [List.length_append] at hlen ⊢
      omega
    obtain ⟨rb', hrest⟩ := ih rb (serveOne (alloc i) pre.length q dns).1
      (answers ++ (serveOne (alloc i) pre.length q dns).2) (i + 1) hv hq'
    refine ⟨rb', ?_⟩
    rw [List.length_cons, handleQuestions, hrb, ← hlen]
    dsimp only
    rw [hrest, hlen, asked_cons, serve_append]
    simp [serveOne, List.append_assoc, Nat.add_assoc]

theorem answerBytes_eq (a : Nat × BitVec 32) : answerBytes a.1 a.2 = (pointed a).encode := by
  have hhi : UInt8.ofNat ((0xc000 + a.1 % 256) / 256) = 0xc0 := by
    rw [show (0xc000 + a.1 % 256) / 256 = 0xc0 by omega]
    rfl
  have hlo : UInt8.ofNat (0xc000 + a.1 % 256) = UInt8.ofNat a.1 := by
    rw [← UInt8.toNat_inj, UInt8.toNat_ofNat', UInt8.toNat_ofNat']
    omega
  simp [answerBytes, Dns.Pointed.encode, pointed, writeU16_eq, writeU32_eq, Dns.be_two, hhi, hlo]

theorem length_pointed (a : Nat × BitVec 32) : (pointed a).encode.length = 16 := by
  simp [pointed, Dns.Pointed.encode]

theorem length_answers : ((answers.map pointed).flatMap Dns.Pointed.encode).length =
    16 * answers.length := by
  induction answers with
  | nil => rfl
  | cons a answers ih =>
    rw [List.map_cons, List.flatMap_cons, List.length_append, ih, length_pointed, List.length_cons]
    omega

/-- The answers behind the questions, in a buffer that has room for them. -/
theorem writeAnswers_eq (answers : List (Nat × BitVec 32)) (pre post : Bytes) :
    writeAnswers answers (pre ++ post) pre.length =
    if 16 * answers.length ≤ post.length then
      some (pre ++ ((answers.map pointed).flatMap Dns.Pointed.encode ++ post.drop (16 * answers.length)),
        pre.length + 16 * answers.length)
    else none := by
  induction answers generalizing pre post with
  | nil => simp [writeAnswers]
  | cons a answers ih =>
    obtain ⟨ipo, ip⟩ := a
    rw [writeAnswers, List.length_append]
    by_cases hroom : post.length < 16
    · rw [if_pos (by omega), if_neg (by rw [List.length_cons]; omega)]
    · have hpost : post = post.take 16 ++ post.drop 16 := (List.take_append_drop 16 post).symm
      have htake : (post.take 16).length = 16 := by
        rw [List.length_take]
        omega
      have hbytes := answerBytes_eq (ipo, ip)
      dsimp only at hbytes
      have hstore : store (pre ++ post) pre.length (answerBytes ipo ip) =
          (pre ++ (pointed (ipo, ip)).encode) ++ post.drop 16 := by
        rw [hpost, store_append, hbytes, ← hpost, List.append_assoc]
        rw [htake, hbytes, length_pointed]
      have hoff : pre.length + 16 = (pre ++ (pointed (ipo, ip)).encode).length := by
        rw [List.length_append, length_pointed]
      rw [if_neg (by omega), hstore, hoff, ih, List.length_drop, List.drop_drop, List.length_cons]
      by_cases hle : 16 * (answers.length + 1) ≤ post.length
      · rw [if_pos (by omega), if_pos hle]
        simp only [List.map_cons, List.flatMap_cons, List.append_assoc, List.length_append,
          length_pointed]
        rw [show 16 * (answers.length + 1) = 16 + 16 * answers.length by omega, Nat.add_assoc]
      · rw [if_neg (by omega), if_neg hle]

section Header

variable {id fl fl' qd an an' ns ar : Nat}

theorem store_flags (v : Nat) : store (Dns.header id fl qd an ns ar ++ post) 2 (writeU16 v) =
    Dns.header id v qd an ns ar ++ post := by
  have h := store_append (be 2 id) (be 2 fl) (be 2 v)
    (be 2 qd ++ be 2 an ++ be 2 ns ++ be 2 ar ++ post) (by simp)
  simpa [Dns.header, List.append_assoc, writeU16_eq] using h

theorem store_answers (v : Nat) : store (Dns.header id fl qd an ns ar ++ post) 6 (writeU16 v) =
    Dns.header id fl qd v ns ar ++ post := by
  have h := store_append (be 2 id ++ be 2 fl ++ be 2 qd) (be 2 an) (be 2 v)
    (be 2 ns ++ be 2 ar ++ post) (by simp)
  simpa [Dns.header, List.append_assoc, writeU16_eq] using h

theorem store_counts : store (Dns.header id fl qd an ns ar ++ post) 6 [0, 0, 0, 0] =
    Dns.header id fl qd 0 0 ar ++ post := by
  have h := store_append (be 2 id ++ be 2 fl ++ be 2 qd) (be 2 an ++ be 2 ns)
    (be 2 0 ++ be 2 0) (be 2 ar ++ post) (by simp)
  have hz : be 2 0 ++ be 2 0 = [0, 0, 0, 0] := rfl
  simpa [Dns.header, List.append_assoc, hz] using h

theorem readU16_flags (h : fl < 65536) : readU16 (Dns.header id fl qd an ns ar ++ post) 2 = fl := by
  have hr := readU16_append (be 2 id) (be 2 qd ++ be 2 an ++ be 2 ns ++ be 2 ar ++ post) h
  simpa [Dns.header, List.append_assoc] using hr

theorem readU16_count (h : qd < 65536) : readU16 (Dns.header id fl qd an ns ar ++ post) 4 = qd := by
  have hr := readU16_append (be 2 id ++ be 2 fl) (be 2 an ++ be 2 ns ++ be 2 ar ++ post) h
  simpa [Dns.header, List.append_assoc] using hr

end Header

variable {query : Query} {res : Bytes} {out : Response}

/-- The store after a query, and the answers to it. -/
def Query.served (q : Query) (dns : HevMappedDNS) (alloc : Nat → Bool) :
    HevMappedDNS × List (Nat × BitVec 32) :=
  serve dns (asked alloc 0 12 q.questions)

theorem length_reply (answers : List (Nat × BitVec 32)) : (query.reply answers).length =
    12 + (query.questions.flatMap Dns.Question.encode).length + 16 * answers.length := by
  rw [Query.reply, List.length_append, List.length_append, Dns.length_header, length_answers,
    Nat.add_assoc]

/-- The query is answered if the buffer has room for it and for its reply. -/
theorem handle_eq : handle self alloc query.bytes res =
    if res.length < query.bytes.length then .error self
    else if (query.reply (query.served self alloc).2).length ≤ res.length then
      .ok ⟨(query.served self alloc).1,
        query.reply (query.served self alloc).2 ++
          (query.rest ++ res.drop query.bytes.length).drop (16 * (query.served self alloc).2.length),
        (query.reply (query.served self alloc).2).length⟩
    else .error (query.served self alloc).1 := by
  have hqd : query.questions.length < 65536 := Nat.lt_of_le_of_lt query.few (by decide)
  rw [handle]
  split
  · rfl
  · rename_i hroom
    have hsb : store (store res 0 query.bytes) 6 [0, 0, 0, 0] =
        (Dns.header query.id query.flags query.questions.length 0 0 query.ar ++
          query.questions.flatMap Dns.Question.encode) ++
            (query.rest ++ res.drop query.bytes.length) := by
      have hcopy : store res 0 query.bytes = query.bytes ++ res.drop query.bytes.length := by
        simp [store]
      rw [hcopy, Query.bytes, List.append_assoc, store_counts]
      simp [List.append_assoc]
    obtain ⟨rb, hwalk⟩ : ∃ rb, handleQuestions query.bytes.length alloc query.questions.length 0
        ⟨self, query.bytes, 12, []⟩ = .ok ⟨(query.served self alloc).1, rb,
          12 + (query.questions.flatMap Dns.Question.encode).length,
          (query.served self alloc).2⟩ := by
      have hw := handleQuestions_encode
        (Dns.header query.id query.flags query.questions.length query.an query.ns query.ar)
        query.rest self alloc [] 0 query.valid rfl
      rwa [Dns.length_header, List.nil_append] at hw
    have hoff : 12 + (query.questions.flatMap Dns.Question.encode).length =
        (Dns.header query.id query.flags query.questions.length 0 0 query.ar ++
          query.questions.flatMap Dns.Question.encode).length := by
      rw [List.length_append, Dns.length_header]
    have hlen : res.length = 12 + (query.questions.flatMap Dns.Question.encode).length +
        (query.rest ++ res.drop query.bytes.length).length := by
      have hb : query.bytes.length = 12 + (query.questions.flatMap Dns.Question.encode).length +
          query.rest.length := by
        rw [Query.bytes, List.length_append, List.length_append, Dns.length_header, Nat.add_assoc]
      rw [List.length_append, List.length_drop]
      omega
    have hflags : readU16 query.bytes 2 = query.flags := readU16_flags query.counts.2.1
    have hcount : readU16 query.bytes 4 = query.questions.length := readU16_count hqd
    have hfew : ¬ query.questions.length > 32 := Nat.not_lt.mpr query.few
    have hwrite := writeAnswers_eq (query.served self alloc).2
      (Dns.header query.id query.flags query.questions.length 0 0 query.ar ++
        query.questions.flatMap Dns.Question.encode)
      (query.rest ++ res.drop query.bytes.length)
    rw [← hoff] at hwrite
    simp only [hcount, hflags, hfew, if_false, hwalk, hsb, hwrite, length_reply]
    by_cases hfit : 16 * (query.served self alloc).2.length ≤
        (query.rest ++ res.drop query.bytes.length).length
    · rw [if_pos hfit, if_pos (by omega)]
      simp only [List.append_assoc, store_flags, store_answers, Query.reply, replyFlags]
    · rw [if_neg hfit, if_neg (by omega)]

/-- What the query is answered with. -/
theorem handle_ok (h : handle self alloc query.bytes res = .ok out) :
    out.dns = (query.served self alloc).1 ∧
      out.sb.take out.off = query.reply (query.served self alloc).2 := by
  rw [handle_eq] at h
  split at h
  · cases h
  · split at h
    · cases h
      exact ⟨rfl, List.take_left⟩
    · cases h

end XTunnel.MappedDns
