import Mathlib.Data.List.TakeWhile
import XTunnel.MappedDns.History
import XTunnel.MappedDns.NodeNames

/-! When the reply of the mapped DNS is a well-formed and true answer to its query. -/
namespace XTunnel.MappedDns

open HevMappedDNS
open Dns (Bytes be)

/-- The record answers a question for the address of a name. -/
structure AnswerTo (lookup : BitVec 32 → Option Name) (name : Dns.Name) (r : Dns.Record) : Prop where
  owner : r.name = name
  address : r.rtype = 1 ∧ r.rclass = 1
  lookup : ∃ ip : BitVec 32, r.rdata = be 4 ip.toNat ∧ lookup ip = some name.text

/-- The question asks for an address. -/
def asksAddress (question : Dns.Question) : Bool := question.qtype = 1 ∧ question.qclass = 1

/-- The bytes are a message that repeats the questions of the query and answers those that ask for
an address, one by one; its header counts what is there. -/
structure TrueReply (q : Query) (lookup : BitVec 32 → Option Name) (out : Bytes) : Prop where
  questions : Dns.At out 12 (q.questions.flatMap Dns.Question.encode)
  message : ∃ m : Dns.Message, Dns.Parses out m ∧ m.questions = q.questions ∧
    List.Forall₂ (fun question => AnswerTo lookup question.name) (q.questions.filter asksAddress)
      m.answers

/-- Every question finds a slot, and its address leads back to that slot. -/
def Serves : HevMappedDNS → List Asked → Prop
  | _, [] => True
  | dns, a :: as =>
    (∃ idx, (dns.find (cname a.name) a.alloc).2 = some idx ∧
      dns.hostPart (dns.address idx) = BitVec.ofNat 32 idx) ∧
    Serves (dns.find (cname a.name) a.alloc).1 as

/-- The copy of the name is made for every question that needs a node. -/
def Copied : HevMappedDNS → List (Asked × Bool) → Prop
  | _, [] => True
  | dns, a :: as => (dns.search (cname a.1.name) = none → a.2 = true) ∧
    Copied (dns.find (cname a.1.name) a.1.alloc).1 as

/-- No additional record is counted, and of each question for an address, the name occurs at the low
byte of its offset, no label has a zero byte, and the store serves it. -/
structure Served (dns : HevMappedDNS) (alloc : Nat → Bool) (q : Query) : Prop where
  noAdditional : q.ar = 0
  pointers : ∀ a ∈ asked alloc 0 12 q.questions,
    (a.off % 256, a.name) ∈ Dns.occurrences 12 q.questions
  plain : ∀ a ∈ asked alloc 0 12 q.questions, ∀ l ∈ a.name, 0 ∉ l
  served : Serves dns (asked alloc 0 12 q.questions)

/-- Each node that a question needs is allocated, and its name copied. -/
structure Answerable (s : NamedStore) (alloc : Nat → Allocation) (q : Query) : Prop extends
    Served s.dns (fun i => (alloc i).node) q where
  copied : Copied s.dns (NamedStore.asks alloc 0 12 q.questions)

/-- The name that is found is a C string. -/
def Op.IsCString : Op → Prop
  | .find name _ => 0 ∉ name
  | .lookup _ => True

/-- The stores of a program, whose names are C strings. -/
def ReachableCStore (net mask : BitVec 32) (max : Nat) : HevMappedDNS → Prop :=
  Reachable (fun s => construct net mask max = some s) (Guarded Step fun _ op => op.IsCString)

variable {net mask : BitVec 32} {max : Nat} {self dns t : HevMappedDNS} {name : Name} {i idx : Nat}
  {op : Op} {as : List Asked} {h l : List Name} {a : Asked} {alloc : Nat → Bool} {ip : BitVec 32}

/-- The nodes of the heap hold C strings. -/
def CNames (dns : HevMappedDNS) : Prop := ∀ p n, dns.heap p = some n → 0 ∉ n.name

/-- The nodes after a find are those from before, under the same names, and the one that is made. -/
theorem find_heap {ok : Bool} {p : Ptr} {n : HevMappedDNSNode}
    (hp : (dns.find name ok).1.heap p = some n) :
    (∃ m, dns.heap p = some m ∧ m.name = n.name) ∨
      p = dns.brk ∧ n.name = name ∧ dns.search name = none := by
  have hlink : ∀ {m : HevMappedDNSNode}, dns.search name = none → (dns.link name).heap p = some m →
      m.name = n.name → (∃ m, dns.heap p = some m ∧ m.name = n.name) ∨
        p = dns.brk ∧ n.name = name ∧ dns.search name = none := by
    intro m hsr hm hname
    by_cases hb : p = dns.brk
    · subst hb
      rw [link_heap_brk] at hm
      cases hm
      exact .inr ⟨rfl, hname.symm, hsr⟩
    · rw [link_heap_ne hb] at hm
      exact .inl ⟨m, hm, hname⟩
  unfold find at hp
  split at hp
  · exact .inl ⟨n, hp, rfl⟩
  · rename_i hsr
    split at hp
    · exact .inl ⟨n, hp, rfl⟩
    · dsimp only at hp
      split at hp
      · obtain ⟨m, hm, hname⟩ := record_heap_name hp
        exact hlink hsr hm hname
      · split at hp
        · exact hlink hsr hp rfl
        · rename_i nf _
          obtain ⟨m, hm, hname⟩ := record_heap_name hp
          by_cases hne : p = nf
          · rw [hne, unlink_heap_self] at hm
            cases hm
          · rw [unlink_heap_ne hne] at hm
            exact hlink hsr hm hname

theorem lookup_heap : (dns.lookup ip).1.heap = dns.heap := by
  unfold lookup
  dsimp only
  split
  · rfl
  · split <;> rfl

theorem cNames_step : Preserves (Guarded Step fun _ op => op.IsCString) CNames := by
  rintro s op t ⟨hc, hst⟩ hs
  cases hst with
  | find name ok =>
    intro p n hp
    rcases find_heap hp with ⟨m, hm, hname⟩ | ⟨-, rfl, -⟩
    · rw [← hname]
      exact hs p m hm
    · exact hc
  | lookup ip =>
    intro p n hp
    rw [lookup_heap] at hp
    exact hs p n hp

/-- A find that yields a slot has a node allocated if it needs one. -/
theorem find_of_some {ok : Bool} (hf : (dns.find name ok).2 = some idx) :
    dns.find name ok = dns.find name true := by
  cases ok with
  | true => rfl
  | false =>
    unfold find at hf ⊢
    split
    · rfl
    · rename_i hsr
      rw [hsr] at hf
      cases hf

/-- What a find yields is the slot of the name. -/
theorem find_slot (hl : dns.Linked) (hs : dns.Slotted) (hmax : 0 < dns.max)
    (hf : (dns.find name true).2 = some idx) : (dns.find name true).1.Live idx name := by
  cases hsr : dns.search name with
  | some p =>
    obtain ⟨n, hn, rfl⟩ := search_some hsr
    obtain ⟨hlt, hr⟩ := hs.node_record p n hn
    rw [find_live hsr, hn] at hf
    cases hf
    rw [find_live hsr]
    exact ⟨hlt, p, n, hr, hn, rfl⟩
  | none =>
    by_cases hroom : dns.use < dns.max
    · rw [find_grow hsr hroom] at hf ⊢
      cases hf
      refine ⟨Nat.lt_succ_self _, dns.brk, ⟨name, dns.use⟩, ?_, ?_, rfl⟩
      · simp [record]
      · simp [record, link]
    · obtain ⟨nf, rest, hlist⟩ := exists_head hl hs (by omega)
      obtain ⟨j, -, hfind, hnew, -⟩ := find_evicts hl hs hroom hsr hlist
      obtain rfl := Option.some.inj (hfind.symm.trans hf)
      exact hnew

/-- What the store keeps over the questions of a query. -/
structure Kept (net mask : BitVec 32) (max : Nat) (h : List Name) (dns : HevMappedDNS) : Prop where
  inv : StoreInv net mask max dns
  remembers : Remembers h dns
  strings : CNames dns

theorem listNames_nodup (hl : dns.Linked) : dns.listNames.Nodup :=
  map_nodup hl hl.list_nodup fun p hp => (hl.list_mem p).mp hp

theorem length_step (hmax : 0 < max) :
    Preserves Step fun dns => StoreInv net mask max dns ∧ dns.list.length = dns.use := by
  rintro s op t hst ⟨hi, hlen⟩
  refine ⟨storeInv_step s op t hst hi, ?_⟩
  have hpos : 0 < s.max := hi.config.2.2.symm ▸ hmax
  cases hst with
  | find name ok =>
    have hfind := (find_access hi.linked hi.slotted hlen hpos name).2
    cases hf : (s.find name ok).2 with
    | some idx =>
      rw [find_of_some hf]
      exact hfind
    | none =>
      cases ok with
      | true => exact hfind
      | false =>
        cases hsr : s.search name with
        | some p =>
          rw [find_live hsr] at hfind ⊢
          exact hfind
        | none => simpa [find, hsr] using hlen
  | lookup ip =>
    obtain ⟨-, hl, hu⟩ := lookup_access hi.accepted hi.linked hi.slotted ip
    rw [hl, hu, hlen]

theorem kept_reachable (hr : ReachableCStore net mask max self) (hmax : 0 < max) :
    Kept net mask max self.listNames self := by
  obtain ⟨s, ops, hc, hrun⟩ := hr
  have hp : Preserves Step fun dns => StoreInv net mask max dns ∧ dns.list.length = dns.use :=
    length_step hmax
  have hinv := hrun.of_guarded.invariant hp ⟨storeInv_construct hc, (remembers_construct hc).length⟩
  have hstrings : CNames self := by
    refine hrun.invariant cNames_step fun p n hp => ?_
    unfold construct at hc
    split at hc <;> cases hc
    cases hp
  obtain ⟨hi, hlen⟩ := hinv
  refine ⟨hi, ⟨?_, hlen⟩, hstrings⟩
  have hle := hi.slotted.use_le
  have hnames : self.listNames.length ≤ self.max := by
    rw [listNames, List.length_map, hlen]
    exact hle
  rw [Recency.recent, (listNames_nodup hi.linked).dedup, Nat.sub_eq_zero_of_le hnames,
    List.drop_zero]

theorem Kept.find (hk : Kept net mask max h dns) (hmax : 0 < max) {ok : Bool} (hname : 0 ∉ name)
    (hf : (dns.find name ok).2 = some idx) :
    Kept net mask max (h ++ [name]) (dns.find name ok).1 ∧ (dns.find name ok).1.Live idx name := by
  have hpos : 0 < dns.max := hk.inv.config.2.2.symm ▸ hmax
  have hst : Step dns (.find name true) (dns.find name true).1 := .find dns name true
  have hg : Guarded Step (fun _ op => op.IsCString) dns (.find name true) _ := ⟨hname, hst⟩
  have hstrings : CNames (dns.find name true).1 := cNames_step _ _ _ hg hk.strings
  rw [find_of_some hf]
  rw [find_of_some hf] at hf
  refine ⟨⟨storeInv_step _ _ _ hst hk.inv, ?_, hstrings⟩,
    find_slot hk.inv.linked hk.inv.slotted hpos hf⟩
  exact remembers_next hk.inv hmax hk.remembers
    (show Op.Allocates (.find name true) from rfl)

/-- A name that is used last stays. -/
theorem Kept.holds (hk : Kept net mask max (h ++ l) dns) (hn : name ∈ l) (hl : l.length ≤ max) :
    dns.Holds name := by
  rw [holds_iff hk.inv.linked hk.inv.slotted, hk.remembers.recent]
  exact Recency.mem_recent_append hn (hk.inv.config.2.2.symm ▸ hl)

/-- Every question finds a slot. -/
def Found : HevMappedDNS → List Asked → Prop
  | _, [] => True
  | dns, a :: as => (∃ idx, (dns.find (cname a.name) a.alloc).2 = some idx) ∧
    Found (dns.find (cname a.name) a.alloc).1 as

theorem Serves.found (hs : Serves dns as) : Found dns as := by
  induction as generalizing dns with
  | nil => trivial
  | cons a as ih =>
    obtain ⟨⟨idx, hf, -⟩, hs⟩ := hs
    exact ⟨⟨idx, hf⟩, ih hs⟩

theorem serve_cons (hf : (dns.find (cname a.name) a.alloc).2 = some idx) :
    serve dns (a :: as) = ((serve (dns.find (cname a.name) a.alloc).1 as).1,
      (a.off, (dns.find (cname a.name) a.alloc).1.address idx) ::
        (serve (dns.find (cname a.name) a.alloc).1 as).2) := by
  rw [serve]
  split
  · rename_i d j hfd
    rw [hfd] at hf
    cases hf
    rw [hfd]
  · rename_i hfd
    rw [hfd] at hf
    cases hf

theorem length_serve_le : (serve dns as).2.length ≤ as.length := by
  induction as generalizing dns with
  | nil => exact Nat.le_refl 0
  | cons a as ih =>
    rw [serve]
    split
    · exact Nat.succ_le_succ ih
    · exact Nat.le_succ_of_le ih

/-- Where every question is answered, every one finds a slot. -/
theorem found_of_length (hlen : (serve dns as).2.length = as.length) : Found dns as := by
  induction as generalizing dns with
  | nil => trivial
  | cons a as ih =>
    rw [serve] at hlen
    split at hlen
    · rename_i d idx hfd
      rw [Found, hfd]
      exact ⟨⟨idx, rfl⟩, ih (Nat.succ.inj hlen)⟩
    · rename_i d _
      have hle : (serve d as).2.length ≤ as.length := length_serve_le
      rw [List.length_cons] at hlen
      omega

theorem cname_plain (name : Dns.Name) : 0 ∉ cname name := by
  intro h
  have hne := List.mem_takeWhile_imp h
  simp at hne

/-- A name that is found stays in its slot while the others are. -/
theorem live_serve (hk : Kept net mask max (h ++ l) dns) (hlive : dns.Live idx name)
    (hn : name ∈ l) (hroom : l.length + as.length ≤ max) (hf : Found dns as) :
    (serve dns as).1.Live idx name := by
  induction as generalizing dns l with
  | nil => exact hlive
  | cons a as ih =>
    rw [List.length_cons] at hroom
    obtain ⟨⟨j, hj⟩, hf⟩ := hf
    obtain ⟨hk', -⟩ := hk.find (by omega) (cname_plain a.name) hj
    rw [List.append_assoc] at hk'
    have hn' : name ∈ l ++ [cname a.name] := List.mem_append_left _ hn
    have hlen : (l ++ [cname a.name]).length = l.length + 1 := by simp
    have hholds := hk'.holds hn' (by omega)
    have hlive' : (dns.find (cname a.name) a.alloc).1.Live idx name :=
      Live.next hk.inv.linked hk.inv.slotted hlive
        (show (dns.next (.find (cname a.name) a.alloc)).Holds name from hholds)
    rw [serve_cons hj]
    exact ih hk' hlive' hn' (by omega) hf

theorem kept_serve (hk : Kept net mask max h dns) (hmax : 0 < max) (hf : Found dns as) :
    ∃ h', Kept net mask max h' (serve dns as).1 := by
  induction as generalizing dns h with
  | nil => exact ⟨h, hk⟩
  | cons a as ih =>
    obtain ⟨⟨j, hj⟩, hf⟩ := hf
    rw [serve_cons hj]
    exact ih (hk.find hmax (cname_plain a.name) hj).1 hf

theorem mem_text {name : Dns.Name} : (0 : UInt8) ∈ name.text ↔ ∃ l ∈ name, 0 ∈ l := by
  cases name with
  | nil => simp [Dns.Name.text]
  | cons l name => simp [Dns.Name.text]

theorem cname_eq {name : Dns.Name} (hp : 0 ∉ name.text) : cname name = name.text := by
  refine List.takeWhile_eq_self_iff.mpr fun x hx => ?_
  simp only [decide_eq_true_eq]
  rintro rfl
  exact hp hx

/-- The address of a slot looks up to the name that is asked for, if it leads back to the slot and
the name is a C string. -/
theorem lookup_slot (hk : Kept net mask max h dns) {name : Dns.Name}
    (hlive : dns.Live idx (cname name)) :
    (dns.lookup (dns.address idx)).2 = some name.text ↔
      dns.hostPart (dns.address idx) = BitVec.ofNat 32 idx ∧ 0 ∉ name.text := by
  have hsmall : (BitVec.ofNat 32 idx).toNat = idx := by
    rw [BitVec.toNat_ofNat]
    have hlt := hlive.1
    have hle := hk.inv.slotted.use_le
    have ha := hk.inv.accepted
    unfold Accepted at ha
    have hint := BitVec.toInt_lt (x := ~~~dns.mask)
    omega
  rw [lookup_eq_iff hk.inv.accepted hk.inv.slotted]
  constructor
  · intro hl
    have hplain : 0 ∉ name.text := by
      obtain ⟨-, p, n, -, hp, hn⟩ := hl
      rw [← hn]
      exact hk.strings p n hp
    rw [cname_eq hplain] at hlive
    have hidx := hl.slot_eq hk.inv.linked hk.inv.slotted hlive
    refine ⟨?_, hplain⟩
    rw [← BitVec.toNat_inj, hidx, hsmall]
  · rintro ⟨hhost, hplain⟩
    rw [hhost, hsmall, ← cname_eq hplain]
    exact hlive

/-- The answers to the questions look up to their names. -/
theorem lookups_iff (hk : Kept net mask max h dns) (hroom : as.length ≤ max) (hf : Found dns as) :
    List.Forall₂ (fun a x => ((serve dns as).1.lookup x.2).2 = some a.name.text) as
        (serve dns as).2 ↔
      Serves dns as ∧ ∀ a ∈ as, 0 ∉ a.name.text := by
  induction as generalizing dns h with
  | nil => simp [serve, Serves]
  | cons a as ih =>
    rw [List.length_cons] at hroom
    obtain ⟨⟨j, hj⟩, hf⟩ := hf
    obtain ⟨hk', hlive⟩ := hk.find (by omega) (cname_plain a.name) hj
    have hlive' := live_serve hk' hlive (List.mem_singleton.mpr rfl)
      (by rw [List.length_singleton]; omega) hf
    obtain ⟨h', hk''⟩ := kept_serve hk' (by omega) hf
    have haddr : ∀ k, dns.address k = (serve (dns.find (cname a.name) a.alloc).1 as).1.address k := by
      intro k
      rw [address, address, hk.inv.config.1, hk''.inv.config.1]
    have haddr' : (dns.find (cname a.name) a.alloc).1.address j = dns.address j := by
      rw [address, address, hk.inv.config.1, hk'.inv.config.1]
    have hhost : ∀ x, dns.hostPart x = (serve (dns.find (cname a.name) a.alloc).1 as).1.hostPart x := by
      intro x
      rw [hostPart, hostPart, hk.inv.config.2.1, hk''.inv.config.2.1]
    have hslot := lookup_slot hk'' hlive'
    rw [← haddr, ← hhost] at hslot
    rw [serve_cons hj, List.forall₂_cons, ih hk' (by omega) hf, List.forall_mem_cons, haddr', hslot]
    constructor
    · rintro ⟨⟨hh, hp⟩, hs, hps⟩
      exact ⟨⟨⟨j, hj, hh⟩, hs⟩, hp, hps⟩
    · rintro ⟨⟨⟨k, hfk, hh⟩, hs⟩, hp, hps⟩
      obtain rfl := Option.some.inj (hj.symm.trans hfk)
      exact ⟨⟨hh, hp⟩, hs, hps⟩

variable {qs : List Dns.Question} {off : Nat} {x : Nat × BitVec 32} {xs : List (Nat × BitVec 32)}
  {lookup : BitVec 32 → Option Name}
  {q : Query} {occ : List (Nat × Dns.Name)} {rs : List Dns.Record}

/-- An answer keeps the offset of its question. -/
theorem pointers_iff {L : Asked → Nat × BitVec 32 → Prop} (hf : Found dns as) :
    List.Forall₂ (fun a x => (x.1 % 256, a.name) ∈ occ ∧ L a x) as (serve dns as).2 ↔
      (∀ a ∈ as, (a.off % 256, a.name) ∈ occ) ∧ List.Forall₂ L as (serve dns as).2 := by
  induction as generalizing dns with
  | nil => simp [serve]
  | cons a as ih =>
    obtain ⟨⟨j, hj⟩, hf⟩ := hf
    rw [serve_cons hj, List.forall₂_cons, List.forall₂_cons, List.forall_mem_cons, ih hf]
    exact and_and_and_comm

theorem mem_serve (hx : x ∈ (serve dns as).2) : ∃ a ∈ as, x.1 = a.off := by
  induction as generalizing dns with
  | nil => cases hx
  | cons a as ih =>
    rw [serve] at hx
    split at hx
    · rcases List.mem_cons.mp hx with rfl | hx
      · exact ⟨a, List.mem_cons_self, rfl⟩
      · obtain ⟨b, hb, he⟩ := ih hx
        exact ⟨b, List.mem_cons_of_mem _ hb, he⟩
    · obtain ⟨b, hb, he⟩ := ih hx
      exact ⟨b, List.mem_cons_of_mem _ hb, he⟩

/-- A question for an address starts in the section of the questions. -/
theorem asked_off (ha : a ∈ asked alloc i off qs) :
    a.off < off + (qs.flatMap Dns.Question.encode).length := by
  induction qs generalizing i off a with
  | nil => cases ha
  | cons q qs ih =>
    have hpos := length_encode (q := q)
    rw [List.flatMap_cons, List.length_append]
    have hrest : ∀ b ∈ asked alloc (i + 1) (off + q.encode.length) qs,
        b.off < off + (q.encode.length + (qs.flatMap Dns.Question.encode).length) := by
      intro b hb
      have hlt := ih hb
      omega
    rw [asked] at ha
    split at ha
    · rcases List.mem_cons.mp ha with rfl | ha
      · dsimp only
        omega
      · exact hrest a ha
    · exact hrest a ha

theorem asked_names (alloc : Nat → Bool) (i off : Nat) (qs : List Dns.Question) :
    (asked alloc i off qs).map (·.name) = (qs.filter asksAddress).map (·.name) := by
  induction qs generalizing i off with
  | nil => rfl
  | cons q qs ih =>
    rw [asked, List.filter_cons]
    by_cases hA : q.qtype = 1 ∧ q.qclass = 1
    · rw [if_pos hA, if_pos (by simpa [asksAddress] using hA), List.map_cons, List.map_cons, ih]
    · rw [if_neg hA, if_neg (by simpa [asksAddress] using hA), ih]

theorem length_asked_le : (asked alloc i off qs).length ≤ qs.length := by
  have hlen := congrArg List.length (asked_names alloc i off qs)
  rw [List.length_map, List.length_map] at hlen
  rw [hlen]
  exact List.length_filter_le _ _

theorem asked_valid (hv : ∀ q ∈ qs, q.Valid) (ha : a ∈ asked alloc i off qs) : a.name.Valid := by
  have hm := List.mem_map_of_mem (f := Asked.name) ha
  rw [asked_names] at hm
  obtain ⟨q, hq, he⟩ := List.mem_map.mp hm
  rw [← he]
  exact (hv q (List.mem_of_mem_filter hq)).name

/-- The records that the pointers and addresses give are those that answer the questions. -/
theorem records_iff (hv : ∀ a ∈ as, a.name.Valid) :
    (∃ rs, List.Forall₂ (Dns.Pointed.Gives occ) (xs.map pointed) rs ∧
      List.Forall₂ (fun a => AnswerTo lookup a.name) as rs) ↔
    List.Forall₂ (fun a x => (x.1 % 256, a.name) ∈ occ ∧ lookup x.2 = some a.name.text)
      as xs := by
  induction as generalizing xs with
  | nil =>
    constructor
    · rintro ⟨rs, hg, ha⟩
      cases ha
      cases xs with
      | nil => exact .nil
      | cons => cases hg
    · intro h
      cases h
      exact ⟨[], .nil, .nil⟩
  | cons a as ih =>
    obtain ⟨hva, hv⟩ := List.forall_mem_cons.mp hv
    constructor
    · rintro ⟨rs, hg, ha⟩
      cases ha with
      | @cons _ r _ rs ha has =>
        cases xs with
        | nil => cases hg
        | cons x xs =>
          rw [List.map_cons, List.forall₂_cons] at hg
          obtain ⟨⟨hm, -, hr⟩, hgs⟩ := hg
          obtain ⟨ip, hrd, hl⟩ := ha.lookup
          have hip : ip = x.2 := by
            rw [hr] at hrd
            exact BitVec.toNat_inj.mp (Dns.be_inj hrd x.2.isLt ip.isLt).symm
          rw [ha.owner] at hm
          exact .cons ⟨hm, hip ▸ hl⟩ ((ih hv).mp ⟨rs, hgs, has⟩)
    · intro h
      cases h with
      | @cons _ x _ xs h hs =>
        obtain ⟨rs, hgs, has⟩ := (ih hv).mpr hs
        refine ⟨(pointed x).record a.name :: rs, ?_, ?_⟩
        · rw [List.map_cons, List.forall₂_cons]
          exact ⟨⟨h.1, hva, rfl⟩, hgs⟩
        · exact .cons ⟨rfl, ⟨rfl, rfl⟩, x.2, rfl, h.2⟩ has

theorem pointed_valid (x : Nat × BitVec 32) : (pointed x).Valid := by
  have hlt := Nat.mod_lt x.1 (show 256 > 0 by decide)
  refine ⟨?_, show 1 < 65536 by decide, show 1 < 65536 by decide, show 1 < 2 ^ 32 by decide, ?_⟩
  · change x.1 % 256 < 0x4000
    omega
  · simp [pointed]

theorem replyFlags_lt {fl : Nat} (h : fl < 65536) : replyFlags fl < 65536 := by
  have hand : (fl &&& 0x100) >>> 1 < 2 ^ 16 := by
    rw [Nat.shiftRight_eq_div_pow]
    have hle : fl &&& 0x100 ≤ fl := Nat.and_le_left
    omega
  exact Nat.or_lt_two_pow (Nat.or_lt_two_pow h (by decide)) hand

/-- A reply is true if nothing is counted as additional, and the pointers and addresses are. -/
theorem trueReply_iff (alloc : Nat → Bool)
    (hxs : ∀ x ∈ xs, x.1 < 12 + (q.questions.flatMap Dns.Question.encode).length)
    (hlen : xs.length ≤ q.questions.length) :
    TrueReply q lookup (q.reply xs) ↔ q.ar = 0 ∧
      List.Forall₂ (fun a x => (x.1 % 256, a.name) ∈ Dns.occurrences 12 q.questions ∧
        lookup x.2 = some a.name.text) (asked alloc 0 12 q.questions) xs := by
  have hfew := q.few
  have hmsg : q.reply xs =
      Dns.header q.id (replyFlags q.flags) q.questions.length (xs.map pointed).length 0 q.ar ++
        (q.questions.flatMap Dns.Question.encode ++
          (xs.map pointed).flatMap Dns.Pointed.encode) := by
    rw [Query.reply, List.length_map]
  have hparses : ∀ m, _ := fun m => Dns.parses_pointed (m := m) q.counts.1
    (replyFlags_lt q.counts.2.1) q.counts.2.2 (by omega) (by rw [List.length_map]; omega) q.valid
    (by
      intro p hp
      obtain ⟨x, -, rfl⟩ := List.mem_map.mp hp
      exact pointed_valid x)
    (by
      intro p hp
      obtain ⟨x, hx, rfl⟩ := List.mem_map.mp hp
      have hle := Nat.mod_le x.1 256
      exact Nat.lt_of_le_of_lt hle (hxs x hx))
    hmsg
  have hnames : ∀ rs, List.Forall₂ (fun question => AnswerTo lookup question.name)
      (q.questions.filter asksAddress) rs ↔
        List.Forall₂ (fun a => AnswerTo lookup a.name) (asked alloc 0 12 q.questions) rs := by
    intro rs
    rw [← List.forall₂_map_left_iff (f := Dns.Question.name), ← asked_names alloc 0 12,
      List.forall₂_map_left_iff]
  rw [← records_iff fun a => asked_valid q.valid]
  constructor
  · intro h
    obtain ⟨m, hm, hq, ha⟩ := h.message
    obtain ⟨-, -, -, -, -, har, hg⟩ := (hparses m).mp ⟨hm, hq⟩
    exact ⟨har, m.answers, hg, (hnames _).mp ha⟩
  · rintro ⟨har, rs, hg, ha⟩
    have hm := (hparses ⟨q.id, replyFlags q.flags, q.questions, rs, [], []⟩).mpr
      ⟨rfl, rfl, rfl, rfl, rfl, har, hg⟩
    refine ⟨?_, ⟨_, hm.1, rfl, (hnames rs).mpr ha⟩⟩
    have hat : Dns.At (q.reply xs) 0 (q.reply xs) := List.prefix_rfl
    rw [Query.reply, Dns.at_append, Dns.length_header, Dns.at_append, ← Query.reply] at hat
    exact hat.2.1

section Named

variable {path : Descent} {s s' : NamedStore} {bs : List (Asked × Bool)} {b : Bool}
  {allocs : Nat → Allocation}

/-- The node of a name has its copy, or all such nodes lack it. -/
def NameIs (b : Bool) (s : NamedStore) (name : Name) : Prop :=
  ∀ p n, s.dns.heap p = some n → n.name = name → s.unnamed p = !b

/-- The node that a find leads to has its copy, unless it was made without. -/
theorem nameIs_find {alloc : Allocation} (hk : Kept net mask max h s.dns)
    (hf : s.find path name alloc = some (s', some idx)) :
    NameIs ((s.dns.search name).isSome || alloc.copy) s' name := by
  have hdns := NamedStore.find_dns hf
  intro p n hp hn
  cases hsr : s.dns.search name with
  | some p₀ =>
    rw [NamedStore.find_unnamed_live hf hsr, Option.isSome_some, Bool.true_or, Bool.not_true]
    rw [find_live hsr] at hdns
    have ht : s.dns.touch p₀ = s'.dns := congrArg Prod.fst hdns
    have hp' : s.dns.heap p = some n := by
      rw [← ht] at hp
      exact hp
    obtain ⟨n₀, hn₀, hname₀⟩ := search_some hsr
    have hpp := hk.inv.linked.names p p₀ n n₀ hp' hn₀ (hn.trans hname₀.symm)
    rw [hpp]
    exact NamedStore.find_named hf hsr
  | none =>
    have hnode : alloc.node = true := by
      by_contra hnode
      have hidx := congrArg Prod.snd hdns
      simp [HevMappedDNS.find, hsr, Bool.eq_false_iff.mpr hnode] at hidx
    rw [NamedStore.find_unnamed_new hf hsr hnode, Option.isSome_none, Bool.false_or]
    have hp₁ : (s.dns.find name alloc.node).1.heap p = some n := by
      rw [hdns]
      exact hp
    rcases find_heap hp₁ with ⟨m, hm, hmn⟩ | ⟨rfl, -⟩
    · exact absurd (hmn.trans hn) (search_none hk.inv.linked hsr hm)
    · rw [Function.update_self]

/-- A find of another name, or of the same one while it is stored, leaves it as it is. -/
theorem NameIs.find {name' : Name} {alloc : Allocation} {r : Option Nat}
    (hs : NameIs b s name) (hl : s.dns.Linked) (hholds : s.dns.Holds name)
    (hf : s.find path name' alloc = some (s', r)) : NameIs b s' name := by
  have hdns := NamedStore.find_dns hf
  intro p n hp hn
  have hp₁ : (s.dns.find name' alloc.node).1.heap p = some n := by
    rw [hdns]
    exact hp
  rcases find_heap hp₁ with ⟨m, hm, hmn⟩ | ⟨-, hname', hsr⟩
  · have hb : p ≠ s.dns.brk := by
      rintro rfl
      rw [hl.fresh _ (Nat.le_refl _)] at hm
      cases hm
    rw [NamedStore.find_unnamed_ne hf hb]
    exact hs p m hm (hmn.trans hn)
  · obtain ⟨-, -, q, m, -, hm, hmn⟩ := hholds
    exact absurd (hmn.trans (hn.symm.trans hname')) (search_none hl hsr hm)

theorem NameIs.step {op : NamedOp} (hs : NameIs b s name) (hl : s.dns.Linked)
    (hholds : s.dns.Holds name) (hst : NamedStep path s op s') : NameIs b s' name := by
  cases hst with
  | find _ hf => exact hs.find hl hholds hf
  | lookup ip =>
    intro p n hp hn
    change (s.dns.lookup ip).1.heap p = some n at hp
    rw [lookup_heap] at hp
    exact hs p n hp hn

/-- The node of a name that is found stays as it is while the other questions are served. -/
theorem nameIs_serve (hk : Kept net mask max (h ++ l) s.dns) (hs : NameIs b s name)
    (hholds : s.dns.Holds name) (hn : name ∈ l) (hroom : l.length + bs.length ≤ max)
    (hf : Found s.dns (bs.map Prod.fst)) (hserve : NamedStore.serve path s bs = some s') :
    NameIs b s' name := by
  induction bs generalizing s l with
  | nil =>
    cases hserve
    exact hs
  | cons a bs ih =>
    rw [List.length_cons] at hroom
    obtain ⟨⟨j, hj⟩, hf⟩ := hf
    rw [NamedStore.serve] at hserve
    split at hserve
    · cases hserve
    · rename_i u r hfind
      have hdns := NamedStore.find_dns hfind
      have hk' := (hk.find (by omega) (cname_plain a.1.name) hj).1
      rw [hdns, List.append_assoc] at hk'
      rw [hdns] at hf
      have hn' : name ∈ l ++ [cname a.1.name] := List.mem_append_left _ hn
      have hlen : (l ++ [cname a.1.name]).length = l.length + 1 := by simp
      exact ih hk' (hs.find hk.inv.linked hholds hfind) (hk'.holds hn' (by omega)) hn' (by omega) hf
        hserve

/-- An address looks up to a name in the memory of the nodes if it does so in the store and the node
has its copy. -/
theorem lookup_named (hk : Kept net mask max h s.dns) (hs : NameIs b s name) :
    (s.lookup ip).2 = some name ↔ (s.dns.lookup ip).2 = some name ∧ b = true := by
  have hlook : (s.dns.lookup ip).2 = some name →
      (s.dns.records (s.dns.hostPart ip).toNat).any s.unnamed = !b := by
    intro hl
    rw [lookup_eq_iff hk.inv.accepted hk.inv.slotted] at hl
    obtain ⟨-, p, n, hr, hp, hn⟩ := hl
    rw [hr, Option.any_some]
    exact hs p n hp hn
  rw [NamedStore.lookup]
  dsimp only
  constructor
  · intro he
    split at he
    · cases he
    · rename_i hu
      rw [hlook he, Bool.not_eq_true, Bool.not_eq_false'] at hu
      exact ⟨he, hu⟩
  · rintro ⟨hl, rfl⟩
    rw [hlook hl]
    exact hl

/-- The answers look up to their names if they do so in the store and every copy that is needed is
made. -/
theorem named_lookups_iff (hk : Kept net mask max h s.dns) (hroom : bs.length ≤ max)
    (has : bs.map Prod.fst = as) (hplain : ∀ a ∈ as, 0 ∉ a.name.text) (hf : Found s.dns as)
    (hserve : NamedStore.serve path s bs = some s') :
    List.Forall₂ (fun a x => (s'.lookup x.2).2 = some a.name.text) as (serve s.dns as).2 ↔
      List.Forall₂ (fun a x => (s'.dns.lookup x.2).2 = some a.name.text) as (serve s.dns as).2 ∧
        Copied s.dns bs := by
  subst has
  induction bs generalizing s h with
  | nil => simp [serve, Copied]
  | cons a bs ih =>
    rw [List.length_cons] at hroom
    obtain ⟨hpa, hplain⟩ := List.forall_mem_cons.mp hplain
    obtain ⟨⟨j, hj⟩, hf⟩ := hf
    have hserve' := hserve
    rw [NamedStore.serve] at hserve
    split at hserve
    · cases hserve
    · rename_i u r hfind
      have hdns := NamedStore.find_dns hfind
      dsimp only at hdns
      have hr : r = some j := by
        rw [hdns] at hj
        exact hj
      subst hr
      obtain ⟨hk', hlive⟩ := hk.find (by omega) (cname_plain a.1.name) hj
      have hname := nameIs_find hk hfind
      rw [List.map_cons, serve_cons hj, List.forall₂_cons, List.forall₂_cons, Copied, hdns]
      rw [hdns] at hk' hlive hf
      have hfinal : ∃ h', Kept net mask max h' s'.dns := by
        obtain ⟨h', hk''⟩ := kept_serve hk' (by omega) hf
        exact ⟨h', NamedStore.serve_dns hserve ▸ hk''⟩
      obtain ⟨h', hk''⟩ := hfinal
      have hlast := nameIs_serve hk' hname ⟨j, hlive⟩ (List.mem_singleton.mpr rfl)
        (by rw [List.length_singleton]; omega) hf hserve
      rw [cname_eq hpa] at hlast
      rw [lookup_named hk'' hlast, ih hk' (by omega) hserve hplain hf, Bool.or_eq_true,
        Option.isSome_iff_ne_none, ← imp_iff_not_or]
      rw [cname_eq hpa]
      tauto

/-- The operation on the nodes. -/
theorem namedStep_dns {op : NamedOp} (hst : NamedStep path s op s') :
    Guarded Step (fun _ op => op.IsCString) s.dns op.erase s'.dns := by
  cases hst with
  | @find _ name alloc r hc hf =>
    have hdns : (s.dns.find name alloc.node).1 = s'.dns := congrArg Prod.fst (NamedStore.find_dns hf)
    refine ⟨hc, ?_⟩
    rw [← hdns]
    exact .find _ _ _
  | lookup ip => exact ⟨trivial, .lookup _ _⟩

theorem namedRun_dns {ops : List NamedOp} (hrun : Run (NamedStep path) s ops s') :
    Run (Guarded Step fun _ op => op.IsCString) s.dns (ops.map NamedOp.erase) s'.dns := by
  induction hrun with
  | refl => exact .refl
  | stepL hst _ ih => exact .stepL (namedStep_dns hst) ih

theorem reachable_dns (hr : ReachableNamedStore path net mask max s) :
    ReachableCStore net mask max s.dns := by
  obtain ⟨s₀, ops, hc, hrun⟩ := hr
  exact ⟨s₀.dns, _, hc, namedRun_dns hrun⟩

/-- What a query is answered with is true exactly if the query is answerable. -/
theorem served_true_iff (hr : ReachableNamedStore path net mask max s) (hmax : 32 ≤ max)
    (hserve : NamedStore.serve path s (NamedStore.asks allocs 0 12 q.questions) = some s') :
    TrueReply q (fun ip => (s'.lookup ip).2)
        (q.reply (q.served s.dns fun i => (allocs i).node).2) ↔ Answerable s allocs q := by
  have hk := kept_reachable (reachable_dns hr) (by omega)
  have hfst : (NamedStore.asks allocs 0 12 q.questions).map Prod.fst =
      asked (fun i => (allocs i).node) 0 12 q.questions := NamedStore.asks_fst
  have hdns := NamedStore.serve_dns hserve
  rw [hfst] at hdns
  have hasked : (asked (fun i => (allocs i).node) 0 12 q.questions).length ≤ q.questions.length :=
    length_asked_le
  have hfew := q.few
  have hbs : (NamedStore.asks allocs 0 12 q.questions).length ≤ max := by
    rw [← List.length_map Prod.fst, hfst]
    omega
  have hlen : (q.served s.dns fun i => (allocs i).node).2.length ≤
      (asked (fun i => (allocs i).node) 0 12 q.questions).length := length_serve_le
  have htrue : TrueReply q (fun ip => (s'.lookup ip).2)
      (q.reply (q.served s.dns fun i => (allocs i).node).2) ↔ _ :=
    trueReply_iff (fun i => (allocs i).node)
    (by
      intro x hx
      obtain ⟨a, ha, he⟩ := mem_serve hx
      rw [he]
      exact asked_off ha)
    (Nat.le_trans hlen hasked)
  have hplain : (∀ a ∈ asked (fun i => (allocs i).node) 0 12 q.questions, ∀ l ∈ a.name, 0 ∉ l) ↔
      ∀ a ∈ asked (fun i => (allocs i).node) 0 12 q.questions, 0 ∉ a.name.text := by
    simp only [mem_text, not_exists, not_and]
  rw [htrue]
  constructor
  · rintro ⟨har, hall⟩
    have hf : Found s.dns (asked (fun i => (allocs i).node) 0 12 q.questions) :=
      found_of_length hall.length_eq.symm
    obtain ⟨hptr, hlooks⟩ := (pointers_iff hf).mp hall
    have hstored : List.Forall₂ (fun a x => (s'.dns.lookup x.2).2 = some a.name.text)
        (asked (fun i => (allocs i).node) 0 12 q.questions)
        (q.served s.dns fun i => (allocs i).node).2 :=
      hlooks.imp fun _ _ => NamedStore.lookup_dns
    rw [← hdns] at hstored
    obtain ⟨hs, hpl⟩ := (lookups_iff hk (by omega) hf).mp hstored
    exact ⟨⟨har, hptr, hplain.mpr hpl, hs⟩,
      ((named_lookups_iff hk hbs hfst hpl hf hserve).mp hlooks).2⟩
  · rintro ⟨⟨har, hptr, hpl, hs⟩, hcopied⟩
    have hlooks := (lookups_iff hk (by omega) hs.found).mpr ⟨hs, hplain.mp hpl⟩
    rw [hdns] at hlooks
    exact ⟨har, (pointers_iff hs.found).mpr
      ⟨hptr, (named_lookups_iff hk hbs hfst (hplain.mp hpl) hs.found hserve).mpr ⟨hlooks, hcopied⟩⟩⟩

/-- A call that returns has served the questions. -/
theorem handle_served {res : Bytes} {out : NamedStore.NamedResponse}
    (hout : s.handle path allocs q.bytes res = some (.ok out)) :
    NamedStore.serve path s (NamedStore.asks allocs 0 12 q.questions) = some out.store ∧
      out.sb.take out.off = q.reply (q.served s.dns fun i => (allocs i).node).2 := by
  obtain ⟨-, hbytes⟩ := handle_ok (NamedStore.handle_erase hout)
  obtain ⟨w, hw, hstore⟩ := NamedStore.handle_walk hout
  refine ⟨?_, hbytes⟩
  have hqd : q.questions.length < 65536 := Nat.lt_of_le_of_lt q.few (by decide)
  have hcount : readU16 q.bytes 4 = q.questions.length := readU16_count hqd
  have hhead : (Dns.header q.id q.flags q.questions.length q.an q.ns q.ar).length = 12 :=
    Dns.length_header
  rw [hcount, ← hhead] at hw
  rw [← hstore, ← hhead]
  exact NamedStore.handleQuestions_serve q.valid rfl hw

end Named

/-- A buffer with room for the query and for all answers gets the reply. -/
theorem handle_room {q : Query} {res : Bytes} (hq : q.bytes.length ≤ res.length)
    (hroom : 12 + (q.questions.flatMap Dns.Question.encode).length + 16 * q.questions.length ≤
      res.length) : ∃ out, handle self alloc q.bytes res = .ok out := by
  have hserve : (q.served self alloc).2.length ≤ q.questions.length :=
    Nat.le_trans length_serve_le length_asked_le
  rw [handle_eq, if_neg (by omega), if_pos (by rw [length_reply]; omega)]
  exact ⟨_, rfl⟩

/-- The reply that a query gets is well formed and true exactly if the query is answerable. -/
theorem handle_true_iff {path : Descent} {s : NamedStore} {allocs : Nat → Allocation} {res : Bytes}
    {out : NamedStore.NamedResponse} (hr : ReachableNamedStore path net mask max s) (hmax : 32 ≤ max)
    (h : s.handle path allocs q.bytes res = some (.ok out)) :
    TrueReply q (fun ip => (out.store.lookup ip).2) (out.sb.take out.off) ↔
      Answerable s allocs q := by
  obtain ⟨hserve, hbytes⟩ := handle_served h
  rw [hbytes]
  exact served_true_iff hr hmax hserve

/-- The query for the address of `a`. -/
def queryA : Query where
  id := 1
  flags := 0x100
  an := 0
  ns := 0
  ar := 0
  questions := [⟨[[0x61]], 1, 1⟩]
  rest := []
  counts := by decide
  few := by decide
  valid := by
    intro q hq
    obtain rfl := List.mem_singleton.mp hq
    exact ⟨⟨by decide, by decide⟩, by decide, by decide⟩

/-- The shipped store, before any find. -/
def shippedStore : NamedStore := ⟨shipped, fun _ => false⟩

theorem reachable_shippedStore (path : Descent) :
    ReachableNamedStore path 0xF0000000#32 0xF0000000#32 10000 shippedStore :=
  ⟨shippedStore, [], construct_shipped, .refl⟩

/-- A query that fits, to the shipped store: no find faults, as all names are copied. -/
theorem handle_shipped (path : Descent) {q : Query} {allocs : Nat → Allocation} {res : Bytes}
    (hc : ∀ i, (allocs i).copy = true) (hq : q.bytes.length ≤ res.length)
    (hroom : 12 + (q.questions.flatMap Dns.Question.encode).length + 16 * q.questions.length ≤
      res.length) : ∃ out, shippedStore.handle path allocs q.bytes res = some (.ok out) := by
  obtain ⟨r, hr⟩ : ∃ r, shippedStore.handle path allocs q.bytes res = some r :=
    NamedStore.handle_of_named (fun _ => rfl) hc
  obtain ⟨out, hout⟩ : ∃ out, handle shipped (fun i => (allocs i).node) q.bytes res = .ok out :=
    handle_room hq hroom
  cases r with
  | ok out => exact ⟨out, hr⟩
  | error s =>
    rw [show shipped = shippedStore.dns from rfl, NamedStore.handle_erase hr] at hout
    cases hout

theorem handle_true_iff_a : ∃ out, shippedStore.handle (fun _ _ => []) (fun _ => ⟨true, true⟩)
    queryA.bytes (List.replicate 1500 0) = some (.ok out) ∧
      TrueReply queryA (fun ip => (out.store.lookup ip).2) (out.sb.take out.off) := by
  obtain ⟨out, h⟩ : ∃ out, shippedStore.handle (fun _ _ => []) (fun _ => ⟨true, true⟩)
      queryA.bytes (List.replicate 1500 0) = some (.ok out) :=
    handle_shipped _ (fun _ => rfl) (by rw [List.length_replicate]; decide)
      (by rw [List.length_replicate]; decide)
  refine ⟨out, h, (handle_true_iff (reachable_shippedStore _) (by decide) h).mpr ⟨⟨rfl, ?_, ?_, ?_⟩, ?_⟩⟩
  · decide
  · decide
  · exact ⟨⟨0, rfl, by decide⟩, trivial⟩
  · exact ⟨fun _ => rfl, trivial⟩

/-- An EDNS record: the root, `OPT`, a payload size and no options. -/
def optRecord : Dns.Record := ⟨[], 41, 1232, 0, []⟩

/-- The same query with EDNS. -/
def queryEdns : Query where
  id := 1
  flags := 0x100
  an := 0
  ns := 0
  ar := 1
  questions := queryA.questions
  rest := 0 :: optRecord.body
  counts := by decide
  few := queryA.few
  valid := queryA.valid

theorem parses_queryEdns :
    Dns.Parses queryEdns.bytes ⟨1, 0x100, queryEdns.questions, [], [], [optRecord]⟩ := by
  refine ⟨by decide, by decide, ?_⟩
  have hq : Dns.Items (Dns.QuestionAt queryEdns.bytes) [] 12 queryEdns.questions _ _ :=
    (Dns.items_questions queryEdns.valid (by decide)).mpr ⟨rfl, rfl⟩
  have hroot : Dns.NameAt queryEdns.bytes (Dns.occurrences 12 queryEdns.questions) 19
      optRecord.name 20 [(19, [])] := .root (by decide)
  have hopt := Dns.RecordAt.mk ⟨⟨by decide, by decide⟩, by decide, by decide, by decide, by decide⟩
    hroot (by decide) .nil
  exact ⟨_, _, _, _, _, _, _, hq, .nil, .nil, .cons hopt .nil⟩

/-- The reply to a query with EDNS counts a record that it does not have. -/
theorem edns_reply_malformed : ∃ m, Dns.Parses queryEdns.bytes m ∧
    m.questions = queryEdns.questions ∧ ∃ out, shippedStore.handle (fun _ _ => [])
      (fun _ => ⟨true, true⟩) queryEdns.bytes (List.replicate 1500 0) = some (.ok out) ∧
      ¬ TrueReply queryEdns (fun ip => (out.store.lookup ip).2) (out.sb.take out.off) := by
  obtain ⟨out, h⟩ : ∃ out, shippedStore.handle (fun _ _ => []) (fun _ => ⟨true, true⟩)
      queryEdns.bytes (List.replicate 1500 0) = some (.ok out) :=
    handle_shipped _ (fun _ => rfl) (by rw [List.length_replicate]; decide)
      (by rw [List.length_replicate]; decide)
  refine ⟨_, parses_queryEdns, rfl, out, h, fun ht => ?_⟩
  obtain ⟨hserve, hbytes⟩ := handle_served h
  rw [hbytes] at ht
  have ha := (served_true_iff (reachable_shippedStore _) (by decide) hserve).mp ht
  exact absurd ha.noAdditional (by decide)

end XTunnel.MappedDns
