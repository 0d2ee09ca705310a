import XTunnel.Loop
import XTunnel.MappedDns.Handle

/-! `hev_mapped_dns_handle` with every byte that it reads and writes, and when it stays inside its
two buffers. An access outside is a panic. -/
namespace XTunnel.MappedDns.Checked

open Dns (Bytes be)
open Loop Outcome

/-- `b[off] = v` -/
def set (b : Bytes) (off : Nat) (v : UInt8) : Outcome Bytes :=
  if off < b.length then pure (b.set off v) else panic

/-- Bytes that are written from an offset on. -/
def write (b : Bytes) (off : Nat) (x : Bytes) : Outcome Bytes :=
  if off + x.length ≤ b.length then pure (store b off x) else panic

def read_u16 (b : Bytes) (off : Nat) : Outcome Nat := do
  let hi ← index b off
  let lo ← index b (off + 1)
  pure (hi.toNat * 256 + lo.toNat)

/-- A field of the header as the host keeps it, with the low byte first. -/
def hostU16 (v : Nat) : Bytes := [UInt8.ofNat v, UInt8.ofNat (v / 256)]

def readHost (b : Bytes) (off : Nat) : Outcome Nat := do
  let lo ← index b off
  let hi ← index b (off + 1)
  pure (hi.toNat * 256 + lo.toNat)

/-- The C string at an offset, which has to end inside. -/
def name (rb : Bytes) (off : Nat) : Outcome Name :=
  if 0 ∈ rb.drop off then pure (cstring rb off) else panic

/-- One turn of the loop over the labels of a name. -/
def labelStep (qlen : Nat) (s : Bytes × Nat) : Outcome (Bytes × Nat ⊕ Option (Bytes × Nat)) := do
  let (rb, off) := s
  let len ← index rb off
  if len = 0 then pure (.inr (some (rb, off)))
  else
    let next := off + 1 + len.toNat
    if next ≥ qlen then pure (.inr none)
    else do
      let rb ← set rb off 0x2e
      pure (.inl (rb, next))

/-- The type and the class of a question; the class is read behind the right type only. -/
def asksAddress (rb : Bytes) (off : Nat) : Outcome Bool := do
  let qtype ← read_u16 rb off
  if qtype = 1 then do
    let qclass ← read_u16 rb (off + 2)
    pure (qclass = 1)
  else pure false

/-- The question at the offset of the walk. -/
def question (qlen : Nat) (alloc : Bool) (w : Walk) : Outcome (Except HevMappedDNS Walk) := do
  let skipped ← loop (labelStep qlen) qlen (w.rb, w.off)
  match skipped with
  | none => pure (.error w.dns)
  | some (rb, off) =>
    let off := off + 1
    if off + 3 ≥ qlen then pure (.error w.dns)
    else do
      let asks ← asksAddress rb off
      if asks then do
        let name ← name rb (w.off + 1)
        match w.dns.find name alloc with
        | (dns, some idx) => pure (.ok ⟨dns, rb, off + 4, w.answers ++ [(w.off, dns.address idx)]⟩)
        | (dns, none) => pure (.ok ⟨dns, rb, off + 4, w.answers⟩)
      else pure (.ok ⟨w.dns, rb, off + 4, w.answers⟩)

/-- One turn of the loop over the questions; its bound is read from the request again. -/
def questionStep (qlen : Nat) (alloc : Nat → Bool) (s : Nat × Walk) :
    Outcome (Nat × Walk ⊕ Except HevMappedDNS Walk) := do
  let (i, w) := s
  let qd ← readHost w.rb 4
  if i < qd then do
    let r ← question qlen (alloc i) w
    match r with
    | .error dns => pure (.inr (.error dns))
    | .ok w => pure (.inl (i + 1, w))
  else pure (.inr (.ok w))

/-- The loop over the answers. -/
def answers : List (Nat × BitVec 32) → Bytes → Nat → Outcome (Option (Bytes × Nat))
  | [], sb, off => pure (some (sb, off))
  | (ipo, ip) :: rest, sb, off =>
    if off + 15 ≥ sb.length then pure none
    else do
      let sb ← write sb off (answerBytes ipo ip)
      answers rest sb (off + 16)

/-- The answers and the header of a response. -/
def reply (w : Walk) (sb : Bytes) : Outcome (Except HevMappedDNS Response) := do
  let answered ← answers w.answers sb w.off
  match answered with
  | none => pure (.error w.dns)
  | some (sb, off) => do
    let fl ← readHost sb 2
    let sb ← write sb 2 (writeU16 (replyFlags fl))
    let sb ← write sb 6 (writeU16 w.answers.length)
    pure (.ok ⟨w.dns, sb, off⟩)

/-- The fields of the two headers are read and written where they stand. -/
def hev_mapped_dns_handle (self : HevMappedDNS) (alloc : Nat → Bool) (req res : Bytes) :
    Outcome (Except HevMappedDNS Response) :=
  let qlen := req.length
  if res.length < qlen then pure (.error self)
  else do
    let sb ← write res 0 req
    let qd ← read_u16 req 4
    let rb ← write req 4 (hostU16 qd)
    let fl ← read_u16 sb 2
    let sb ← write sb 2 (hostU16 fl)
    let sb ← write sb 8 [0, 0]
    let sb ← write sb 6 [0, 0]
    let qd ← readHost rb 4
    if qd > 32 then pure (.error self)
    else do
      let walked ← loop (questionStep qlen alloc) 33 (0, ⟨self, rb, 12, []⟩)
      match walked with
      | .error dns => pure (.error dns)
      | .ok w => reply w sb

/-- A name from one offset ends with the root at another. -/
inductive NameEnd (req : Bytes) : Nat → Nat → Prop
  | root {off : Nat} : req[off]? = some 0 → NameEnd req off off
  | label {off e : Nat} {len : UInt8} :
      req[off]? = some len → len ≠ 0 → NameEnd req (off + 1 + len.toNat) e → NameEnd req off e

/-- One of so many questions from an offset on starts behind the request, all before it being
complete. -/
inductive Overruns (req : Bytes) : Nat → Nat → Prop
  | here {n off : Nat} : req.length ≤ off → Overruns req (n + 1) off
  | later {n off e : Nat} : NameEnd req off e → e + 5 ≤ req.length → Overruns req n (e + 5) →
      Overruns req (n + 1) off

/-- The response buffer is too small, so that nothing is touched, or both buffers have the fields
that are used of a header, and no question starts behind the request. -/
def Contained (req res : Bytes) : Prop :=
  res.length < req.length ∨
    6 ≤ req.length ∧ 10 ≤ res.length ∧ (readU16 req 4 ≤ 32 → ¬ Overruns req (readU16 req 4) 12)

variable {self : HevMappedDNS} {alloc : Nat → Bool} {ok : Bool} {b req res rb sb x y : Bytes}
  {off e e' k n i qlen : Nat} {v : UInt8} {w : Walk}

theorem NameEnd.bounds (h : NameEnd req off e) : off ≤ e ∧ e < req.length := by
  induction h with
  | root h => exact ⟨Nat.le_refl _, (List.getElem?_eq_some_iff.mp h).1⟩
  | label _ _ _ ih => exact ⟨by omega, ih.2⟩

theorem NameEnd.unique (h : NameEnd req off e) (h' : NameEnd req off e') : e = e' := by
  induction h with
  | root h =>
    cases h' with
    | root => rfl
    | label hl hne =>
      cases h.symm.trans hl
      exact absurd rfl hne
  | label hl hne _ ih =>
    cases h' with
    | root h =>
      cases h.symm.trans hl
      exact absurd rfl hne
    | label hl' _ h' =>
      cases hl.symm.trans hl'
      exact ih h'

theorem length_store (h : off + x.length ≤ b.length) : (store b off x).length = b.length := by
  simp only [store, List.length_append, List.length_take, List.length_drop]
  omega

theorem getElem?_store (h : off + x.length ≤ b.length) (k : Nat) : (store b off x)[k]? =
    if k < off then b[k]? else if k < off + x.length then x[k - off]? else b[k]? := by
  have htake : (b.take off).length = off := by
    rw [List.length_take]
    omega
  rw [store, List.append_assoc, List.getElem?_append, htake]
  split
  · rw [List.getElem?_take_of_lt ‹_›]
  · rw [List.getElem?_append]
    split
    · rw [if_pos (by omega)]
    · rw [if_neg (by omega), List.getElem?_drop]
      congr 1
      omega

theorem NameEnd.zero (h : NameEnd req off e) : req[e]? = some 0 := by
  induction h with
  | root h => exact h
  | label _ _ _ ih => exact ih

/-- What is written somewhere else does not matter. -/
theorem store_comm (hx : off + x.length ≤ k) (hy : k + y.length ≤ b.length) :
    store (store b off x) k y = store (store b k y) off x := by
  have hxl : off + x.length ≤ b.length := by omega
  apply List.ext_getElem?
  intro j
  rw [getElem?_store (by rw [length_store hxl]; exact hy), getElem?_store hxl,
    getElem?_store (by rw [length_store hy]; exact hxl), getElem?_store hy]
  split <;> split <;> (try split) <;> (try split) <;> first | rfl | omega

/-- The last value that is written counts. -/
theorem store_store (hxy : x.length = y.length) (h : off + x.length ≤ b.length) :
    store (store b off x) off y = store b off y := by
  apply List.ext_getElem?
  intro j
  rw [getElem?_store (by rw [length_store h]; omega), getElem?_store h, getElem?_store (by omega)]
  split
  · rfl
  · split
    · rfl
    · rw [if_neg (by omega)]

/-- Two parts that are written next to each other. -/
theorem store_append_right (h : off + (x ++ y).length ≤ b.length) :
    store (store b (off + x.length) y) off x = store b off (x ++ y) := by
  rw [List.length_append] at h
  apply List.ext_getElem?
  intro j
  rw [getElem?_store (by rw [length_store (by omega)]; omega), getElem?_store (by omega),
    getElem?_store (by rw [List.length_append]; exact h), List.length_append,
    List.getElem?_append]
  by_cases h1 : j < off
  · rw [if_pos h1, if_pos (by omega), if_pos h1]
  · rw [if_neg h1, if_neg h1]
    by_cases h2 : j < off + x.length
    · rw [if_pos h2, if_pos (by omega), if_pos (by omega)]
    · rw [if_neg h2, if_neg h2, if_neg (by omega : ¬ j - off < x.length)]
      by_cases h3 : j < off + x.length + y.length
      · rw [if_pos h3, if_pos (by omega), Nat.sub_sub]
      · rw [if_neg h3, if_neg (by omega)]

theorem write_eq (h : off + x.length ≤ b.length) : write b off x = done (store b off x) := if_pos h

theorem getD_eq (h : off < b.length) : b.getD off 0 = b[off] := by
  rw [List.getD_eq_getElem?_getD, List.getElem?_eq_getElem h, Option.getD_some]

theorem read_u16_eq (h : off + 2 ≤ b.length) : read_u16 b off = done (readU16 b off) := by
  have h0 : off < b.length := by omega
  have h1 : off + 1 < b.length := by omega
  rw [read_u16, index_of_lt h0, done_bind, index_of_lt h1, done_bind, readU16, getD_eq h0, getD_eq h1]
  rfl

/-- What the host keeps is what it reads. -/
theorem readHost_eq (hv : n < 65536)
    (h0 : b[off]? = some (UInt8.ofNat n)) (h1 : b[off + 1]? = some (UInt8.ofNat (n / 256))) :
    readHost b off = done n := by
  have hn : (UInt8.ofNat (n / 256)).toNat * 256 + (UInt8.ofNat n).toNat = n := by
    rw [UInt8.toNat_ofNat', UInt8.toNat_ofNat']
    omega
  rw [readHost, index, h0]
  simp only [done_bind]
  rw [index, h1]
  simp only [done_bind]
  rw [hn]
  rfl

theorem readU16_lt (b : Bytes) (off : Nat) : readU16 b off < 65536 := by
  have h0 := (b.getD off 0).toNat_lt
  have h1 := (b.getD (off + 1) 0).toNat_lt
  unfold readU16
  omega

/-- Two buffers have the same bytes from an offset on. -/
def SameFrom (off : Nat) (rb rb' : Bytes) : Prop := ∀ k, off ≤ k → rb[k]? = rb'[k]?

theorem SameFrom.mono (h : SameFrom off rb req) (hle : off ≤ k) : SameFrom k rb req :=
  fun j hj => h j (Nat.le_trans hle hj)

/-- The loop over the labels of a name that starts inside stays inside. It is the one of the model,
and it gives up when the name does not end inside. -/
theorem labels_spec {fuel : Nat} (hlen : rb.length = req.length) (hsame : SameFrom off rb req)
    (hoff : off < req.length) (hfuel : req.length - off ≤ fuel) :
    loop (labelStep req.length) fuel (rb, off) = done (skipName req.length fuel rb off) ∧
      ((skipName req.length fuel rb off = none ∧ ∀ e, ¬ NameEnd req off e) ∨
        ∃ rb' e, skipName req.length fuel rb off = some (rb', e) ∧ NameEnd req off e ∧
          rb'.length = req.length ∧ SameFrom e rb' req ∧ ∀ k, k < off → rb'[k]? = rb[k]?) := by
  induction fuel generalizing rb off with
  | zero => omega
  | succ fuel ih =>
    have hrb : off < rb.length := hlen ▸ hoff
    have hget : req[off]? = some rb[off] := by
      rw [← hsame off (Nat.le_refl _), List.getElem?_eq_getElem hrb]
    have hidx : index rb off = done rb[off] := index_of_lt hrb
    rw [skipName, getD_eq hrb]
    by_cases h0 : rb[off] = 0
    · rw [if_pos h0]
      have hroot : NameEnd req off off := .root (by rw [hget, h0])
      refine ⟨loop_exit ?_, .inr ⟨rb, off, rfl, hroot, hlen, hsame, fun _ _ => rfl⟩⟩
      simp only [labelStep]
      rw [hidx, done_bind, if_pos h0]
      rfl
    · simp only [if_neg h0]
      by_cases hend : off + 1 + rb[off].toNat ≥ req.length
      · rw [if_pos hend]
        refine ⟨loop_exit ?_, .inl ⟨rfl, ?_⟩⟩
        · simp only [labelStep]
          rw [hidx, done_bind, if_neg h0, if_pos hend]
          rfl
        · intro e he
          cases he with
          | root h => exact h0 (Option.some.inj (hget.symm.trans h))
          | label hl _ he =>
            obtain rfl := Option.some.inj (hget.symm.trans hl)
            have := he.bounds
            omega
      · rw [if_neg hend]
        have hset : SameFrom (off + 1 + rb[off].toNat) (rb.set off 0x2e) req := by
          intro k hk
          rw [List.getElem?_set_ne (by omega)]
          exact hsame k (by omega)
        have hstep : labelStep req.length (rb, off) =
            done (.inl (rb.set off 0x2e, off + 1 + rb[off].toNat)) := by
          simp only [labelStep]
          rw [hidx, done_bind, if_neg h0, if_neg hend, set, if_pos hrb]
          rfl
        rw [loop_next hstep]
        have hset_len : (rb.set off 0x2e).length = req.length := by rw [List.length_set, hlen]
        obtain ⟨hloop, hout⟩ := ih hset_len hset (by omega) (by omega)
        refine ⟨hloop, ?_⟩
        rcases hout with ⟨hnone, hno⟩ | ⟨rb', e, hsome, he, hl, hs, hk⟩
        · refine .inl ⟨hnone, fun e he => ?_⟩
          cases he with
          | root h => exact h0 (Option.some.inj (hget.symm.trans h))
          | label hl _ he =>
            obtain rfl := Option.some.inj (hget.symm.trans hl)
            exact hno e he
        · refine .inr ⟨rb', e, hsome, .label hget h0 he, hl, hs, fun k hlt => ?_⟩
          rw [hk k (by omega), List.getElem?_set_ne (by omega)]

theorem asksAddress_eq (h : off + 4 ≤ rb.length) : asksAddress rb off =
    done (decide (readU16 rb off = 1 ∧ readU16 rb (off + 2) = 1)) := by
  rw [asksAddress, read_u16_eq (by omega), done_bind]
  split
  · rename_i h1
    rw [read_u16_eq (by omega), done_bind]
    simp [h1]
  · rename_i h1
    simp [h1]

/-- A type of one starts with a zero byte. -/
theorem readU16_one (h : off + 2 ≤ b.length) (h1 : readU16 b off = 1) : b[off]? = some 0 := by
  have hlt : off < b.length := by omega
  have hlo := (b.getD (off + 1) 0).toNat_lt
  rw [readU16, getD_eq hlt] at h1
  have hz : b[off].toNat = 0 := by omega
  rw [List.getElem?_eq_getElem hlt,
    UInt8.toNat_inj.mp (hz.trans rfl : b[off].toNat = (0 : UInt8).toNat)]

theorem name_eq (h : off ≤ e) (h0 : rb[e]? = some 0) : name rb off = done (cstring rb off) := by
  refine if_pos (List.mem_iff_getElem?.mpr ⟨e - off, ?_⟩)
  rw [List.getElem?_drop, ← h0]
  congr 1
  omega

/-- What holds between two questions; `qd` is the count in the header. -/
structure WalkInv (req : Bytes) (qd : Nat) (w : Walk) : Prop where
  length : w.rb.length = req.length
  same : SameFrom w.off w.rb req
  behind : 12 ≤ w.off
  lo : w.rb[4]? = some (UInt8.ofNat qd)
  hi : w.rb[5]? = some (UInt8.ofNat (qd / 256))

/-- A question that starts inside is the one of the model. The walk goes on if it is complete. -/
theorem question_spec {qd : Nat} (ok : Bool) (hw : WalkInv req qd w) (hoff : w.off < req.length) :
    question req.length ok w = done (handleQuestion req.length ok w) ∧
      ((∃ dns, handleQuestion req.length ok w = .error dns ∧
          ∀ e, NameEnd req w.off e → ¬ e + 5 ≤ req.length) ∨
        ∃ w' e, handleQuestion req.length ok w = .ok w' ∧ WalkInv req qd w' ∧
          NameEnd req w.off e ∧ e + 5 ≤ req.length ∧ w'.off = e + 5) := by
  have hbehind := hw.behind
  obtain ⟨hloop, hout⟩ := labels_spec hw.length hw.same hoff (Nat.sub_le req.length w.off)
  rw [question, handleQuestion, hloop]
  rcases hout with ⟨hnone, hno⟩ | ⟨rb, e, hsome, he, hlen, hsame, hbefore⟩
  · rw [hnone]
    exact ⟨rfl, .inl ⟨_, rfl, fun e he => absurd he (hno e)⟩⟩
  · have hb := he.bounds
    rw [hsome]
    simp only [done_bind]
    by_cases hend : e + 1 + 3 ≥ req.length
    · rw [if_pos hend, if_pos hend]
      refine ⟨rfl, .inl ⟨_, rfl, fun e' he' => ?_⟩⟩
      obtain rfl := he.unique he'
      omega
    · have hinv : ∀ dns answers, WalkInv req qd ⟨dns, rb, e + 1 + 4, answers⟩ := fun _ _ =>
        { length := hlen
          same := hsame.mono (show e ≤ e + 1 + 4 by omega)
          behind := (by omega : 12 ≤ e + 1 + 4)
          lo := (hbefore 4 (by omega)).trans hw.lo
          hi := (hbefore 5 (by omega)).trans hw.hi }
      have next : ∀ dns answers, ∃ (w' : Walk) (e' : Nat),
          (.ok ⟨dns, rb, e + 1 + 4, answers⟩ : Except HevMappedDNS Walk) = .ok w' ∧
            WalkInv req qd w' ∧ NameEnd req w.off e' ∧ e' + 5 ≤ req.length ∧ w'.off = e' + 5 :=
        fun dns answers => ⟨_, e, rfl, hinv dns answers, he, by omega, rfl⟩
      rw [if_neg hend, if_neg hend, asksAddress_eq (by omega), done_bind]
      by_cases hask : readU16 rb (e + 1) = 1 ∧ readU16 rb (e + 1 + 2) = 1
      · have hname : name rb (w.off + 1) = done (cstring rb (w.off + 1)) := by
          by_cases hroot : e = w.off
          · -- behind a root the string ends in the type
            exact name_eq (by omega) (readU16_one (by omega) hask.1)
          · refine name_eq (e := e) (by omega) ?_
            rw [hsame e (Nat.le_refl _)]
            exact he.zero
        rw [decide_eq_true hask, if_pos rfl, if_pos hask, hname, done_bind]
        rcases w.dns.find (cstring rb (w.off + 1)) ok with ⟨dns, _ | idx⟩
        · exact ⟨rfl, .inr (next _ _)⟩
        · exact ⟨rfl, .inr (next _ _)⟩
      · rw [decide_eq_false hask, if_neg Bool.false_ne_true, if_neg hask]
        exact ⟨rfl, .inr (next _ _)⟩

theorem index_panic (h : b.length ≤ off) : index b off = panic := by
  rw [index, List.getElem?_eq_none h]

theorem question_panic {qd : Nat} (ok : Bool) (hw : WalkInv req qd w) (hoff : req.length ≤ w.off) :
    question req.length ok w = panic := by
  have h4 := (List.getElem?_eq_some_iff.mp hw.lo).1
  have hlen := hw.length
  obtain ⟨fuel, hfuel⟩ : ∃ fuel, req.length = fuel + 1 := ⟨req.length - 1, by omega⟩
  have hstep : labelStep req.length (w.rb, w.off) = panic := by
    simp only [labelStep]
    rw [index_panic (hw.length ▸ hoff)]
    rfl
  rw [question]
  conv in loop (labelStep req.length) req.length (w.rb, w.off) => rw [hfuel, loop, ← hfuel, hstep]
  rfl

theorem questionStep_question {qd : Nat} (hw : WalkInv req qd w) (hqd : qd < 65536) (hi : i < qd) :
    questionStep qlen alloc (i, w) = (question qlen (alloc i) w >>= fun
      | .error dns => pure (.inr (.error dns))
      | .ok w => pure (.inl (i + 1, w))) := by
  simp only [questionStep]
  rw [readHost_eq hqd hw.lo hw.hi, done_bind, if_pos hi]

/-- The loop over the questions, by induction on those that are left: it is the one of the model, or
it reads behind the request. -/
theorem questions_spec {qd fuel : Nat} (alloc : Nat → Bool) (hqd : qd < 65536)
    (hw : WalkInv req qd w) (hi : i + n = qd) (hfuel : n < fuel) :
    (Overruns req n w.off → loop (questionStep req.length alloc) fuel (i, w) = panic) ∧
      (¬ Overruns req n w.off →
        loop (questionStep req.length alloc) fuel (i, w) =
            done (handleQuestions req.length alloc n i w) ∧
          ∀ w', handleQuestions req.length alloc n i w = .ok w' → WalkInv req qd w') := by
  obtain ⟨fuel, rfl⟩ : ∃ k, fuel = k + 1 := ⟨fuel - 1, by omega⟩
  induction n generalizing fuel i w with
  | zero =>
    refine ⟨fun h => (by cases h), fun _ => ⟨loop_exit ?_, ?_⟩⟩
    · simp only [questionStep]
      rw [readHost_eq hqd hw.lo hw.hi, done_bind, if_neg (by omega)]
      rfl
    · intro w' h
      cases h
      exact hw
  | succ n ih =>
    have hstep : questionStep req.length alloc (i, w) = _ :=
      questionStep_question hw hqd (by omega : i < qd)
    by_cases hoff : w.off < req.length
    · obtain ⟨hq, hout⟩ := question_spec (alloc i) hw hoff
      rw [hq, done_bind] at hstep
      rcases hout with ⟨dns, herr, hno⟩ | ⟨w', e, hok, hw', he, hle, hnext⟩
      · rw [herr] at hstep
        rw [loop_exit hstep, handleQuestions, herr]
        refine ⟨fun h => ?_, fun _ => ⟨rfl, fun w' h => (by cases h)⟩⟩
        cases h with
        | here h => omega
        | later he hle _ => exact absurd hle (hno _ he)
      · rw [hok] at hstep
        obtain ⟨fuel, rfl⟩ : ∃ k, fuel = k + 1 := ⟨fuel - 1, by omega⟩
        obtain ⟨hover, hin⟩ := ih hw' (by omega : i + 1 + n = qd) fuel (by omega)
        rw [loop_next hstep, handleQuestions, hok]
        refine ⟨fun h => ?_, fun h => hin fun h' => h (.later he hle (hnext ▸ h'))⟩
        cases h with
        | here h => omega
        | later he' _ h =>
          obtain rfl := he.unique he'
          exact hover (hnext ▸ h)
    · rw [question_panic (alloc i) hw (by omega)] at hstep
      refine ⟨fun _ => ?_, fun h => absurd (.here (by omega)) h⟩
      rw [loop, hstep]
      rfl

/-- The loop over the answers is the one of the model. -/
theorem answers_eq (as : List (Nat × BitVec 32)) (sb : Bytes) (off : Nat) :
    answers as sb off = done (writeAnswers as sb off) := by
  induction as generalizing sb off with
  | nil => rfl
  | cons a as ih =>
    obtain ⟨ipo, ip⟩ := a
    have hlen : (answerBytes ipo ip).length = 16 := rfl
    rw [answers, writeAnswers]
    split
    · rfl
    · rw [write_eq (by omega), done_bind, ih]

/-- The answers stand behind the header. -/
theorem writeAnswers_store (as : List (Nat × BitVec 32)) (hx : k + x.length ≤ off)
    (hk : k + x.length ≤ sb.length) : writeAnswers as (store sb k x) off =
      (writeAnswers as sb off).map fun (sb, off) => (store sb k x, off) := by
  induction as generalizing sb off with
  | nil => rfl
  | cons a as ih =>
    obtain ⟨ipo, ip⟩ := a
    have hlen : (answerBytes ipo ip).length = 16 := rfl
    rw [writeAnswers, writeAnswers, length_store hk]
    split
    · rfl
    · rw [store_comm hx (by omega), ih (by omega)]
      rw [length_store (by omega)]
      exact hk

theorem length_writeAnswers {as : List (Nat × BitVec 32)} {out : Bytes × Nat}
    (h : writeAnswers as sb off = some out) : out.1.length = sb.length := by
  induction as generalizing sb off with
  | nil =>
    cases h
    rfl
  | cons a as ih =>
    obtain ⟨ipo, ip⟩ := a
    have hlen : (answerBytes ipo ip).length = 16 := rfl
    rw [writeAnswers] at h
    split at h
    · cases h
    · rw [ih h, length_store (by omega)]

section Header

variable {rb' : Bytes} {m : Nat}

/-- A walk over a name reads and changes nothing before it. -/
theorem skipName_congr (qlen fuel : Nat) (hl : rb.length = rb'.length) (h : SameFrom m rb rb')
    (hm : m ≤ off) :
    (skipName qlen fuel rb off = none ∧ skipName qlen fuel rb' off = none) ∨
      ∃ r r' e, skipName qlen fuel rb off = some (r, e) ∧ skipName qlen fuel rb' off = some (r', e) ∧
        off ≤ e ∧ r.length = r'.length ∧ SameFrom m r r' := by
  induction fuel generalizing rb rb' off with
  | zero => exact .inl ⟨rfl, rfl⟩
  | succ fuel ih =>
    have hget : rb.getD off 0 = rb'.getD off 0 := by
      rw [List.getD_eq_getElem?_getD, List.getD_eq_getElem?_getD, h off hm]
    rw [skipName, skipName, hget]
    by_cases h0 : rb'.getD off 0 = 0
    · rw [if_pos h0, if_pos h0]
      exact .inr ⟨rb, rb', off, rfl, rfl, Nat.le_refl _, hl, h⟩
    · simp only [if_neg h0]
      by_cases hend : off + 1 + (rb'.getD off 0).toNat ≥ qlen
      · rw [if_pos hend, if_pos hend]
        exact .inl ⟨rfl, rfl⟩
      · rw [if_neg hend, if_neg hend]
        have hset : SameFrom m (rb.set off 0x2e) (rb'.set off 0x2e) := by
          intro k hk
          rw [List.getElem?_set, List.getElem?_set, hl, h k hk]
        rcases ih (by rw [List.length_set, List.length_set, hl]) hset
          (by omega : m ≤ off + 1 + (rb'.getD off 0).toNat) with
          hnone | ⟨r, r', e, hr, hr', he, hrl, hs⟩
        · exact .inl hnone
        · exact .inr ⟨r, r', e, hr, hr', by omega, hrl, hs⟩

theorem readU16_congr (h : SameFrom m rb rb') (hm : m ≤ off) : readU16 rb off = readU16 rb' off := by
  rw [readU16, readU16, List.getD_eq_getElem?_getD, List.getD_eq_getElem?_getD,
    List.getD_eq_getElem?_getD, List.getD_eq_getElem?_getD, h off hm, h (off + 1) (by omega)]

theorem cstring_congr (h : SameFrom m rb rb') (hm : m ≤ off) : cstring rb off = cstring rb' off := by
  have hdrop : rb.drop off = rb'.drop off := by
    apply List.ext_getElem?
    intro k
    rw [List.getElem?_drop, List.getElem?_drop, h (off + k) (by omega)]
  rw [cstring, cstring, hdrop]

/-- The walk over the questions does not depend on the header. -/
theorem handleQuestions_congr (qlen : Nat) (alloc : Nat → Bool) (n i : Nat) (w : Walk) (rb' : Bytes)
    (hl : w.rb.length = rb'.length) (h : SameFrom m w.rb rb') (hm : m ≤ w.off) :
    (∃ dns, handleQuestions qlen alloc n i w = .error dns ∧
        handleQuestions qlen alloc n i { w with rb := rb' } = .error dns) ∨
      ∃ w' r, handleQuestions qlen alloc n i w = .ok w' ∧
        handleQuestions qlen alloc n i { w with rb := rb' } = .ok { w' with rb := r } := by
  induction n generalizing i w rb' with
  | zero => exact .inr ⟨w, rb', rfl, rfl⟩
  | succ n ih =>
    rw [handleQuestions, handleQuestions, handleQuestion, handleQuestion]
    dsimp only
    rcases skipName_congr qlen qlen hl h hm with
      ⟨hr, hr'⟩ | ⟨r, r', e, hr, hr', he, hrl, hs⟩
    · rw [hr, hr']
      exact .inl ⟨_, rfl, rfl⟩
    · rw [hr, hr']
      dsimp only
      rw [← readU16_congr hs (by omega : m ≤ e + 1), ← readU16_congr hs (by omega : m ≤ e + 1 + 2),
        ← cstring_congr hs (by omega : m ≤ w.off + 1)]
      have next : ∀ dns answers, _ := fun dns answers =>
        ih (i + 1) ⟨dns, r, e + 1 + 4, answers⟩ r' hrl hs (show m ≤ e + 1 + 4 by omega)
      by_cases hend : e + 1 + 3 ≥ qlen
      · rw [if_pos hend, if_pos hend]
        exact .inl ⟨_, rfl, rfl⟩
      · rw [if_neg hend, if_neg hend]
        by_cases hask : readU16 r (e + 1) = 1 ∧ readU16 r (e + 1 + 2) = 1
        · rw [if_pos hask, if_pos hask]
          rcases w.dns.find (cstring r (w.off + 1)) (alloc i) with ⟨dns, _ | idx⟩
          · exact next _ _
          · exact next _ _
        · rw [if_neg hask, if_neg hask]
          exact next _ _

/-- The request with its count as the host keeps it. -/
def hostCounted (req : Bytes) : Bytes := store req 4 (hostU16 (readU16 req 4))

theorem hostCounted_inv (self : HevMappedDNS) (h : 6 ≤ req.length) :
    WalkInv req (readU16 req 4) ⟨self, hostCounted req, 12, []⟩ := by
  have hlen : 4 + (hostU16 (readU16 req 4)).length ≤ req.length := h
  have h4 : (hostU16 (readU16 req 4)).length = 2 := rfl
  refine ⟨length_store hlen, fun k (hk : 12 ≤ k) => ?_, Nat.le_refl _, ?_, ?_⟩
  · rw [hostCounted, getElem?_store hlen, if_neg (by omega), if_neg (by omega)]
  · change (hostCounted req)[4]? = _
    rw [hostCounted, getElem?_store hlen]
    rfl
  · change (hostCounted req)[5]? = _
    rw [hostCounted, getElem?_store hlen]
    rfl

/-- The response before its answers. -/
theorem store_prepared (hb : 10 ≤ b.length) (hx : x.length = 2) :
    store (store (store b 2 x) 8 [0, 0]) 6 [0, 0] = store (store b 6 [0, 0, 0, 0]) 2 x := by
  have h8 : 8 + [(0 : UInt8), 0].length ≤ b.length := hb
  have h6 : store (store b 8 [0, 0]) 6 [0, 0] = store b 6 [0, 0, 0, 0] :=
    store_append_right (x := [0, 0]) (y := [0, 0]) hb
  rw [store_comm (by omega) h8, store_comm (by omega), h6]
  rw [length_store h8]
  exact Nat.le_of_succ_le (Nat.le_of_succ_le hb)

end Header

/-- What is behind the flags is answered as if they were not written yet. -/
theorem reply_eq {fl : Nat} (hb : 10 ≤ b.length) (hfl : fl < 65536) (hoff : 12 ≤ w.off) :
    reply w (store b 2 (hostU16 fl)) = done (match writeAnswers w.answers b w.off with
      | none => .error w.dns
      | some (sb, off) => .ok ⟨w.dns, store (store sb 2 (writeU16 (replyFlags fl))) 6
          (writeU16 w.answers.length), off⟩) := by
  have h2 : (hostU16 fl).length = 2 := rfl
  have hx2 : (writeU16 (replyFlags fl)).length = 2 := rfl
  have hx6 : (writeU16 w.answers.length).length = 2 := rfl
  rw [reply, answers_eq, done_bind, writeAnswers_store w.answers (by omega) (by omega)]
  cases hw : writeAnswers w.answers b w.off with
  | none => rfl
  | some out =>
    obtain ⟨sb, off⟩ := out
    have hlen : sb.length = b.length := length_writeAnswers hw
    have hst : 2 + (hostU16 fl).length ≤ sb.length := by omega
    have hhost : readHost (store sb 2 (hostU16 fl)) 2 = done fl := by
      refine readHost_eq hfl ?_ ?_ <;> · rw [getElem?_store hst]; rfl
    have hfl2 := length_store hst
    have hrep : (store sb 2 (writeU16 (replyFlags fl))).length = sb.length := length_store (by omega)
    rw [Option.map_some]
    dsimp only
    rw [hhost, done_bind, write_eq (by omega), done_bind, store_store (by rw [h2, hx2]) hst,
      write_eq (by omega), done_bind]
    rfl

theorem readU16_copied (h : req.length ≤ res.length) (hoff : off + 2 ≤ req.length) :
    readU16 (store res 0 req) off = readU16 req off := by
  have hk : ∀ k, k < req.length → (store res 0 req)[k]? = req[k]? := by
    intro k hk
    rw [getElem?_store (by omega), if_neg (by omega), if_pos (by omega), Nat.sub_zero]
  rw [readU16, readU16, List.getD_eq_getElem?_getD, List.getD_eq_getElem?_getD,
    List.getD_eq_getElem?_getD, List.getD_eq_getElem?_getD, hk off (by omega),
    hk (off + 1) (by omega)]

/-- The handler between its two loops and behind them, with room for both headers. -/
theorem handle_prepared (hle : req.length ≤ res.length) (hq : 6 ≤ req.length)
    (hs : 10 ≤ res.length) : hev_mapped_dns_handle self alloc req res =
      if readU16 req 4 > 32 then done (.error self)
      else (loop (questionStep req.length alloc) 33 (0, ⟨self, hostCounted req, 12, []⟩) >>= fun
        | .error dns => pure (.error dns)
        | .ok w => reply w
            (store (store (store res 0 req) 6 [0, 0, 0, 0]) 2 (hostU16 (readU16 req 2)))) := by
  have hcopy : 0 + req.length ≤ res.length := by omega
  have hsb := length_store hcopy
  have hl2 : (hostU16 (readU16 req 2)).length = 2 := rfl
  have h2 : (store (store res 0 req) 2 (hostU16 (readU16 req 2))).length = _ :=
    length_store (by omega)
  have h8 : (store (store (store res 0 req) 2 (hostU16 (readU16 req 2))) 8 [0, 0]).length = _ :=
    length_store (by rw [h2, hsb]; exact hs)
  have hcount : readHost (hostCounted req) 4 = done (readU16 req 4) := by
    have hinv := hostCounted_inv self hq
    exact readHost_eq (readU16_lt req 4) hinv.lo hinv.hi
  rw [hev_mapped_dns_handle, if_neg (by omega), write_eq hcopy, done_bind, read_u16_eq (by omega),
    done_bind, write_eq (show 4 + (hostU16 (readU16 req 4)).length ≤ req.length from hq), done_bind,
    read_u16_eq (by omega), done_bind, readU16_copied hle (by omega), write_eq (by omega), done_bind,
    write_eq (by rw [h2, hsb]; exact hs), done_bind,
    write_eq (by rw [h8, h2, hsb]; exact Nat.le_of_succ_le (Nat.le_of_succ_le hs)), done_bind,
    store_prepared (by omega) hl2]
  change (readHost (hostCounted req) 4 >>= _) = _
  rw [hcount, done_bind]
  rfl

/-- Contained, the handler is the one of the model. -/
theorem hev_mapped_dns_handle_eq (h : Contained req res) :
    hev_mapped_dns_handle self alloc req res = done (handle self alloc req res) := by
  by_cases hlt : res.length < req.length
  · rw [hev_mapped_dns_handle, handle, if_pos hlt, if_pos hlt]
    rfl
  · obtain ⟨hq, hs, hover⟩ := h.resolve_left hlt
    rw [handle_prepared (by omega) hq hs, handle, if_neg hlt]
    by_cases hqd : readU16 req 4 > 32
    · rw [if_pos hqd]
      simp only [if_pos hqd]
    · have hinv := hostCounted_inv self hq
      obtain ⟨hloop, hwalk⟩ := (questions_spec alloc (readU16_lt req 4) hinv
        (by omega : 0 + readU16 req 4 = readU16 req 4) (by omega : readU16 req 4 < 33)).2
        (hover (by omega))
      have hsame : SameFrom 12 (hostCounted req) req := hinv.same
      rw [if_neg hqd, hloop, done_bind]
      simp only [if_neg hqd]
      rcases handleQuestions_congr req.length alloc (readU16 req 4) 0
        ⟨self, hostCounted req, 12, []⟩ req hinv.length hsame (Nat.le_refl _) with
        ⟨dns, h1, h2⟩ | ⟨w, r, h1, h2⟩
      · rw [h1, h2]
        rfl
      · rw [h1, h2]
        have hw := hwalk w h1
        have h6 : 6 + [(0 : UInt8), 0, 0, 0].length ≤ (store res 0 req).length := by
          rw [length_store (by omega)]
          exact hs
        dsimp only
        rw [reply_eq (by rw [length_store h6]; exact h6) (readU16_lt req 2) hw.behind]
        rfl

/-- Otherwise it reads or writes outside. -/
theorem hev_mapped_dns_handle_panic (h : ¬ Contained req res) :
    hev_mapped_dns_handle self alloc req res = panic := by
  unfold Contained at h
  rw [not_or, Nat.not_lt] at h
  obtain ⟨hle, h⟩ := h
  have hcopy : 0 + req.length ≤ res.length := by omega
  by_cases hq : 6 ≤ req.length
  · by_cases hs : 10 ≤ res.length
    · -- both headers fit, so a question does not
      have hover : readU16 req 4 ≤ 32 ∧ Overruns req (readU16 req 4) 12 := by
        simpa [hq, hs] using h
      rw [handle_prepared hle hq hs, if_neg (by omega),
        (questions_spec alloc (readU16_lt req 4) (hostCounted_inv self hq)
          (by omega : 0 + readU16 req 4 = readU16 req 4) (by omega)).1 hover.2]
      rfl
    · have hsb := length_store hcopy
      have h2 : 2 + (hostU16 (readU16 (store res 0 req) 2)).length ≤ (store res 0 req).length := by
        rw [hsb]
        exact Nat.le_trans (by decide : 4 ≤ 6) (Nat.le_trans hq hle)
      have hpanic : write (store (store res 0 req) 2 (hostU16 (readU16 (store res 0 req) 2))) 8
          [0, 0] = panic := by
        refine if_neg ?_
        rw [length_store h2, hsb]
        exact hs
      rw [hev_mapped_dns_handle, if_neg (by omega), write_eq hcopy, done_bind,
        read_u16_eq (by omega), done_bind,
        write_eq (show 4 + (hostU16 (readU16 req 4)).length ≤ req.length from hq), done_bind,
        read_u16_eq (by omega), done_bind, write_eq h2, done_bind, hpanic]
      rfl
  · have hpanic : read_u16 req 4 = panic := by
      by_cases h4 : 4 < req.length
      · rw [read_u16, index_of_lt h4, done_bind, index_panic (by omega)]
        rfl
      · rw [read_u16, index_panic (by omega)]
        rfl
    rw [hev_mapped_dns_handle, if_neg (by omega), write_eq hcopy, done_bind, hpanic]
    rfl

/-- The handler stays inside the request and the response, passes names that end inside only, and
returns, exactly when they are contained. -/
theorem hev_mapped_dns_handle_iff (self : HevMappedDNS) (alloc : Nat → Bool) (req res : Bytes) :
    (hev_mapped_dns_handle self alloc req res).Returns (fun _ => True) ↔ Contained req res := by
  constructor
  · intro h
    by_cases hc : Contained req res
    · exact hc
    · rw [hev_mapped_dns_handle_panic hc] at h
      exact h.elim
  · intro h
    rw [hev_mapped_dns_handle_eq h]
    trivial

/-- Two questions are announced and one, for the root, is there. -/
def oneOfTwo : Bytes := [0, 0, 0, 0, 0, 2, 0, 0, 0, 0, 0, 0, 0, 0, 1, 0, 1]

/-- The second question is read behind the request. -/
theorem second_question_overruns : ¬ ∀ self alloc req res,
    (hev_mapped_dns_handle self alloc req res).Returns (fun _ => True) := by
  intro h
  obtain ⟨self, -⟩ : ∃ self, HevMappedDNS.construct 0 0xffffff00 100 = some self :=
    ⟨_, if_neg (by decide)⟩
  obtain ⟨res, hres⟩ : ∃ res : Bytes, res.length = 1500 :=
    ⟨List.replicate 1500 0, List.length_replicate⟩
  have hlen : oneOfTwo.length = 17 := rfl
  have hqd : readU16 oneOfTwo 4 = 2 := rfl
  have hover : ¬ Contained oneOfTwo res := by
    rintro (hlt | ⟨-, -, hno⟩)
    · omega
    · rw [hqd] at hno
      exact hno (by omega) (.later (.root rfl) (Nat.le_refl 17) (.here (Nat.le_refl 17)))
  have hreturns := h self (fun _ => true) oneOfTwo res
  rw [hev_mapped_dns_handle_panic hover] at hreturns
  exact hreturns

end XTunnel.MappedDns.Checked
