import Mathlib.Data.List.Chain
import XTunnel.Net.Base64

/-! A base64 decoder that skips foreign bytes, as `android.util.Base64` does by default: what it is
relied on for, and that decoder. -/
namespace XTunnel.Net.Base64

variable {s t out : Text} {b : UInt8}

/-- The value of a byte of the alphabet. -/
def value (b : UInt8) : Option Nat :=
  let n := b.toNat
  if 65 ≤ n ∧ n < 91 then some (n - 65)
  else if 97 ≤ n ∧ n < 123 then some (n - 71)
  else if 48 ≤ n ∧ n < 58 then some (n + 4)
  else if n = 43 then some 62
  else if n = 47 then some 63
  else none

/-- The alphabet and the padding. -/
def isCode (b : UInt8) : Bool := (value b).isSome || b == padding

/-- A decoder that skips other bytes, rejects the alphabet behind a padding and decodes what is
encoded. -/
structure Decoder where
  decode : Text → Option Text
  skips : ∀ s, decode (s.filter isCode) = decode s
  rejects : ∀ s t b, (value b).isSome → b ∈ t → decode (s ++ padding :: t) = none
  decodes : ∀ s, decode (encodeToString s) = some s

/-! ### The alphabet -/

theorem value_encodeChar {n : Nat} (h : n < 64) : value (encodeChar n) = some n := by
  revert n
  decide

theorem value_padding : value padding = none := by decide

theorem isCode_encodeToString (s : Text) : ∀ b ∈ encodeToString s, isCode b = true := by
  have hchar {n : Nat} (h : n < 64) : isCode (encodeChar n) = true := by
    rw [isCode, value_encodeChar h]
    rfl
  induction s using encodeToString.induct with
  | case1 => simp [encodeToString]
  | case2 a =>
    have ha := a.toNat_lt
    simp only [encodeToString, List.forall_mem_cons]
    exact ⟨hchar (by omega), hchar (by omega), rfl, rfl, by simp⟩
  | case3 a b =>
    have ha := a.toNat_lt
    have hb := b.toNat_lt
    simp only [encodeToString, List.forall_mem_cons]
    exact ⟨hchar (by omega), hchar (by omega), hchar (by omega), rfl, by simp⟩
  | case4 a b c s ih =>
    have ha := a.toNat_lt
    have hb := b.toNat_lt
    have hc := c.toNat_lt
    simp only [encodeToString, List.forall_mem_cons]
    exact ⟨hchar (by omega), hchar (by omega), hchar (by omega), hchar (by omega), ih⟩

/-- Before a padding stands a padding or a character whose last two bits are zero. -/
def Closes (b c : UInt8) : Prop := c = padding → b = padding ∨ ∃ n < 16, b = encodeChar (4 * n)

theorem encodeChar_ne_padding {n : Nat} (h : n < 64) : encodeChar n ≠ padding := by
  revert n
  decide

theorem closes_encodeChar (b : UInt8) {n : Nat} (h : n < 64) : Closes b (encodeChar n) :=
  fun he => (encodeChar_ne_padding h he).elim

theorem head_encodeToString (s : Text) : ∀ c ∈ (encodeToString s).head?, ∃ n < 64, c = encodeChar n := by
  intro c hc
  cases s using encodeToString.fun_cases with
  | case1 => cases hc
  | case2 a | case3 a _ | case4 a _ _ _ =>
    have ha := a.toNat_lt
    simp only [encodeToString, List.head?_cons, Option.mem_some_iff] at hc
    exact ⟨_, by omega, hc.symm⟩

theorem closes_encodeToString (s : Text) : (encodeToString s).IsChain Closes := by
  induction s using encodeToString.induct with
  | case1 => exact .nil
  | case2 a =>
    have ha := a.toNat_lt
    refine .cons_cons (closes_encodeChar _ (by omega)) (.cons_cons ?_
      (.cons_cons (fun _ => Or.inl rfl) (.singleton _)))
    exact fun _ => Or.inr ⟨4 * (a.toNat % 4), by omega, by congr 1; omega⟩
  | case3 a b =>
    have ha := a.toNat_lt
    have hb := b.toNat_lt
    refine .cons_cons (closes_encodeChar _ (by omega)) (.cons_cons (closes_encodeChar _ (by omega))
      (.cons_cons ?_ (.singleton _)))
    exact fun _ => Or.inr ⟨b.toNat % 16, by omega, by congr 1; omega⟩
  | case4 a b c s ih =>
    have ha := a.toNat_lt
    have hb := b.toNat_lt
    have hc := c.toNat_lt
    refine .cons_cons (closes_encodeChar _ (by omega)) (.cons_cons (closes_encodeChar _ (by omega))
      (.cons_cons (closes_encodeChar _ (by omega)) (.cons ih ?_)))
    intro y hy
    obtain ⟨n, hn, rfl⟩ := head_encodeToString s y hy
    exact closes_encodeChar _ hn

/-! ### The decoder of Android -/

/-- How much of a group of four has been read, and the bits of it. -/
inductive DecoderState
  | start
  | one (v : Nat)
  | two (v : Nat)
  | three (v : Nat)
  | padded
  | done
  | failed

/-- One byte of `Decoder.process`, with the bytes put out so far. -/
def process (st : DecoderState × Text) (b : UInt8) : DecoderState × Text :=
  match value b with
  | some d =>
    match st.1 with
    | .start => (.one d, st.2)
    | .one v => (.two (v * 64 + d), st.2)
    | .two v => (.three (v * 64 + d), st.2)
    | .three v =>
      let n := v * 64 + d
      (.start, st.2 ++ [UInt8.ofNat (n / 65536), UInt8.ofNat (n / 256), UInt8.ofNat n])
    | .padded | .done | .failed => (.failed, st.2)
  | none =>
    if b == padding then
      match st.1 with
      | .two v => (.padded, st.2 ++ [UInt8.ofNat (v / 16)])
      | .three v => (.done, st.2 ++ [UInt8.ofNat (v / 1024), UInt8.ofNat (v / 4)])
      | .padded => (.done, st.2)
      | .start | .one _ | .done | .failed => (.failed, st.2)
    else st

def finish (st : DecoderState × Text) : Option Text :=
  match st.1 with
  | .start | .done => some st.2
  | .two v => some (st.2 ++ [UInt8.ofNat (v / 16)])
  | .three v => some (st.2 ++ [UInt8.ofNat (v / 1024), UInt8.ofNat (v / 4)])
  | .one _ | .padded | .failed => none

def decode (s : Text) : Option Text := finish (s.foldl process (.start, []))

theorem process_skip {st : DecoderState × Text} (h : isCode b = false) : process st b = st := by
  rw [isCode, Bool.or_eq_false_iff] at h
  have hv : value b = none := by simpa using h.1
  unfold process
  rw [hv, h.2]
  rfl

theorem foldl_process_filter (st : DecoderState × Text) (s : Text) :
    (s.filter isCode).foldl process st = s.foldl process st := by
  induction s generalizing st with
  | nil => rfl
  | cons b s ih =>
    cases hb : isCode b with
    | true => rw [List.filter_cons_of_pos hb, List.foldl_cons, List.foldl_cons, ih]
    | false =>
      rw [List.filter_cons_of_neg (by rw [hb]; exact Bool.false_ne_true), List.foldl_cons,
        process_skip hb, ih]

/-- Behind a padding no byte of the alphabet is accepted. -/
def DecoderState.closing : DecoderState → Bool
  | .padded | .done | .failed => true
  | _ => false

theorem closing_padding (st : DecoderState × Text) : (process st padding).1.closing = true := by
  obtain ⟨st, out⟩ := st
  cases st <;> rfl

theorem closing_process {st : DecoderState × Text} (h : st.1.closing = true) (b : UInt8) :
    (process st b).1.closing = true := by
  obtain ⟨st, out⟩ := st
  unfold process
  cases value b with
  | some d => cases st <;> first | rfl | cases h
  | none =>
    dsimp only
    split
    · cases st <;> rfl
    · exact h

theorem failed_process {st : DecoderState × Text} (h : st.1 = .failed) (s : Text) :
    (s.foldl process st).1 = .failed := by
  induction s generalizing st with
  | nil => exact h
  | cons b s ih =>
    refine ih ?_
    obtain ⟨st, out⟩ := st
    obtain rfl : st = .failed := h
    unfold process
    cases value b with
    | some d => rfl
    | none =>
      dsimp only
      split <;> rfl

theorem failed_of_closing {st : DecoderState × Text} (h : st.1.closing = true)
    (hb : (value b).isSome = true) (hm : b ∈ s) : (s.foldl process st).1 = .failed := by
  induction s generalizing st with
  | nil => cases hm
  | cons c s ih =>
    rcases List.mem_cons.mp hm with rfl | hm
    · refine failed_process ?_ s
      obtain ⟨d, hd⟩ := Option.isSome_iff_exists.mp hb
      obtain ⟨st, out⟩ := st
      unfold process
      rw [hd]
      cases st <;> first | rfl | cases h
    · exact ih (closing_process h c) hm

theorem ofNat_eq {n : Nat} (h : n % 256 = b.toNat) : UInt8.ofNat n = b := by
  refine UInt8.toNat_inj.mp ?_
  rw [UInt8.toNat_ofNat']
  exact h

theorem foldl_process_encode (s out : Text) : ∃ st : DecoderState, (st = .start ∨ st = .done) ∧
    (encodeToString s).foldl process (.start, out) = (st, out ++ s) := by
  induction s using encodeToString.induct generalizing out with
  | case1 => exact ⟨.start, Or.inl rfl, by simp [encodeToString]⟩
  | case2 a =>
    have ha := a.toNat_lt
    refine ⟨.done, Or.inr rfl, ?_⟩
    simp only [encodeToString, List.foldl_cons, List.foldl_nil, process, value_padding,
      value_encodeChar (show a.toNat / 4 < 64 by omega),
      value_encodeChar (show a.toNat % 4 * 16 < 64 by omega)]
    simp only [beq_self_eq_true, if_true]
    rw [ofNat_eq (b := a) (by omega)]
  | case3 a b =>
    have ha := a.toNat_lt
    have hb := b.toNat_lt
    refine ⟨.done, Or.inr rfl, ?_⟩
    simp only [encodeToString, List.foldl_cons, List.foldl_nil, process, value_padding,
      value_encodeChar (show a.toNat / 4 < 64 by omega),
      value_encodeChar (show a.toNat % 4 * 16 + b.toNat / 16 < 64 by omega),
      value_encodeChar (show b.toNat % 16 * 4 < 64 by omega)]
    simp only [beq_self_eq_true, if_true]
    rw [ofNat_eq (b := a) (by omega), ofNat_eq (b := b) (by omega)]
  | case4 a b c s ih =>
    have ha := a.toNat_lt
    have hb := b.toNat_lt
    have hc := c.toNat_lt
    obtain ⟨st, hst, hrun⟩ := ih (out ++ [a, b, c])
    refine ⟨st, hst, ?_⟩
    simp only [encodeToString, List.foldl_cons, process,
      value_encodeChar (show a.toNat / 4 < 64 by omega),
      value_encodeChar (show a.toNat % 4 * 16 + b.toNat / 16 < 64 by omega),
      value_encodeChar (show b.toNat % 16 * 4 + c.toNat / 64 < 64 by omega),
      value_encodeChar (show c.toNat % 64 < 64 by omega)]
    rw [ofNat_eq (b := a) (by omega), ofNat_eq (b := b) (by omega), ofNat_eq (b := c) (by omega),
      hrun, List.append_assoc]
    rfl

def android : Decoder where
  decode := decode
  skips s := congrArg finish (foldl_process_filter _ s)
  rejects s t b hb hm := by
    unfold decode
    rw [List.foldl_append, List.foldl_cons]
    have hfailed := failed_of_closing (closing_padding (s.foldl process (.start, []))) hb hm
    unfold finish
    rw [hfailed]
  decodes s := by
    obtain ⟨st, hst, hrun⟩ := foldl_process_encode s []
    unfold decode
    rw [hrun]
    rcases hst with rfl | rfl <;> rfl

end XTunnel.Net.Base64
