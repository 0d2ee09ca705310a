import XTunnel.Net.Text
import Mathlib.Data.List.TakeWhile

/-! `net.SplitHostPort`, `net.JoinHostPort` and the `%d` scan of `fmt.Sscanf` on byte texts. -/
namespace XTunnel.Net

/-- Host and port of a text; the errors are `none`. -/
def splitHostPort (hostport : Text) : Option (Text × Text) :=
  match cutLast colon hostport with
  | none => none
  | some (before, port) =>
    match hostport with
    | c :: rest =>
      if c = lbracket then
        match cutFirst rbracket rest with
        | none => none
        | some (host, after) =>
          -- the first bracket that closes must stand just before the last colon
          if after = colon :: port then
            if lbracket ∈ rest then none
            else if rbracket ∈ after then none
            else some (host, port)
          else none
      else if colon ∈ before then none
      else if lbracket ∈ hostport then none
      else if rbracket ∈ hostport then none
      else some (before, port)
    | [] => none

def joinHostPort (host port : Text) : Text :=
  if colon ∈ host then lbracket :: host ++ rbracket :: colon :: port
  else host ++ colon :: port

/-- A host text without the brackets of a literal. -/
def unbracket : Text → Text
  | 91 :: s => s.dropLast
  | s => s

/-- `host, port, _ := net.SplitHostPort(s)`: both are empty on an error. -/
def splitHostPortOrEmpty (hostport : Text) : Text × Text := (splitHostPort hostport).getD ([], [])

/-- The encoded blanks that a scan skips, other than the line feed. -/
def isSpace : Text → Option Text
  | 9 :: s | 11 :: s | 12 :: s | 13 :: s | 32 :: s => some s
  | 0xc2 :: 0x85 :: s | 0xc2 :: 0xa0 :: s => some s
  | 0xe1 :: 0x9a :: 0x80 :: s => some s
  | 0xe2 :: 0x80 :: c :: s =>
    if 0x80 ≤ c.toNat ∧ c.toNat ≤ 0x8a ∨ c = 0xa8 ∨ c = 0xa9 ∨ c = 0xaf then some s else none
  | 0xe2 :: 0x81 :: 0x9f :: s => some s
  | 0xe3 :: 0x80 :: 0x80 :: s => some s
  | _ => none

def skipSpace : Nat → Text → Text
  | 0, s => s
  | fuel + 1, s =>
    match isSpace s with
    | some s => skipSpace fuel s
    | none => s

/-- `fmt.Sscanf(s, "%d", &n)` into an `int` of 64 bits: blanks, a sign, digits, any rest. A line
feed is no blank. -/
def sscanfD (s : Text) : Option Int :=
  let s := skipSpace s.length s
  let (negative, s) :=
    match s with
    | 43 :: s => (false, s)
    | 45 :: s => (true, s)
    | s => (false, s)
  let digits := s.takeWhile isDigit
  if digits = [] then none
  else
    let n : Int := if negative then -(ofDigits 10 digits : Int) else ofDigits 10 digits
    if -2 ^ 63 ≤ n ∧ n < 2 ^ 63 then some n else none

section

variable {host port x q : Text}

/-- No byte of the host text is special to the split. -/
structure Plain (host : Text) : Prop where
  colon : colon ∉ host
  lbracket : lbracket ∉ host
  rbracket : rbracket ∉ host

/-- The host text is `x` in brackets, and `x` has no brackets. -/
structure Bracketed (host x : Text) : Prop where
  eq : host = lbracket :: x ++ [rbracket]
  lbracket : lbracket ∉ x
  rbracket : rbracket ∉ x

theorem Bracketed.not_plain (h : Bracketed host x) : ¬ Plain host := by
  intro hp
  apply hp.lbracket
  rw [h.eq]
  exact List.mem_cons_self

/-- A bracketed host is split off with its brackets removed. -/
theorem splitHostPort_bracketed (hp : Plain port) (h : Bracketed host x) :
    splitHostPort (host ++ colon :: port) = some (x, port) := by
  have hcut := cutLast_append (a := host) hp.colon
  have hfirst : cutFirst rbracket (x ++ rbracket :: colon :: port) = some (x, colon :: port) :=
    cutFirst_append h.rbracket
  have hlr : lbracket ≠ rbracket := by decide
  have hlc : lbracket ≠ colon := by decide
  have hrc : rbracket ≠ colon := by decide
  rw [splitHostPort, hcut, h.eq]
  simp [hfirst, h.lbracket, hp.lbracket, hp.rbracket, hlr, hlc, hrc]

theorem notMem_append_colon {c : UInt8} (hh : c ∉ host) (hp : c ∉ port) (hc : c ≠ colon) :
    c ∉ host ++ colon :: port := by
  rw [List.mem_append, List.mem_cons]
  rintro (h | h | h)
  · exact hh h
  · exact hc h
  · exact hp h

theorem splitHostPort_plain (hp : Plain port) (hh : Plain host) :
    splitHostPort (host ++ colon :: port) = some (host, port) := by
  have hl := notMem_append_colon hh.lbracket hp.lbracket (by decide)
  have hr := notMem_append_colon hh.rbracket hp.rbracket (by decide)
  rw [splitHostPort, cutLast_append hp.colon]
  cases hs : host ++ colon :: port with
  | nil => simp at hs
  | cons c rest =>
    rw [hs] at hl hr
    have hc : c ≠ lbracket := by
      rintro rfl
      exact hl List.mem_cons_self
    simp only [if_neg hc, if_neg hh.colon, if_neg hl, if_neg hr]

/-- A text that splits is a host text and a port without special bytes. -/
theorem splitHostPort_eq_some {hostport : Text} : splitHostPort hostport = some (x, q) ↔
    ∃ host, hostport = host ++ colon :: q ∧ Plain q ∧ (Plain host ∧ x = host ∨ Bracketed host x) := by
  constructor
  · intro h
    cases hcut : cutLast colon hostport with
    | none => simp [splitHostPort, hcut] at h
    | some parts =>
      obtain ⟨before, port⟩ := parts
      obtain ⟨heq, hp⟩ := cutLast_eq_some.mp hcut
      rw [splitHostPort, hcut] at h
      cases hostport with
      | nil => cases h
      | cons c rest =>
        simp only at h
        split at h
        · rename_i hc
          cases hf : cutFirst rbracket rest with
          | none => simp [hf] at h
          | some r =>
            obtain ⟨host, after⟩ := r
            obtain ⟨rfl, hnot⟩ := cutFirst_eq_some.mp hf
            simp only [hf] at h
            split at h
            · rename_i ha
              split at h
              · cases h
              · rename_i hl
                split at h
                · cases h
                · rename_i hr
                  cases h
                  subst hc ha
                  simp only [List.mem_append, List.mem_cons, not_or] at hl hr
                  exact ⟨lbracket :: x ++ [rbracket], by simp, ⟨hp, hl.2.2.2, hr.2⟩,
                    Or.inr ⟨rfl, hl.1, hnot⟩⟩
            · cases h
        · split at h
          · cases h
          · rename_i hcolon
            split at h
            · cases h
            · rename_i hl
              split at h
              · cases h
              · rename_i hr
                cases h
                rw [heq] at hl hr
                simp only [List.mem_append, List.mem_cons, not_or] at hl hr
                exact ⟨x, heq, ⟨hp, hl.2.2, hr.2.2⟩, Or.inl ⟨⟨hcolon, hl.1, hr.1⟩, rfl⟩⟩
  · rintro ⟨host, rfl, hp, ⟨hh, rfl⟩ | hb⟩
    · exact splitHostPort_plain hp hh
    · exact splitHostPort_bracketed hp hb

/-- The split of any host text and a port without special bytes. -/
theorem splitHostPort_append (hp : Plain port) :
    splitHostPort (host ++ colon :: port) = some (x, q) ↔
      q = port ∧ (Plain host ∧ x = host ∨ Bracketed host x) := by
  constructor
  · intro h
    obtain ⟨host', heq, hq, hor⟩ := splitHostPort_eq_some.mp h
    have hcut := cutLast_append (a := host) hp.colon
    rw [heq, cutLast_append hq.colon] at hcut
    cases hcut
    exact ⟨rfl, hor⟩
  · rintro ⟨rfl, hor⟩
    exact splitHostPort_eq_some.mpr ⟨host, rfl, hp, hor⟩

/-- No part of a split has anything special left. -/
theorem splitHostPort_spec {hostport : Text} (h : splitHostPort hostport = some (host, port)) :
    Plain port ∧ lbracket ∉ host ∧ rbracket ∉ host := by
  obtain ⟨_, -, hp, ⟨hh, rfl⟩ | hb⟩ := splitHostPort_eq_some.mp h
  · exact ⟨hp, hh.lbracket, hh.rbracket⟩
  · exact ⟨hp, hb.lbracket, hb.rbracket⟩

theorem plain_digits {d : Text} (h : d.all isDigit = true) : Plain d := by
  have hno : ∀ c : UInt8, isDigit c = false → c ∉ d := by
    intro c hc hm
    rw [List.all_eq_true.mp h c hm] at hc
    cases hc
  exact ⟨hno _ (by decide), hno _ (by decide), hno _ (by decide)⟩

theorem plain_itoa (n : Nat) : Plain (itoa n) :=
  ⟨notMem_itoa (by decide), notMem_itoa (by decide), notMem_itoa (by decide)⟩

/-- Joining brackets exactly the hosts with a colon, so it splits back unless they have brackets. -/
theorem splitHostPort_joinHostPort (hp : Plain port) (hl : lbracket ∉ host)
    (hr : rbracket ∉ host) : splitHostPort (joinHostPort host port) = some (host, port) := by
  rw [joinHostPort]
  split
  · have heq : lbracket :: host ++ rbracket :: colon :: port =
        (lbracket :: host ++ [rbracket]) ++ colon :: port := by simp
    rw [heq]
    exact splitHostPort_bracketed hp ⟨rfl, hl, hr⟩
  · rename_i hc
    exact (splitHostPort_append hp).mpr ⟨rfl, Or.inl ⟨⟨hc, hl, hr⟩, rfl⟩⟩

theorem unbracket_of_notMem (h : lbracket ∉ host) : unbracket host = host := by
  unfold unbracket
  split
  · exact absurd List.mem_cons_self h
  · rfl

/-- What a joined address splits into, if it does. -/
theorem splitHostPort_joinHostPort_eq (hp : Plain port)
    (h : splitHostPort (joinHostPort host port) = some (x, q)) :
    q = port ∧ x = unbracket host := by
  rw [joinHostPort] at h
  split at h
  · have heq : lbracket :: host ++ rbracket :: colon :: port =
        (lbracket :: host ++ [rbracket]) ++ colon :: port := by simp
    rw [heq] at h
    obtain ⟨rfl, ⟨hh, -⟩ | hb⟩ := (splitHostPort_append hp).mp h
    · exact absurd List.mem_cons_self hh.lbracket
    · have hx : host = x := by simpa using hb.eq
      subst hx
      exact ⟨rfl, (unbracket_of_notMem hb.lbracket).symm⟩
  · obtain ⟨rfl, ⟨hh, rfl⟩ | hb⟩ := (splitHostPort_append hp).mp h
    · exact ⟨rfl, (unbracket_of_notMem hh.lbracket).symm⟩
    · rw [hb.eq]
      exact ⟨rfl, by simp [unbracket]⟩

theorem isSpace_digit {c : UInt8} {s : Text} (h : isDigit c = true) : isSpace (c :: s) = none := by
  simp only [isDigit, Bool.and_eq_true, decide_eq_true_eq] at h
  have hne : ∀ k : UInt8, k.toNat < 48 ∨ 57 < k.toNat → c ≠ k := by
    rintro k hk rfl
    omega
  unfold isSpace
  split <;> first | rfl | (rename_i he; injection he with he; exact absurd he (hne _ (by decide)))

/-- The scan reads back what `%d` prints of a port. -/
theorem sscanfD_itoa {n : Nat} (h : n < 2 ^ 63) : sscanfD (itoa n) = some (n : Int) := by
  have hskip : ∀ fuel, skipSpace fuel (itoa n) = itoa n := by
    intro fuel
    cases fuel with
    | zero => rfl
    | succ fuel =>
      cases hs : itoa n with
      | nil => exact (digits_ne_nil hs).elim
      | cons c s =>
        have hc := itoa_isDigit c (by rw [hs]; exact List.mem_cons_self)
        rw [skipSpace, isSpace_digit hc]
  have hsign : ∀ s : Text, (∀ c ∈ s, isDigit c = true) →
      (match s with
        | 43 :: s => (false, s)
        | 45 :: s => (true, s)
        | s => (false, s)) = (false, s) := by
    intro s hs
    split
    · exact absurd (hs 43 List.mem_cons_self) (by decide)
    · exact absurd (hs 45 List.mem_cons_self) (by decide)
    · rfl
  have htake : (itoa n).takeWhile isDigit = itoa n :=
    List.takeWhile_eq_self_iff.mpr itoa_isDigit
  have hne : itoa n ≠ [] := digits_ne_nil
  have hvalue : ofDigits 10 (itoa n) = n := ofDigits_digits (by decide) (by decide)
  have hrange : -2 ^ 63 ≤ (n : Int) ∧ (n : Int) < 2 ^ 63 := by omega
  simp only [sscanfD, hskip, hsign _ itoa_isDigit, htake, hne, hvalue, Bool.false_eq_true, if_false,
    if_pos hrange]

end
end XTunnel.Net
