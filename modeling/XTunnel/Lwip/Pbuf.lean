import XTunnel.Code
import XTunnel.Net.Text

/-! The packet buffers of lwIP: chains of buffers that are extended at their end and consumed from their
front. -/
namespace XTunnel.Lwip

open Code Net

/-- `payload` are the `len` bytes from the payload pointer on. -/
structure Pbuf where
  next : Option Nat
  payload : Text
  tot_len : Nat
  ref : Nat
deriving DecidableEq, Repr

def Pbuf.len (b : Pbuf) : Nat := b.payload.length

/-- The buffers that are allocated. -/
abbrev Pbufs := Nat → Option Pbuf

abbrev M := Code Pbufs

def load (p : Nat) : M Pbuf := fun h => (h p).map (·, h)

def store (p : Nat) (b : Pbuf) : M Unit := fun h =>
  (h p).map fun _ => ((), Function.update h p (some b))

def dealloc (p : Nat) : M Unit := fun h => (h p).map fun _ => ((), Function.update h p none)

/-- An assertion of lwIP ends the program where it fails. -/
def lwip_assert (c : Bool) : M Unit := if c then pure () else fault

def u16 (n : Nat) : Nat := n % 2 ^ 16

def u16Sub (a b : Nat) : Nat := (a + 2 ^ 16 - b) % 2 ^ 16

def pbuf_remove_header (p : Nat) (decrement : Nat) : M Bool := do
  if 0xFFFF < decrement then return true
  if decrement = 0 then return false
  let b ← load p
  if b.len < decrement then return true
  store p { b with payload := b.payload.drop decrement, tot_len := u16Sub b.tot_len decrement }
  return false

/-- The loop of `pbuf_free`; it counts the buffers that go away. -/
def freeFrom : Nat → Option Nat → M Nat
  | 0, _ => fault
  | _ + 1, none => return 0
  | fuel + 1, some p => do
    let b ← load p
    lwip_assert (0 < b.ref)
    let ref := b.ref - 1
    if ref = 0 then
      dealloc p
      let count ← freeFrom fuel b.next
      return (count + 1) % 2 ^ 8
    else
      store p { b with ref := ref }
      return 0

def pbuf_free (fuel p : Nat) : M Nat := freeFrom fuel (some p)

/-- The loop of `pbuf_free_header`. -/
def freeHeader : Nat → Option Nat → Nat → M (Option Nat)
  | 0, _, _ => fault
  | _ + 1, none, _ => return none
  | fuel + 1, some p, free_left =>
    if free_left = 0 then return some p
    else do
      let b ← load p
      if b.len ≤ free_left then
        store p { b with next := none }
        let _ ← pbuf_free fuel p
        freeHeader fuel b.next (free_left - b.len)
      else
        let _ ← pbuf_remove_header p free_left
        return some p

def pbuf_free_header (fuel : Nat) (q : Option Nat) (size : Nat) : M (Option Nat) :=
  freeHeader fuel q (u16 size)

/-- The loop of `pbuf_cat` from `p` on. -/
def catFrom : Nat → Nat → Nat → M Unit
  | 0, _, _ => fault
  | fuel + 1, p, t => do
    let b ← load p
    let tail ← load t
    let tot_len := u16 (b.tot_len + tail.tot_len)
    match b.next with
    | some next =>
      store p { b with tot_len := tot_len }
      catFrom fuel next t
    | none =>
      lwip_assert (b.tot_len = b.len)
      store p { b with tot_len := tot_len, next := some t }

def pbuf_cat (fuel : Nat) (h t : Nat) : M Unit := do
  lwip_assert (h ≠ t)
  catFrom fuel h t

/-- The payloads of the first `n` buffers from `p` on. -/
def payloads : Nat → Option Nat → M (List Text)
  | 0, _ => return []
  | _ + 1, none => return []
  | n + 1, some p => do
    let b ← load p
    let iov ← payloads n b.next
    return b.payload :: iov

/-- A chain: its buffers from first to last, each with its bytes. -/
abbrev Chain := List (Nat × Text)

namespace Chain

def first (l : Chain) : Option Nat := l.head?.map Prod.fst

def ptrs (l : Chain) : List Nat := l.map Prod.fst

def bytes (l : Chain) : Text := l.flatMap Prod.snd

/-- The memory has the chain, each buffer with one reference. -/
def In (h : Pbufs) : Chain → Prop
  | [] => True
  | (p, xs) :: l => h p = some ⟨first l, xs, (bytes ((p, xs) :: l)).length, 1⟩ ∧ In h l

/-- What is left when `n` bytes are taken from the front. -/
def consume : Chain → Nat → Chain
  | [], _ => []
  | (p, xs) :: l, n =>
    if n = 0 then (p, xs) :: l
    else if xs.length ≤ n then consume l (n - xs.length)
    else (p, xs.drop n) :: l

/-- The memory is the chain and nothing else, and its length is one of 16 bits. -/
structure Owns (h : Pbufs) (l : Chain) : Prop where
  inside : In h l
  only : ∀ p, p ∉ ptrs l → h p = none
  nodup : (ptrs l).Nodup
  short : (bytes l).length < 2 ^ 16

end Chain

open Chain

variable {h h' : Pbufs} {l k : Chain} {p t : Nat} {b : Pbuf} {xs : Text} {n fuel : Nat} {α : Type}
  {R : α → Pbufs → Prop}

@[simp] theorem first_nil : first [] = none := rfl

@[simp] theorem first_cons : first ((p, xs) :: l) = some p := rfl

@[simp] theorem ptrs_nil : ptrs [] = [] := rfl

@[simp] theorem ptrs_cons : ptrs ((p, xs) :: l) = p :: ptrs l := rfl

@[simp] theorem ptrs_append : ptrs (l ++ k) = ptrs l ++ ptrs k := List.map_append

@[simp] theorem bytes_nil : bytes [] = [] := rfl

@[simp] theorem bytes_cons : bytes ((p, xs) :: l) = xs ++ bytes l := by simp [bytes]

@[simp] theorem bytes_append : bytes (l ++ k) = bytes l ++ bytes k := by simp [bytes]

theorem ensures_load (hp : h p = some b) {R : Pbuf → Pbufs → Prop} (hR : R b h) : (load p).Ensures h R := by
  refine ⟨b, h, ?_, hR⟩
  rw [load, hp]
  rfl

theorem load_bind {f : Pbuf → M α} (hp : h p = some b) (hf : (f b).Ensures h R) :
    (load p >>= f).Ensures h R :=
  Ensures.bind (ensures_load hp hf)

theorem ensures_store (hp : h p = some b) {c : Pbuf} {R : Unit → Pbufs → Prop}
    (hR : R () (Function.update h p (some c))) : (store p c).Ensures h R := by
  refine ⟨(), _, ?_, hR⟩
  rw [store, hp]
  rfl

theorem store_bind {f : Unit → M α} (hp : h p = some b) {c : Pbuf}
    (hf : (f ()).Ensures (Function.update h p (some c)) R) : (store p c >>= f).Ensures h R :=
  Ensures.bind (ensures_store hp hf)

theorem dealloc_bind {f : Unit → M α} (hp : h p = some b)
    (hf : (f ()).Ensures (Function.update h p none) R) : (dealloc p >>= f).Ensures h R := by
  refine Ensures.bind ⟨(), _, ?_, hf⟩
  rw [dealloc, hp]
  rfl

theorem assert_bind {f : Unit → M α} {c : Bool} (hc : c = true) (hf : (f ()).Ensures h R) :
    (lwip_assert c >>= f).Ensures h R := by
  subst hc
  exact pure_bind hf

/-- Memory outside of a chain does not matter. -/
theorem Chain.In.congr (hin : In h l) (hs : ∀ p ∈ ptrs l, h' p = h p) : In h' l := by
  induction l with
  | nil => trivial
  | cons c l ih =>
    obtain ⟨p, xs⟩ := c
    simp only [ptrs_cons, List.mem_cons, forall_eq_or_imp] at hs
    exact ⟨hs.1.trans hin.1, ih hin.2 hs.2⟩

theorem Chain.In.update (hin : In h l) {c : Option Pbuf} (hp : p ∉ ptrs l) : In (Function.update h p c) l :=
  hin.congr fun _ hq => Function.update_of_ne (ne_of_mem_of_not_mem hq hp) _ _

/-- What is consumed are the first bytes, and the buffers that are left are the last ones. -/
theorem consume_bytes (l : Chain) (n : Nat) : bytes (consume l n) = (bytes l).drop n := by
  fun_induction consume l n with
  | case1 n => simp
  | case2 p xs l => simp
  | case3 p xs l n hn hle ih =>
    rw [ih, bytes_cons, List.drop_append, List.drop_of_length_le hle, List.nil_append]
  | case4 p xs l n hn hlt =>
    rw [bytes_cons, bytes_cons, List.drop_append_of_le_length (Nat.le_of_lt (Nat.not_le.mp hlt))]

theorem consume_ptrs (l : Chain) (n : Nat) : ptrs (consume l n) <:+ ptrs l := by
  fun_induction consume l n with
  | case1 n => exact List.suffix_rfl
  | case2 p xs l => exact List.suffix_rfl
  | case3 p xs l n hn hle ih => exact ih.trans (List.suffix_cons _ _)
  | case4 p xs l n hn hlt => exact List.suffix_rfl

/-- A buffer that nothing else refers to, behind which there is none, goes away. -/
theorem free_single_bind {f : Nat → M α} (hp : h p = some ⟨none, xs, n, 1⟩) (hfuel : 2 ≤ fuel)
    (hf : ∀ c, (f c).Ensures (Function.update h p none) R) :
    (pbuf_free fuel p >>= f).Ensures h R := by
  obtain ⟨fuel, rfl⟩ : ∃ k, fuel = k + 2 := ⟨fuel - 2, by omega⟩
  refine Ensures.bind (load_bind hp (assert_bind rfl ?_))
  simp only [Nat.sub_self, reduceIte]
  exact dealloc_bind hp (pure_bind (ensures_pure (hf _)))

theorem ensures_freeFrom (hin : In h l) (hn : (ptrs l).Nodup) (hfuel : l.length < fuel) :
    (freeFrom fuel (first l)).Ensures h fun _ h' =>
      (∀ p ∈ ptrs l, h' p = none) ∧ ∀ p, p ∉ ptrs l → h' p = h p := by
  induction l generalizing h fuel with
  | nil =>
    obtain ⟨fuel, rfl⟩ : ∃ k, fuel = k + 1 := ⟨fuel - 1, by omega⟩
    exact ensures_pure ⟨by simp, fun _ _ => rfl⟩
  | cons c l ih =>
    obtain ⟨p, xs⟩ := c
    obtain ⟨fuel, rfl⟩ : ∃ k, fuel = k + 1 := ⟨fuel - 1, by omega⟩
    rw [ptrs_cons, List.nodup_cons] at hn
    refine load_bind hin.1 (assert_bind rfl ?_)
    simp only [Nat.sub_self, reduceIte]
    refine dealloc_bind hin.1 ((ih (hin.2.update hn.1) hn.2 (by simpa using hfuel)).seq
      fun _ h' hres => ensures_pure ⟨?_, ?_⟩)
    · intro q hq
      rcases List.mem_cons.mp hq with rfl | hq
      · rw [hres.2 q hn.1, Function.update_self]
      · exact hres.1 q hq
    · intro q hq
      simp only [ptrs_cons, List.mem_cons, not_or] at hq
      rw [hres.2 q hq.2, Function.update_of_ne hq.1]

/-- The buffers of a chain go away. -/
theorem ensures_free (ho : Owns h l) (hp : first l = some p) (hfuel : l.length < fuel) :
    (pbuf_free fuel p).Ensures h fun _ h' => Owns h' [] := by
  have hfree := ensures_freeFrom ho.inside ho.nodup hfuel
  rw [hp] at hfree
  refine hfree.mono fun _ h' hres => ⟨trivial, fun p _ => ?_, ?_, ?_⟩
  · by_cases hp : p ∈ ptrs l
    · exact hres.1 p hp
    · rw [hres.2 p hp, ho.only p hp]
  · exact List.nodup_nil
  · simp

theorem ensures_freeHeader (ho : Owns h l) (hn : n ≤ (bytes l).length) (hfuel : l.length + 1 < fuel) :
    (freeHeader fuel (first l) n).Ensures h fun q h' => q = first (consume l n) ∧ Owns h' (consume l n) := by
  induction l generalizing h n fuel with
  | nil =>
    obtain ⟨fuel, rfl⟩ : ∃ k, fuel = k + 1 := ⟨fuel - 1, by omega⟩
    exact ensures_pure ⟨rfl, ho⟩
  | cons c l ih =>
    obtain ⟨p, xs⟩ := c
    obtain ⟨fuel, rfl⟩ : ∃ k, fuel = k + 1 := ⟨fuel - 1, by omega⟩
    obtain ⟨⟨hp, hin⟩, honly, hnd, hshort⟩ := ho
    rw [ptrs_cons, List.nodup_cons] at hnd
    rw [List.length_cons] at hfuel
    have hplen : (⟨first l, xs, (bytes ((p, xs) :: l)).length, 1⟩ : Pbuf).len = xs.length := rfl
    rw [first_cons, freeHeader, consume]
    by_cases h0 : n = 0
    · rw [if_pos h0, if_pos h0]
      exact ensures_pure ⟨rfl, ⟨hp, hin⟩, honly, List.nodup_cons.mpr hnd, hshort⟩
    rw [if_neg h0, if_neg h0]
    refine load_bind hp ?_
    have hlen : (bytes ((p, xs) :: l)).length = xs.length + (bytes l).length := by simp
    by_cases hle : xs.length ≤ n
    · rw [if_pos (hplen ▸ hle), if_pos hle]
      refine store_bind hp (free_single_bind (Function.update_self _ _ _) (by omega) fun _ => ?_)
      rw [Function.update_idem]
      refine ih ⟨hin.update hnd.1, fun q hq => ?_, hnd.2, by omega⟩ (by omega)
        (by omega)
      by_cases hqp : q = p
      · subst hqp
        exact Function.update_self _ _ _
      · rw [Function.update_of_ne hqp]
        exact honly q (by simp [hqp, hq])
    · rw [if_neg (hplen ▸ hle), if_neg hle]
      refine Ensures.bind ?_
      rw [pbuf_remove_header, if_neg (by omega), if_neg h0]
      refine load_bind hp ?_
      rw [if_neg (by rw [hplen]; omega)]
      refine store_bind hp (ensures_pure (ensures_pure ⟨rfl, ⟨?_, hin.update hnd.1⟩, ?_, ?_, ?_⟩))
      · rw [Function.update_self, u16Sub]
        simp only [Option.some.injEq, Pbuf.mk.injEq, bytes_cons, List.length_append, List.length_drop,
          true_and, and_true]
        omega
      · intro q hq
        simp only [ptrs_cons, List.mem_cons, not_or] at hq
        rw [Function.update_of_ne hq.1]
        exact honly q (by simp [hq])
      · exact List.nodup_cons.mpr hnd
      · rw [bytes_cons, List.length_append, List.length_drop]
        omega

/-- Consuming bytes from the front of a chain. -/
theorem ensures_free_header (ho : Owns h l) (hn : n ≤ (bytes l).length) (hfuel : l.length + 1 < fuel) :
    (pbuf_free_header fuel (first l) n).Ensures h fun q h' =>
      q = first (consume l n) ∧ Owns h' (consume l n) := by
  have hu : u16 n = n := Nat.mod_eq_of_lt (Nat.lt_of_le_of_lt hn ho.short)
  rw [pbuf_free_header, hu]
  exact ensures_freeHeader ho hn hfuel

/-- Two chains apart from each other. -/
structure Apart (h : Pbufs) (l k : Chain) : Prop where
  left : In h l
  right : In h k
  only : ∀ p, p ∉ ptrs (l ++ k) → h p = none
  nodup : (ptrs (l ++ k)).Nodup
  short : (bytes (l ++ k)).length < 2 ^ 16

theorem ensures_catFrom (hl : In h l) (hk : In h k) (hlk : (ptrs (l ++ k)).Nodup)
    (hp : first l = some p) (ht : first k = some t) (hshort : (bytes (l ++ k)).length < 2 ^ 16)
    (hfuel : l.length ≤ fuel) :
    (catFrom fuel p t).Ensures h fun _ h' => In h' (l ++ k) ∧ ∀ q, q ∉ ptrs l → h' q = h q := by
  induction l generalizing h p fuel with
  | nil => cases hp
  | cons c l ih =>
    obtain ⟨p', xs⟩ := c
    cases hp
    obtain ⟨fuel, rfl⟩ : ∃ k, fuel = k + 1 := ⟨fuel - 1, by simp at hfuel; omega⟩
    obtain ⟨hp, hin⟩ := hl
    cases k with
    | nil => cases ht
    | cons d k =>
      obtain ⟨t', ys⟩ := d
      cases ht
      rw [List.cons_append, ptrs_cons, List.nodup_cons] at hlk
      have htot : u16 ((bytes ((p', xs) :: l)).length + (bytes ((t', ys) :: k)).length) =
          (bytes ((p', xs) :: l ++ (t', ys) :: k)).length := by
        rw [u16, Nat.mod_eq_of_lt] <;> simp only [bytes_append, List.length_append] at *
        exact hshort
      refine load_bind hp (load_bind hk.1 ?_)
      cases l with
      | nil =>
        simp only [first_nil]
        refine assert_bind (by simp [Pbuf.len]) (ensures_store hp ⟨⟨?_, ?_⟩, fun q hq => ?_⟩)
        · rw [Function.update_self, htot]
          rfl
        · exact hk.update hlk.1
        · exact Function.update_of_ne (by simpa using hq) _ _
      | cons e l =>
        obtain ⟨z, zs⟩ := e
        simp only [first_cons]
        have hpl : p' ∉ ptrs ((z, zs) :: l) := fun hm => hlk.1 (by simp at hm ⊢; tauto)
        have hpk : p' ∉ ptrs ((t', ys) :: k) := fun hm => hlk.1 (by simp at hm ⊢; tauto)
        refine store_bind hp ((ih (hin.update hpl) (hk.update hpk) hlk.2 rfl ?_ ?_).mono
          fun _ h' hres => ⟨⟨?_, hres.1⟩, fun q hq => ?_⟩)
        · simp only [bytes_append, bytes_cons, List.cons_append, List.length_append] at hshort ⊢
          omega
        · simpa using hfuel
        · rw [hres.2 p' hpl, Function.update_self, htot]
          rfl
        · simp only [ptrs_cons, List.mem_cons, not_or] at hq
          rw [hres.2 q (by simp [hq]), Function.update_of_ne hq.1]

/-- A chain goes behind another one. -/
theorem ensures_cat (ha : Apart h l k) (hp : first l = some p) (ht : first k = some t)
    (hfuel : l.length ≤ fuel) : (pbuf_cat fuel p t).Ensures h fun _ h' => Owns h' (l ++ k) := by
  obtain ⟨hl, hk, honly, hnd, hshort⟩ := ha
  have hne : p ≠ t := by
    rintro rfl
    cases l with
    | nil => cases hp
    | cons c l =>
      cases k with
      | nil => cases ht
      | cons d k =>
        obtain ⟨q, ys⟩ := d
        cases ht
        cases hp
        rw [List.cons_append, ptrs_cons, List.nodup_cons] at hnd
        exact hnd.1 (by simp)
  refine assert_bind (decide_eq_true hne) ?_
  refine (ensures_catFrom hl hk hnd hp ht hshort hfuel).mono fun _ h' hres => ⟨hres.1, fun q hq => ?_, hnd, hshort⟩
  rw [hres.2 q (fun hm => hq (by simp [hm])), honly q hq]

theorem ensures_payloads (hin : In h l) (n : Nat) : (payloads n (first l)).Ensures h fun iov h' =>
    h' = h ∧ iov = (l.take n).map Prod.snd := by
  induction n generalizing l with
  | zero => exact ensures_pure ⟨rfl, by simp⟩
  | succ n ih =>
    cases l with
    | nil => exact ensures_pure ⟨rfl, by simp⟩
    | cons c l =>
      obtain ⟨p, xs⟩ := c
      refine load_bind hin.1 ((ih hin.2).seq fun iov h' hres => ?_)
      obtain ⟨rfl, rfl⟩ := hres
      exact ensures_pure ⟨rfl, by simp⟩

end XTunnel.Lwip
