import Mathlib.Algebra.Order.Ring.Nat
import Mathlib.Algebra.Ring.Int.Defs
import Mathlib.Data.Finset.Card
import XTunnel.RoundRobin
import XTunnel.Service.Slot

/-! `openBestStream`: the live channels of a snapshot, those near the fastest one, and the turn that
the counter gives to one of them. -/
namespace XTunnel.Service.Selection

open Slot (Session rttProbeTimeout)
open RoundRobin

/-- What a call finds in one slot of the pool. -/
structure Channel where
  smuxConn : Option Session
  channelRTT : Int

structure Candidate where
  idx : Nat
  rtt : Int
deriving DecidableEq

/-- The RTT that a candidate enters with: the probe timeout while none is known. -/
def Channel.rtt (ch : Channel) : Int :=
  if ch.channelRTT ≤ 0 then rttProbeTimeout else ch.channelRTT

/-- The candidates among the channels, of which the first has the index `i`. -/
def candsFrom : Nat → List Channel → List Candidate
  | _, [] => []
  | i, ch :: chs =>
    match ch.smuxConn with
    | none => candsFrom (i + 1) chs
    | some sess =>
      if sess.closed then candsFrom (i + 1) chs else ⟨i, ch.rtt⟩ :: candsFrom (i + 1) chs

/-- `cands`, from all channels of the pool. -/
def candidates (chs : List Channel) : List Candidate := candsFrom 0 chs

def minRTT : List Candidate → Int
  | [] => 0
  | c :: cs => cs.foldl (fun m c => if c.rtt < m then c.rtt else m) c.rtt

/-- Ten milliseconds. -/
def tieWindow : Int := 10000000

def near (cands : List Candidate) : List Candidate :=
  cands.filter fun c => c.rtt ≤ minRTT cands + tieWindow

/-- `int(x)` where an int has `w` bits. -/
def goInt (w : Nat) (x : UInt64) : Int := (BitVec.ofNat w x.toNat).toInt

/-- The index into the near list. The remainder has the sign of the counter. -/
def pick (w : Nat) (selectCounter : UInt64) (near : List Candidate) : Int :=
  (goInt w (selectCounter + 1 - 1)).tmod near.length

inductive Choice
  | noChannel
  | panic
  | best (c : Candidate)

def Choice.idx : Choice → Option Nat
  | .best c => some c.idx
  | .noChannel | .panic => none

/-- `openBestStream` up to its second lock: the choice and the counter after it. -/
def choose (w : Nat) (selectCounter : UInt64) (chs : List Channel) : Choice × UInt64 :=
  match candidates chs with
  | [] => (.noChannel, selectCounter)
  | cands =>
    let i := pick w selectCounter (near cands)
    if i < 0 then (.panic, selectCounter + 1)
    else
      match (near cands)[i.toNat]? with
      | none => (.panic, selectCounter + 1)
      | some best => (.best best, selectCounter + 1)

inductive Opened
  | error (msg : String)
  | panic
  | stream (chID decision : Nat)
deriving DecidableEq

/-- One call: what it finds under the second lock, and the result of `sess.OpenStream`. -/
def openBestStream (w : Nat) (selectCounter : UInt64) (chs later : List Channel)
    (openErr : Option String) : Opened × UInt64 :=
  match choose w selectCounter chs with
  | (.noChannel, n) => (.error "无可用 smux 通道", n)
  | (.panic, n) => (.panic, n)
  | (.best best, n) =>
    match later[best.idx]? with
    | none => (.panic, n)
    | some ch =>
      match ch.smuxConn with
      | none => (.error "通道不可用", n)
      | some sess =>
        if sess.closed then (.error "通道不可用", n)
        else
          match openErr with
          | some msg => (.error msg, n)
          | none => (.stream (best.idx + 1) (best.idx + 1), n)

/-- The channels that calls choose, one after the other in the order of their increments. -/
def picks (w : Nat) : UInt64 → List (List Channel) → List (Option Nat)
  | _, [] => []
  | n, chs :: snapshots => (choose w n chs).1.idx :: picks w (choose w n chs).2 snapshots

/-- A call that the process survives takes the counter from one value to the next. -/
def Call (w : Nat) (n : UInt64) (chs : List Channel) (n' : UInt64) : Prop :=
  (choose w n chs).1 ≠ .panic ∧ (choose w n chs).2 = n'

def Channel.Live (ch : Channel) : Prop := ∃ sess, ch.smuxConn = some sess ∧ sess.closed = false

/-- Channel `i` is live, and no live channel is faster by more than the window. -/
def Near (chs : List Channel) (i : Nat) : Prop :=
  ∃ ch, chs[i]? = some ch ∧ ch.Live ∧ ∀ ch' ∈ chs, ch'.Live → ch.rtt ≤ ch'.rtt + tieWindow

variable {w i k : Nat} {n : UInt64} {chs : List Channel} {c : Candidate} {cs : List Candidate}
  {snapshots : List (List Channel)} {S : Finset Nat}

theorem candsFrom_cons (i : Nat) (ch : Channel) (chs : List Channel) :
    (ch.Live ∧ candsFrom i (ch :: chs) = ⟨i, ch.rtt⟩ :: candsFrom (i + 1) chs) ∨
      (¬ ch.Live ∧ candsFrom i (ch :: chs) = candsFrom (i + 1) chs) := by
  rw [candsFrom]
  split
  · rename_i hs
    refine .inr ⟨?_, rfl⟩
    rintro ⟨sess, he, -⟩
    rw [hs] at he
    cases he
  · rename_i sess hs
    split
    · rename_i hc
      refine .inr ⟨?_, rfl⟩
      rintro ⟨sess', he, hopen⟩
      rw [hs] at he
      cases he
      rw [hc] at hopen
      cases hopen
    · rename_i hc
      exact .inl ⟨⟨sess, hs, by simpa using hc⟩, rfl⟩

theorem mem_candsFrom : c ∈ candsFrom i chs ↔
    ∃ j ch, chs[j]? = some ch ∧ ch.Live ∧ c = ⟨i + j, ch.rtt⟩ := by
  induction chs generalizing i with
  | nil => simp [candsFrom]
  | cons ch chs ih =>
    have hshift : c ∈ candsFrom (i + 1) chs ↔
        ∃ j ch', (ch :: chs)[j + 1]? = some ch' ∧ ch'.Live ∧ c = ⟨i + (j + 1), ch'.rtt⟩ := by
      rw [ih]
      refine exists_congr fun j => exists_congr fun ch' => ?_
      rw [List.getElem?_cons_succ, Nat.add_assoc, Nat.add_comm 1 j]
    constructor
    · intro hc
      rcases candsFrom_cons i ch chs with ⟨hl, he⟩ | ⟨-, he⟩
      · rw [he, List.mem_cons] at hc
        rcases hc with rfl | hc
        · exact ⟨0, ch, rfl, hl, rfl⟩
        · obtain ⟨j, ch', h⟩ := hshift.mp hc
          exact ⟨j + 1, ch', h⟩
      · rw [he] at hc
        obtain ⟨j, ch', h⟩ := hshift.mp hc
        exact ⟨j + 1, ch', h⟩
    · rintro ⟨j, ch', hj, hl, hc⟩
      cases j with
      | zero =>
        cases hj
        rcases candsFrom_cons i ch chs with ⟨-, he⟩ | ⟨hn, -⟩
        · rw [he, hc]
          exact List.mem_cons_self
        · exact absurd hl hn
      | succ j =>
        have hmem := hshift.mpr ⟨j, ch', hj, hl, hc⟩
        rcases candsFrom_cons i ch chs with ⟨-, he⟩ | ⟨-, he⟩
        · rw [he]
          exact List.mem_cons_of_mem _ hmem
        · rwa [he]

theorem le_candsFrom (h : c ∈ candsFrom i chs) : i ≤ c.idx := by
  obtain ⟨j, ch, -, -, rfl⟩ := mem_candsFrom.mp h
  exact Nat.le_add_right i j

/-- The candidates stand in the order of their indices. -/
theorem candsFrom_pairwise : (candsFrom i chs).Pairwise fun c d => c.idx < d.idx := by
  induction chs generalizing i with
  | nil => exact List.Pairwise.nil
  | cons ch chs ih =>
    rcases candsFrom_cons i ch chs with ⟨-, he⟩ | ⟨-, he⟩
    · rw [he]
      exact List.Pairwise.cons (fun c hc => le_candsFrom hc) ih
    · rw [he]
      exact ih

theorem candidates_ne_nil : candidates chs ≠ [] ↔ ∃ ch ∈ chs, ch.Live := by
  constructor
  · intro hne
    obtain ⟨c, hc⟩ := List.exists_mem_of_ne_nil _ hne
    obtain ⟨j, ch, hj, hl, -⟩ := mem_candsFrom.mp hc
    exact ⟨ch, List.mem_of_getElem? hj, hl⟩
  · rintro ⟨ch, hm, hl⟩
    obtain ⟨j, hj⟩ := List.getElem?_of_mem hm
    exact List.ne_nil_of_mem (mem_candsFrom.mpr ⟨j, ch, hj, hl, rfl⟩)

/-- The fold finds a least value among the start and the RTTs. -/
theorem foldl_min (cs : List Candidate) (m : Int) :
    (∀ c ∈ cs, cs.foldl (fun m c => if c.rtt < m then c.rtt else m) m ≤ c.rtt) ∧
      cs.foldl (fun m c => if c.rtt < m then c.rtt else m) m ≤ m ∧
      (cs.foldl (fun m c => if c.rtt < m then c.rtt else m) m = m ∨
        ∃ c ∈ cs, cs.foldl (fun m c => if c.rtt < m then c.rtt else m) m = c.rtt) := by
  induction cs generalizing m with
  | nil => exact ⟨by simp, le_refl m, .inl rfl⟩
  | cons d cs ih =>
    rw [List.foldl_cons]
    obtain ⟨hall, hle, hmem⟩ := ih (if d.rtt < m then d.rtt else m)
    have hd : (if d.rtt < m then d.rtt else m) ≤ d.rtt := by split <;> omega
    have hm : (if d.rtt < m then d.rtt else m) ≤ m := by split <;> omega
    refine ⟨?_, le_trans hle hm, ?_⟩
    · intro c hc
      rcases List.mem_cons.mp hc with rfl | hc
      · exact le_trans hle hd
      · exact hall c hc
    · rcases hmem with he | ⟨c, hc, he⟩
      · rw [he]
        split
        · exact .inr ⟨d, List.mem_cons_self, rfl⟩
        · exact .inl rfl
      · exact .inr ⟨c, List.mem_cons_of_mem d hc, he⟩

theorem minRTT_le (h : c ∈ cs) : minRTT cs ≤ c.rtt := by
  cases cs with
  | nil => cases h
  | cons d cs =>
    obtain ⟨hall, hle, -⟩ := foldl_min cs d.rtt
    rcases List.mem_cons.mp h with rfl | h
    · exact hle
    · exact hall c h

theorem minRTT_mem (h : cs ≠ []) : ∃ c ∈ cs, minRTT cs = c.rtt := by
  cases cs with
  | nil => exact absurd rfl h
  | cons d cs =>
    obtain ⟨-, -, he | ⟨c, hc, he⟩⟩ := foldl_min cs d.rtt
    · exact ⟨d, List.mem_cons_self, he⟩
    · exact ⟨c, List.mem_cons_of_mem d hc, he⟩

theorem mem_near : c ∈ near cs ↔ c ∈ cs ∧ ∀ d ∈ cs, c.rtt ≤ d.rtt + tieWindow := by
  rw [near, List.mem_filter, decide_eq_true_iff]
  refine and_congr_right fun hc => ⟨fun h d hd => ?_, fun h => ?_⟩
  · have hm := minRTT_le hd
    omega
  · obtain ⟨d, hd, he⟩ := minRTT_mem (List.ne_nil_of_mem hc)
    rw [he]
    exact h d hd

theorem near_ne_nil (h : cs ≠ []) : near cs ≠ [] := by
  obtain ⟨c, hc, he⟩ := minRTT_mem h
  refine List.ne_nil_of_mem (mem_near.mpr ⟨hc, fun d hd => ?_⟩)
  have hm := minRTT_le hd
  have hw : (0 : Int) ≤ tieWindow := by decide
  omega

theorem mem_near_candidates :
    i ∈ (near (candidates chs)).map Candidate.idx ↔ Near chs i := by
  have hlive : ∀ {c}, c ∈ candidates chs ↔
      ∃ ch, chs[c.idx]? = some ch ∧ ch.Live ∧ c.rtt = ch.rtt := by
    intro c
    refine mem_candsFrom.trans ⟨?_, ?_⟩
    · rintro ⟨j, ch, hj, hl, rfl⟩
      exact ⟨ch, by rwa [Nat.zero_add], hl, rfl⟩
    · rintro ⟨ch, hj, hl, hr⟩
      refine ⟨c.idx, ch, hj, hl, ?_⟩
      rw [Nat.zero_add, ← hr]
  rw [List.mem_map]
  constructor
  · rintro ⟨c, hc, rfl⟩
    obtain ⟨hm, hmin⟩ := mem_near.mp hc
    obtain ⟨ch, hj, hl, hr⟩ := hlive.mp hm
    refine ⟨ch, hj, hl, fun ch' hm' hl' => ?_⟩
    obtain ⟨j, hj'⟩ := List.getElem?_of_mem hm'
    rw [← hr]
    exact hmin ⟨j, ch'.rtt⟩ (hlive.mpr ⟨ch', hj', hl', rfl⟩)
  · rintro ⟨ch, hj, hl, hmin⟩
    refine ⟨⟨i, ch.rtt⟩, mem_near.mpr ⟨hlive.mpr ⟨ch, hj, hl, rfl⟩, fun d hd => ?_⟩, rfl⟩
    obtain ⟨ch', hj', hl', hr⟩ := hlive.mp hd
    rw [hr]
    exact hmin ch' (List.mem_of_getElem? hj') hl'

theorem near_pairwise :
    ((near (candidates chs)).map Candidate.idx).Pairwise (· < ·) := by
  rw [List.pairwise_map]
  exact candsFrom_pairwise.filter _

/-- The near channels determine the near list up to the RTTs in it. -/
theorem near_idx_eq {chs' : List Channel} (h : ∀ i, Near chs i ↔ Near chs' i) :
    (near (candidates chs)).map Candidate.idx = (near (candidates chs')).map Candidate.idx := by
  have hmem : ∀ i, i ∈ (near (candidates chs)).map Candidate.idx ↔
      i ∈ (near (candidates chs')).map Candidate.idx := by
    intro i
    rw [mem_near_candidates, mem_near_candidates, h]
  have hperm := (List.perm_ext_iff_of_nodup (near_pairwise.imp Nat.ne_of_lt)
    (near_pairwise.imp Nat.ne_of_lt)).mpr hmem
  exact hperm.eq_of_pairwise (fun a b _ _ hab hba => absurd hab (Nat.lt_asymm hba))
    near_pairwise near_pairwise

theorem card_near (hS : ∀ i, i ∈ S ↔ Near chs i) : S.card = (near (candidates chs)).length := by
  have hnd : ((near (candidates chs)).map Candidate.idx).Nodup := near_pairwise.imp Nat.ne_of_lt
  have he : S = ((near (candidates chs)).map Candidate.idx).toFinset := by
    ext i
    rw [List.mem_toFinset, mem_near_candidates, hS]
  rw [he, List.toFinset_card_of_nodup hnd, List.length_map]

theorem pick_eq : pick w n cs = (goInt w n).tmod cs.length := by
  rw [pick, UInt64.add_sub_cancel]

/-- The counter as an int, by its residue modulo the size of an int. -/
theorem goInt_eq : goInt w n =
    if 2 * (n.toNat % 2 ^ w) < 2 ^ w then ((n.toNat % 2 ^ w : Nat) : Int)
    else ((n.toNat % 2 ^ w : Nat) : Int) - (2 ^ w : Nat) := by
  rw [goInt, BitVec.toInt_eq_toNat_cond, BitVec.toNat_ofNat]

theorem pick_of_lt (hw : 32 ≤ w) (hn : n.toNat < 2 ^ 31) :
    pick w n cs = ((n.toNat % cs.length : Nat) : Int) := by
  have hpow : 2 ^ 32 ≤ 2 ^ w := Nat.pow_le_pow_right (by decide) hw
  have hmod : n.toNat % 2 ^ w = n.toNat := Nat.mod_eq_of_lt (by omega)
  rw [pick_eq, goInt_eq, hmod, if_pos (by omega), Int.ofNat_tmod]

theorem choose_of_lt (hw : 32 ≤ w) (hn : n.toNat < 2 ^ 31) (hne : candidates chs ≠ []) :
    ∃ best ∈ near (candidates chs), choose w n chs = (.best best, n + 1) ∧
      (near (candidates chs))[n.toNat % (near (candidates chs)).length]? = some best := by
  have hlt : n.toNat % (near (candidates chs)).length < (near (candidates chs)).length :=
    Nat.mod_lt _ (List.length_pos_of_ne_nil (near_ne_nil hne))
  have hget := List.getElem?_eq_getElem hlt
  refine ⟨_, List.getElem_mem hlt, ?_, hget⟩
  rw [choose]
  split
  · rename_i he
    exact absurd he hne
  · dsimp only
    rw [pick_of_lt hw hn, if_neg (by omega), Int.toNat_natCast, hget]

/-- Calls that keep finding the same near channels give them turns, one after the other. -/
theorem picks_eq {is : List Nat} (hw : 32 ≤ w) (hne : ∀ chs ∈ snapshots, candidates chs ≠ [])
    (his : ∀ chs ∈ snapshots, (near (candidates chs)).map Candidate.idx = is)
    (hn : n.toNat + snapshots.length ≤ 2 ^ 31) :
    picks w n snapshots = turns is n.toNat snapshots.length := by
  induction snapshots generalizing n with
  | nil => rfl
  | cons chs snapshots ih =>
    obtain ⟨hc, hne⟩ := List.forall_mem_cons.mp hne
    obtain ⟨hi, his⟩ := List.forall_mem_cons.mp his
    rw [List.length_cons] at hn
    obtain ⟨best, -, hch, hget⟩ := choose_of_lt (n := n) hw (by omega) hc
    have hsucc : (n + 1).toNat = n.toNat + 1 := by
      rw [UInt64.toNat_add, UInt64.toNat_one, Nat.mod_eq_of_lt (by omega)]
    have hidx : is[n.toNat % is.length]? = some best.idx := by
      rw [← hi, List.length_map, List.getElem?_map, hget, Option.map_some]
    have hrest := ih (n := n + 1) hne his (by omega)
    rw [picks, hch, hrest, List.length_cons, turns_succ, hsucc, hidx]
    rfl

theorem choose_near (hw : 32 ≤ w) (hn : n.toNat < 2 ^ 31) (hlive : ∃ ch ∈ chs, ch.Live) :
    ∃ i, (choose w n chs).1.idx = some i ∧ Near chs i := by
  obtain ⟨best, hmem, hch, -⟩ := choose_of_lt hw hn (candidates_ne_nil.mpr hlive)
  exact ⟨best.idx, by rw [hch]; rfl, mem_near_candidates.mp (List.mem_map_of_mem hmem)⟩

theorem picks_fair (hw : 32 ≤ w) (hS : ∀ chs ∈ snapshots, ∀ i, i ∈ S ↔ Near chs i)
    (hlen : snapshots.length = k * S.card) (hn : n.toNat + snapshots.length ≤ 2 ^ 31)
    (hi : i ∈ S) : (picks w n snapshots).count (some i) = k := by
  cases snapshots with
  | nil =>
    have hpos := Finset.card_pos.mpr ⟨i, hi⟩
    have hk : k = 0 := by
      rcases Nat.mul_eq_zero.mp hlen.symm with hk | h0
      · exact hk
      · omega
    rw [hk]
    rfl
  | cons chs snapshots =>
    obtain ⟨hchs, -⟩ := List.forall_mem_cons.mp hS
    have hne : ∀ chs' ∈ chs :: snapshots, candidates chs' ≠ [] := by
      intro chs' hm
      obtain ⟨ch, hg, hl, -⟩ := (hS chs' hm i).mp hi
      exact candidates_ne_nil.mpr ⟨ch, List.mem_of_getElem? hg, hl⟩
    have his : ∀ chs' ∈ chs :: snapshots, (near (candidates chs')).map Candidate.idx =
        (near (candidates chs)).map Candidate.idx := by
      intro chs' hm
      exact near_idx_eq fun j => (hS chs' hm j).symm.trans (hchs j)
    have hcard : S.card = ((near (candidates chs)).map Candidate.idx).length := by
      rw [card_near hchs, List.length_map]
    rw [picks_eq hw hne his hn, hlen, hcard]
    exact count_turns (near_pairwise.imp Nat.ne_of_lt) (mem_near_candidates.mpr ((hchs i).mp hi))

/-- Below `2^31` the counter picks a channel that was live and near the fastest one, and while the
near channels stay the same, each of them has its turn in every round. -/
theorem choose_near_and_fair (hw : 32 ≤ w) :
    (∀ n chs, n.toNat < 2 ^ 31 → (∃ ch ∈ chs, ch.Live) →
      ∃ i, (choose w n chs).1.idx = some i ∧ Near chs i) ∧
    ∀ n snapshots (S : Finset Nat) k, (∀ chs ∈ snapshots, ∀ i, i ∈ S ↔ Near chs i) →
      snapshots.length = k * S.card → n.toNat + snapshots.length ≤ 2 ^ 31 →
        ∀ i ∈ S, (picks w n snapshots).count (some i) = k :=
  ⟨fun _ _ hn hlive => choose_near hw hn hlive, fun _ _ _ _ hS hlen hn _ hi =>
    picks_fair hw hS hlen hn hi⟩

/-- A session that is open, for a channel with the given RTT. -/
def openChannel (rtt : Int) : Channel := ⟨some Slot.newSession, rtt⟩

theorem choose_near_and_fair_two :
    (∃ i, (choose 32 5 [openChannel 0, openChannel 3000000]).1.idx = some i ∧
      Near [openChannel 0, openChannel 3000000] i) ∧
    (picks 32 5 (List.replicate 6 [openChannel 3000000, openChannel 4000000])).count (some 1) = 3 := by
  have hlive : (openChannel 3000000).Live ∧ (openChannel 4000000).Live := by
    exact ⟨⟨_, rfl, rfl⟩, ⟨_, rfl, rfl⟩⟩
  have hnear : ∀ i, i ∈ ({0, 1} : Finset Nat) ↔ Near [openChannel 3000000, openChannel 4000000] i := by
    intro i
    rw [← mem_near_candidates]
    exact (by decide : ({0, 1} : Finset Nat) = ((near (candidates [openChannel 3000000,
      openChannel 4000000])).map Candidate.idx).toFinset) ▸ List.mem_toFinset
  obtain ⟨hone, hrun⟩ := choose_near_and_fair (w := 32) (by decide)
  refine ⟨hone 5 _ (by decide) ⟨_, List.mem_cons_of_mem _ List.mem_cons_self, hlive.1⟩, ?_⟩
  exact hrun 5 (List.replicate 6 [openChannel 3000000, openChannel 4000000]) {0, 1} 3
    (fun chs hm => List.eq_of_mem_replicate hm ▸ hnear) (by decide) (by decide) 1 (by decide)

/-- The computed index points into the near list. -/
def InRange (w : Nat) (n : UInt64) (chs : List Channel) : Prop :=
  0 ≤ pick w n (near (candidates chs)) ∧
    pick w n (near (candidates chs)) < (near (candidates chs)).length

/-- The index is in range as long as the counter, as an int, is not negative; a negative one is in
range by chance only, when the number of near channels divides it. -/
theorem inRange_iff (hlive : ∃ ch ∈ chs, ch.Live) (hS : ∀ i, i ∈ S ↔ Near chs i) :
    InRange w n chs ↔
      2 * (n.toNat % 2 ^ w) < 2 ^ w ∨ S.card ∣ 2 ^ w - n.toNat % 2 ^ w := by
  have hpos := List.length_pos_of_ne_nil (near_ne_nil (candidates_ne_nil.mpr hlive))
  have hlt : n.toNat % 2 ^ w < 2 ^ w := Nat.mod_lt _ (Nat.two_pow_pos w)
  rw [InRange, pick_eq, goInt_eq, card_near hS]
  generalize (near (candidates chs)).length = m at hpos
  generalize n.toNat % 2 ^ w = r at hlt
  generalize 2 ^ w = size at hlt
  split
  · rename_i hr
    rw [← Int.ofNat_tmod]
    have hmod : r % m < m := Nat.mod_lt _ hpos
    exact ⟨fun _ => .inl hr, fun _ => by omega⟩
  · rename_i hr
    -- the remainder has the sign of the dividend, so only zero is in range
    have hneg : ((r : Int) - size).tmod m = -(((size - r) % m : Nat) : Int) := by
      have he : (r : Int) - size = -((size - r : Nat) : Int) := by omega
      rw [he, Int.neg_tmod, ← Int.ofNat_tmod]
    rw [hneg, Nat.dvd_iff_mod_eq_zero]
    have hmod : (size - r) % m < m := Nat.mod_lt _ hpos
    constructor
    · rintro ⟨h0, -⟩
      exact .inr (by omega)
    · rintro (h | h)
      · exact absurd h hr
      · omega

theorem inRange_iff_late : InRange 32 2147483648 [openChannel 0, openChannel 0] ↔
    2 * ((2147483648 : UInt64).toNat % 2 ^ 32) < 2 ^ 32 ∨
      ({0, 1} : Finset Nat).card ∣ 2 ^ 32 - (2147483648 : UInt64).toNat % 2 ^ 32 := by
  refine inRange_iff ⟨_, List.mem_cons_self, _, rfl, rfl⟩ fun i => ?_
  rw [← mem_near_candidates]
  exact (by decide : ({0, 1} : Finset Nat) = ((near (candidates [openChannel 0,
    openChannel 0])).map Candidate.idx).toFinset) ▸ List.mem_toFinset

/-- Calls can take the counter up to `2^31`, each of them with an index in range. -/
theorem reachable_counter (hw : 32 ≤ w) (hlive : ∃ ch ∈ chs, ch.Live) (hk : k ≤ 2 ^ 31) :
    Reachable (fun n => n = 0) (Call w) (UInt64.ofNat k) := by
  induction k with
  | zero => exact ⟨0, [], rfl, .refl⟩
  | succ k ih =>
    obtain ⟨s, xs, hs, hrun⟩ := ih (by omega)
    have hn : (UInt64.ofNat k).toNat = k := by
      rw [UInt64.toNat_ofNat', Nat.mod_eq_of_lt (by omega)]
    obtain ⟨best, -, hch, -⟩ := choose_of_lt (n := UInt64.ofNat k) hw (by omega)
      (candidates_ne_nil.mpr hlive)
    refine ⟨s, xs ++ [chs], hs, hrun.stepR ⟨?_, ?_⟩⟩
    · rw [hch]
      simp
    · rw [hch, UInt64.ofNat_add]
      rfl

/-- After `2^31` calls on a phone with 32-bit ints, the index for three near channels is `-2`. -/
theorem pick_leaves_range : ¬ ∀ w, w = 32 ∨ w = 64 → ∀ n chs,
    Reachable (fun n => n = 0) (Call w) n → (∃ ch ∈ chs, ch.Live) → InRange w n chs := by
  intro h
  have hlive : ∃ ch ∈ [openChannel 0, openChannel 0, openChannel 0], ch.Live :=
    ⟨_, List.mem_cons_self, _, rfl, rfl⟩
  have hreach := reachable_counter (w := 32) (k := 2147483648) (by decide) hlive (by decide)
  have hrange := h 32 (.inl rfl) _ _ hreach hlive
  exact absurd hrange.1 (by decide)

/-- A stream is opened on a channel that was near in the snapshot and is live under the second
lock. -/
theorem openBestStream_stream {later : List Channel} {openErr : Option String} {chID decision : Nat}
    {n' : UInt64} (hw : 32 ≤ w) (hn : n.toNat < 2 ^ 31)
    (h : openBestStream w n chs later openErr = (.stream chID decision, n')) :
    ∃ i, chID = i + 1 ∧ decision = i + 1 ∧ Near chs i ∧ ∃ ch, later[i]? = some ch ∧ ch.Live := by
  have hne : candidates chs ≠ [] := by
    intro he
    rw [openBestStream, choose, he] at h
    cases h
  obtain ⟨best, hmem, hch, -⟩ := choose_of_lt hw hn hne
  rw [openBestStream, hch] at h
  dsimp only at h
  split at h
  · cases h
  · rename_i ch hget
    split at h
    · cases h
    · rename_i sess hs
      split at h
      · cases h
      · rename_i hclosed
        split at h
        · cases h
        · cases h
          refine ⟨best.idx, rfl, rfl, mem_near_candidates.mp (List.mem_map_of_mem hmem), ch, hget,
            sess, hs, ?_⟩
          simpa using hclosed

end XTunnel.Service.Selection
