import XTunnel.Transition

/-! `session_set` of the tunnel, and the limit that `max-session-count` puts on it. -/
namespace XTunnel.SessionSet

/-- A session of the list. One that was told to terminate stays until its task has ended. -/
structure Session where
  id : Nat
  terminated : Bool
deriving DecidableEq

/-- A call of `hev_socks5_session_terminate` by an insertion, and the length of the list then. -/
structure Termination where
  victim : Nat
  inserted : Nat
  size : Nat

/-- `log` is the history of the terminations. -/
structure State where
  session_set : List Session
  session_count : Nat
  log : List Termination

def initial : State := { session_set := [], session_count := 0, log := [] }

def hev_list_del (l : List Session) (id : Nat) : List Session := l.eraseP fun x => x.id = id

def hev_list_add_tail (l : List Session) (x : Session) : List Session := l ++ [x]

def hev_socks5_tunnel_insert_session (max_session_count : Nat) (s : State) (id : Nat) : State :=
  let session_set := hev_list_add_tail s.session_set ⟨id, false⟩
  let session_count := s.session_count + 1
  if max_session_count = 0 ∨ session_count < max_session_count then
    { s with session_set := session_set, session_count := session_count }
  else
    match session_set with
    | [] => { s with session_set := session_set, session_count := session_count }
    | first :: rest =>
      { session_set := { first with terminated := true } :: rest
        session_count := session_count
        log := ⟨first.id, id, rest.length + 1⟩ :: s.log }

def hev_socks5_tunnel_delete_session (s : State) (id : Nat) : State :=
  { s with session_set := hev_list_del s.session_set id, session_count := s.session_count - 1 }

def hev_socks5_tunnel_update_session (max_session_count : Nat) (s : State) (x : Session) : State :=
  if max_session_count = 0 then s
  else { s with session_set := hev_list_add_tail (hev_list_del s.session_set x.id) x }

inductive Action
  | insert (id : Nat)
  | update (id : Nat)
  | delete (id : Nat)

/-- Sessions come, move data and end in any order. -/
inductive Step (max : Nat) : State → Action → State → Prop
  | insert {s : State} {id : Nat} :
      (∀ x ∈ s.session_set, x.id ≠ id) →
      Step max s (.insert id) (hev_socks5_tunnel_insert_session max s id)
  | update {s : State} {x : Session} :
      x ∈ s.session_set →
      Step max s (.update x.id) (hev_socks5_tunnel_update_session max s x)
  | delete {s : State} {x : Session} :
      x ∈ s.session_set → Step max s (.delete x.id) (hev_socks5_tunnel_delete_session s x.id)

variable {max : Nat} {s t s₀ : State} {a : Action} {xs : List Action} {x : Session}
  {l : List Session} {id : Nat}

/-- The sessions that were not told to terminate. -/
def State.live (s : State) : List Session := s.session_set.filter fun x => !x.terminated

/-- The count is the length of the list. -/
def State.Counted (s : State) : Prop := s.session_count = s.session_set.length

/-- What `max-session-count` promises, of the list and of every termination so far. -/
structure LimitLaw (max : Nat) (s : State) : Prop where
  live : s.live.length ≤ max
  count : s.Counted
  needed : ∀ e ∈ s.log, max < e.size
  spared : ∀ e ∈ s.log, e.victim ≠ e.inserted

/-- An insertion leaves the list below the limit. -/
def Room (max : Nat) (s : State) : Action → Prop
  | .insert _ => s.session_count + 1 < max
  | _ => True

instance (max : Nat) (s : State) : ∀ a, Decidable (Room max s a)
  | .insert _ => inferInstanceAs (Decidable (s.session_count + 1 < max))
  | .update _ | .delete _ => isTrue trivial

theorem length_del (h : x ∈ l) : (hev_list_del l x.id).length = l.length - 1 :=
  List.length_eraseP_of_mem h (by simp)

theorem insert_room (h : max = 0 ∨ s.session_count + 1 < max) :
    hev_socks5_tunnel_insert_session max s id = { s with
      session_set := s.session_set ++ [⟨id, false⟩]
      session_count := s.session_count + 1 } :=
  if_pos h

/-- At the limit, the first session of the list is told to terminate. -/
theorem insert_full (id : Nat) (h0 : max ≠ 0) (h : max ≤ s.session_count + 1) :
    ∃ first rest, s.session_set ++ [⟨id, false⟩] = first :: rest ∧
      hev_socks5_tunnel_insert_session max s id =
        { session_set := { first with terminated := true } :: rest
          session_count := s.session_count + 1
          log := ⟨first.id, id, rest.length + 1⟩ :: s.log } := by
  have hfull : ¬ (max = 0 ∨ s.session_count + 1 < max) := by omega
  obtain ⟨first, rest, hl⟩ := List.exists_cons_of_ne_nil
    (show s.session_set ++ [⟨id, false⟩] ≠ [] by simp)
  refine ⟨first, rest, hl, ?_⟩
  simp only [hev_socks5_tunnel_insert_session, hev_list_add_tail, if_neg hfull, hl]

theorem count_step (h : Step max s a t) (hs : s.Counted) : t.Counted := by
  unfold State.Counted at *
  cases h with
  | @insert id hnew =>
    by_cases hroom : max = 0 ∨ s.session_count + 1 < max
    · rw [insert_room hroom]
      simp only [List.length_append, List.length_singleton, hs]
    · have hmax : max ≠ 0 := by omega
      obtain ⟨first, rest, hl, he⟩ := insert_full id hmax (show max ≤ s.session_count + 1 by omega)
      have hlen := congrArg List.length hl
      simp only [List.length_append, List.length_cons, List.length_nil] at hlen
      rw [he]
      simp only [List.length_cons]
      omega
  | update hx =>
    have hpos := List.length_pos_of_mem hx
    simp only [hev_socks5_tunnel_update_session]
    split
    · exact hs
    · simp only [hev_list_add_tail, List.length_append, List.length_singleton, length_del hx]
      omega
  | delete hx =>
    simp only [hev_socks5_tunnel_delete_session, length_del hx, hs]

/-- Whatever the limit is and whether it is kept. -/
theorem count_run (h : Run (Step max) initial xs s) : s.Counted :=
  h.invariant (fun _ _ _ => count_step) rfl

theorem log_step (h : Step max s a t) : s.log ⊆ t.log := by
  cases h with
  | insert hnew =>
    intro e he
    simp only [hev_socks5_tunnel_insert_session]
    split
    · exact he
    · split
      · exact he
      · exact List.mem_cons_of_mem _ he
  | update hx =>
    simp only [hev_socks5_tunnel_update_session]
    split <;> exact fun _ he => he
  | delete hx => exact fun _ he => he

/-- A termination that was not needed stays in the log. -/
theorem unneeded_step :
    Preserves (Step max) fun s => ∃ e ∈ s.log, e.size = max := by
  rintro s a t h ⟨e, he, hsize⟩
  exact ⟨e, log_step h he, hsize⟩

/-- The list stays below the limit and nobody was told to terminate. -/
structure Below (max : Nat) (s : State) : Prop where
  count : s.Counted
  below : s.session_set.length < max
  log : s.log = []

theorem below_step (h : Guarded (Step max) (Room max) s a t) (hs : Below max s) : Below max t := by
  obtain ⟨hroom, h⟩ := h
  have hcount := count_step h hs.count
  have hlt := hs.below
  cases h with
  | insert hnew =>
    rw [insert_room (.inr hroom)] at hcount ⊢
    refine ⟨hcount, ?_, hs.log⟩
    exact lt_of_eq_of_lt hcount.symm hroom
  | @update x hx =>
    have hpos := List.length_pos_of_mem hx
    refine ⟨hcount, ?_, ?_⟩
    · simp only [hev_socks5_tunnel_update_session, hev_list_add_tail]
      split
      · exact hlt
      · simp only [List.length_append, List.length_singleton, length_del hx]
        omega
    · simp only [hev_socks5_tunnel_update_session]
      split <;> exact hs.log
  | delete hx =>
    refine ⟨hcount, ?_, hs.log⟩
    simp only [hev_socks5_tunnel_delete_session, length_del hx]
    omega

theorem below_law (h : Below max s) : LimitLaw max s := by
  refine ⟨?_, h.count, fun e he => ?_, fun e he => ?_⟩
  · exact Nat.le_trans (List.length_filter_le _ _) (Nat.le_of_lt h.below)
  · rw [h.log] at he
    cases he
  · rw [h.log] at he
    cases he

/-- The insertion that reaches the limit tells a session to terminate that need not. -/
theorem unneeded_of_full (h : Step max s a t) (hs : Below max s) (hfull : ¬ Room max s a) :
    ∃ e ∈ t.log, e.size = max := by
  have hlt := hs.below
  have hcount : s.session_count = s.session_set.length := hs.count
  cases h with
  | @insert id hnew =>
    simp only [Room] at hfull
    have hmax : max ≠ 0 := by omega
    obtain ⟨first, rest, hl, he⟩ := insert_full id hmax (show max ≤ s.session_count + 1 by omega)
    have hlen := congrArg List.length hl
    simp only [List.length_append, List.length_cons, List.length_nil] at hlen
    rw [he]
    exact ⟨_, List.mem_cons_self, by show rest.length + 1 = max; omega⟩
  | update | delete => exact (hfull trivial).elim

/-- A run leaves room at every insertion, or some termination in it was not needed. -/
theorem room_or_unneeded (h : Run (Step max) s₀ xs s) (hs : Below max s₀) :
    Run (Guarded (Step max) (Room max)) s₀ xs s ∨ ∃ e ∈ s.log, e.size = max := by
  refine Run.guarded_or_marked (fun s a t hstep hs => ?_) unneeded_step h hs
  by_cases hroom : Room max s a
  · exact .inl ⟨hroom, below_step ⟨hroom, hstep⟩ hs⟩
  · exact .inr (unneeded_of_full hstep hs hroom)

/-- The limit is kept in exactly the runs that never reach it. -/
theorem session_limit (hmax : 1 ≤ max) (h : Run (Step max) initial xs s) :
    LimitLaw max s ↔ Run (Guarded (Step max) (Room max)) initial xs s := by
  have hinit : Below max initial := ⟨rfl, hmax, rfl⟩
  constructor
  · intro hlaw
    rcases room_or_unneeded h hinit with hr | ⟨e, he, hsize⟩
    · exact hr
    · have hlt := hlaw.needed e he
      omega
  · intro hr
    exact below_law (hr.invariant (fun _ _ _ => below_step) hinit)

/-- Two sessions at a time, with a limit of three. -/
theorem session_limit_three : ∃ s,
    Run (Step 3) initial [.insert 0, .insert 1, .update 0, .delete 1, .insert 2] s ∧
    s.session_set = [⟨0, false⟩, ⟨2, false⟩] ∧ LimitLaw 3 s := by
  have hrun : Run (Step 3) initial [.insert 0, .insert 1, .update 0, .delete 1, .insert 2]
      ⟨[⟨0, false⟩, ⟨2, false⟩], 2, []⟩ :=
    .stepL (.insert (by decide)) <| .stepL (.insert (by decide)) <|
      .stepL (.update (x := ⟨0, false⟩) (by decide)) <|
      .stepL (.delete (x := ⟨1, false⟩) (by decide)) <| .single (.insert (by decide))
  refine ⟨_, hrun, rfl, (session_limit (by decide) hrun).mpr ?_⟩
  exact .stepL ⟨by decide, .insert (by decide)⟩ <| .stepL ⟨by decide, .insert (by decide)⟩ <|
    .stepL ⟨trivial, .update (x := ⟨0, false⟩) (by decide)⟩ <|
    .stepL ⟨trivial, .delete (x := ⟨1, false⟩) (by decide)⟩ <|
    .single ⟨by decide, .insert (by decide)⟩

/-- With a limit of one, the first session is told to terminate as it comes. With a limit of two and
four sessions in a row, three go on. -/
theorem session_limit_burst :
    (∃ s, Run (Step 1) initial [.insert 0] s ∧ s.session_set = [⟨0, true⟩] ∧ ¬ LimitLaw 1 s) ∧
    ∃ s, Run (Step 2) initial [.insert 0, .insert 1, .insert 2, .insert 3] s ∧
      s.live.length = 3 ∧ ¬ LimitLaw 2 s := by
  refine ⟨⟨⟨[⟨0, true⟩], 1, [⟨0, 0, 1⟩]⟩, .single (.insert (by decide)), rfl, fun h => ?_⟩,
    ⟨⟨[⟨0, true⟩, ⟨1, false⟩, ⟨2, false⟩, ⟨3, false⟩], 4, [⟨0, 3, 4⟩, ⟨0, 2, 3⟩, ⟨0, 1, 2⟩]⟩,
      .stepL (.insert (by decide)) <| .stepL (.insert (by decide)) <|
        .stepL (.insert (by decide)) <| .single (.insert (by decide)), rfl, fun h => ?_⟩⟩
  · exact h.spared _ List.mem_cons_self rfl
  · exact absurd h.live (by decide)

end XTunnel.SessionSet
