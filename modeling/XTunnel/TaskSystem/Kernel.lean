import XTunnel.TaskSystem.Queue

/-! Every function of the scheduler does to its tree what it says of the queue. -/
namespace XTunnel.TaskSystem

open Code RedBlack RbTree FairQueue HevTaskSystemContext
open HevRBTreeCached (hev_rbtree_cached_first hev_rbtree_cached_erase insertAt)

/-- The priorities are not those of a real-time task, and a waiting task has one as its key. -/
structure Positive (k : HevTask) : Prop where
  next : 0 < k.next_priority.val
  running : k.state = .running → 0 < k.priority.val
  waiting : k.state = .waiting → 0 < k.sched_key.val ∧ k.sched_key.val ≤ HEV_TASK_PRIORITY_MAX

def AllPositive (s : HevTaskSystemContext) : Prop := ∀ t k, s.tasks t = some k → Positive k

/-- What a call leaves alone; `q` is the queue behind it. -/
structure Frame (s u : HevTaskSystemContext) (q : Queue) : Prop where
  pc : u.pc = s.pc
  current : u.current_task = s.current_task
  total : u.total_task_count = s.total_task_count
  alive : ∀ p, Alive s p → Alive u p
  others : ∀ p, p ∉ ids q → u.tasks p = s.tasks p
  positive : AllPositive s → AllPositive u

variable {s u v : HevTaskSystemContext} {q q' : Queue} {t p : Ptr} {k k' : HevTask} {fuel : Nat}
  {woken : List Ptr} {f : Ptr → SchedKey}

theorem key_of (hk : s.tasks t = some k) : key s.tasks t = k.sched_key := by
  rw [key, hk]
  rfl

theorem AllPositive.update {o : Option HevTask} (hs : AllPositive s)
    (htasks : u.tasks = Function.update s.tasks t o) (ho : ∀ j, o = some j → Positive j) : AllPositive u := by
  intro p j hj
  rw [htasks] at hj
  by_cases hp : p = t
  · subst hp
    rw [Function.update_self] at hj
    exact ho j hj
  · rw [Function.update_of_ne hp] at hj
    exact hs p j hj

theorem Frame.refl (s : HevTaskSystemContext) (q : Queue) : Frame s s q :=
  ⟨rfl, rfl, rfl, fun _ h => h, fun _ _ => rfl, fun h => h⟩

theorem Frame.trans (h : Frame s u q) (h' : Frame u v q') (hsub : ∀ p, p ∈ ids q → p ∈ ids q') :
    Frame s v q' where
  pc := h'.pc.trans h.pc
  current := h'.current.trans h.current
  total := h'.total.trans h.total
  alive p hp := h'.alive p (h.alive p hp)
  others p hp := (h'.others p hp).trans (h.others p fun hq => hp (hsub p hq))
  positive hs := h'.positive (h.positive hs)

theorem Counted.perm (hc : Counted s q) (hmem : ∀ p, p ∈ ids q' ↔ p ∈ ids q)
    (hlen : q'.length = q.length) : Counted s q' := by
  obtain ⟨hrun, hrefs, hcount, w, hw, hwait, hsum⟩ := hc
  exact ⟨fun p => (hmem p).trans (hrun p), hrefs, hcount.trans hlen.symm, w, hw, hwait, hlen ▸ hsum⟩

theorem mem_enter (hp : p ∈ ids q) : p ∈ ids (enter f q t) := by
  rw [enter]
  split
  · exact hp
  · exact mem_ids_enqueue.mpr (.inr hp)

theorem ensures_insert_task (hi : Indexed s.tasks s.running_tasks q) (hk : s.tasks t = some k) (hnew : t ∉ ids q)
    (hfuel : levels q.length < fuel) : (hev_task_system_insert_task fuel t).Ensures s fun _ u =>
      u.tasks = Function.update s.tasks t (some { k with state := .running, priority := k.next_priority }) ∧
        u.running_task_count = s.running_task_count + 1 ∧ u.total_task_count = s.total_task_count ∧
        u.current_task = s.current_task ∧ u.pc = s.pc ∧
        Indexed u.tasks u.running_tasks (enqueue (t, k.sched_key) q) := by
  refine modifyTask_bind hk ?_
  have hi' : Indexed (s.setTask t { k with state := .running, priority := k.next_priority }).tasks
      s.running_tasks q := hi.setTask hk fun _ => rfl
  refine Ensures.seq (hi'.ensures_insert setTask_self hnew hfuel) ?_
  rintro _ _ ⟨tree, rfl, htree⟩
  exact ⟨(), _, rfl, rfl, rfl, rfl, rfl, rfl, htree⟩

/-- A task that is woken up enters the queue. -/
theorem ensures_wakeup (hq : Queued s q) (ha : Alive s t) (hfuel : levels s.total_task_count < fuel) :
    (hev_task_system_wakeup_task_with_context fuel t).Ensures s fun _ u =>
      Queued u (enter (key s.tasks) q t) ∧ Frame s u (enter (key s.tasks) q t) := by
  obtain ⟨k, hk, hst⟩ := ha
  refine load_bind hk ?_
  cases hstate : k.state with
  | stopped => exact absurd hstate hst
  | running =>
    have ht : t ∈ ids q := (hq.counted.running t).mpr ⟨k, hk, hstate⟩
    rw [enter, if_pos ht]
    exact ensures_pure ⟨hq, .refl s q⟩
  | waiting =>
    have ht : t ∉ ids q := by
      rw [hq.counted.running, hk]
      rintro ⟨j, hj, hjr⟩
      cases hj
      rw [hstate] at hjr
      cases hjr
    rw [enter, if_neg ht, key_of hk]
    refine Ensures.bind ⟨_, _, hq.indexed.min_sched_key, modifyTask_bind hk ?_⟩
    have hlt : levels q.length < fuel := Nat.lt_of_le_of_lt (levels_mono hq.counted.length_le) hfuel
    refine (ensures_insert_task (hq.indexed.setTask hk fun h => absurd h ht) setTask_self ht hlt).mono ?_
    rintro _ u ⟨htasks, hrun, htotal, hcurrent, hpc, hi⟩
    have htasks := htasks.trans (Function.update_idem _ _ _)
    have hnot : k.state ≠ .running := by simp [hstate]
    have href := hq.counted.refs t k hk
    refine ⟨⟨hi, hq.counted.enter hk hnot htasks rfl href hrun ?_⟩, hpc, hcurrent, htotal, ?_, ?_, ?_⟩
    · rw [if_neg hst]
      exact htotal
    · rintro p ⟨j, hj, hjs⟩
      by_cases hp : p = t
      · subst hp
        exact ⟨_, by rw [htasks, Function.update_self], by simp⟩
      · exact ⟨j, by rw [htasks, Function.update_of_ne hp, hj], hjs⟩
    · intro p hp
      have hne : p ≠ t := fun h => hp (mem_ids_enqueue.mpr (.inl h))
      rw [htasks, Function.update_of_ne hne]
    · intro hs
      have hpos := hs t k hk
      refine hs.update htasks ?_
      rintro j ⟨⟩
      exact ⟨hpos.next, fun _ => hpos.next, fun h => by cases h⟩

/-- The tasks of a poll enter one after the other. -/
theorem ensures_io_poll (hq : Queued s q) (hwoken : ∀ t ∈ woken, Alive s t)
    (hkey : ∀ p, Alive s p → p ∉ ids q → key s.tasks p = f p) (hfuel : levels s.total_task_count < fuel) :
    (hev_task_system_io_poll fuel woken).Ensures s fun _ u =>
      Queued u (woken.foldl (enter f) q) ∧ Frame s u (woken.foldl (enter f) q) := by
  induction woken generalizing s q with
  | nil => exact ensures_pure ⟨hq, .refl s q⟩
  | cons t woken ih =>
    have ha := hwoken t List.mem_cons_self
    have henter : enter (key s.tasks) q t = enter f q t := by
      by_cases ht : t ∈ ids q
      · rw [enter, if_pos ht, enter, if_pos ht]
      · rw [enter, if_neg ht, enter, if_neg ht, hkey t ha ht]
    refine Ensures.seq (ensures_wakeup hq ha hfuel) ?_
    rw [henter]
    rintro _ u ⟨hu, hframe⟩
    refine (ih hu (fun p hp => hframe.alive p (hwoken p (List.mem_cons_of_mem _ hp))) (fun p hp hout => ?_)
      (hframe.total ▸ hfuel)).mono ?_
    · have heq := hframe.others p hout
      have hs : Alive s p := by
        obtain ⟨j, hj, hjs⟩ := hp
        exact ⟨j, heq ▸ hj, hjs⟩
      rw [key, heq]
      exact hkey p hs fun hin => hout (mem_enter hin)
    · rintro _ v ⟨hv, hframe'⟩
      refine ⟨hv, hframe.trans hframe' fun p hp => ?_⟩
      exact List.foldlRecOn (motive := fun r => p ∈ ids r) woken (enter f) hp fun r hr t _ => mem_enter hr

/-- The poll is made when there is somebody to wait for. -/
def polled (total : Nat) (f : Ptr → SchedKey) (q : Queue) (woken : List Ptr) : Queue :=
  if q.length < total then woken.foldl (enter f) q else q

/-- The first task of the queue gets its turn; without one, the poll goes on. -/
theorem ensures_pick (hq : Queued s q) (hwoken : ∀ t ∈ woken, Alive s t)
    (hkey : ∀ p, Alive s p → p ∉ ids q → key s.tasks p = f p) (htotal : 0 < s.total_task_count)
    (hfuel : levels s.total_task_count < fuel) :
    (hev_task_system_pick_current_task fuel woken).Ensures s fun _ u =>
      Scheduled u (polled s.total_task_count f q woken) ∧
        (∀ t l, ids (polled s.total_task_count f q woken) = t :: l → u.pc = .task ∧ u.current_task = some t) ∧
        (AllPositive s → AllPositive u) := by
  refine context_bind ?_
  refine Ensures.seq (ensures_onlyIf (Q := fun _ u => Queued u (polled s.total_task_count f q woken) ∧
    u.total_task_count = s.total_task_count ∧ (AllPositive s → AllPositive u))
    (fun hlt => ?_) fun hle => ?_) ?_
  · rw [hq.counted.running_count] at hlt
    rw [polled, if_pos hlt]
    exact (ensures_io_poll hq hwoken hkey hfuel).mono fun _ u h => ⟨h.1, h.2.total, h.2.positive⟩
  · rw [hq.counted.running_count] at hle
    rw [polled, if_neg hle]
    exact ⟨hq, rfl, fun h => h⟩
  generalize polled s.total_task_count f q woken = r
  rintro _ u ⟨hu, hut, hpos⟩
  refine context_bind ?_
  rw [hu.counted.running_count]
  cases r with
  | nil => exact ⟨(), _, rfl, ⟨hu.congr rfl rfl rfl rfl, rfl, hut ▸ htotal⟩, (fun t l h => by cases h), hpos⟩
  | cons e r =>
    rw [if_neg (by simp)]
    have hfirst : u.running_tasks.leftmost = some e.1 := hu.indexed.index.first
    refine Ensures.bind ⟨some e.1, u, by rw [← hfirst]; rfl, ?_⟩
    refine deref_bind ⟨(), _, rfl, ⟨hu.congr rfl rfl rfl rfl, e.1, List.mem_cons_self, rfl⟩, ?_, hpos⟩
    rintro t l ⟨⟩
    exact ⟨rfl, rfl⟩

/-! ### The current task comes back -/

/-- What a task without one more reference is. -/
def released (k : HevTask) : Option HevTask :=
  if k.ref_count - 1 = 0 then none else some { k with ref_count := k.ref_count - 1 }

theorem ensures_unref (hi : Indexed s.tasks s.running_tasks q) (hk : s.tasks t = some k)
    (hend : t ∉ ids q ∨ 1 < k.ref_count) : (hev_task_unref t).Ensures s fun _ u =>
      u.tasks = Function.update s.tasks t (released k) ∧ u.running_task_count = s.running_task_count ∧
        u.total_task_count = s.total_task_count ∧ u.current_task = s.current_task ∧ u.pc = s.pc ∧
        Indexed u.tasks u.running_tasks q := by
  refine modifyTask_bind hk (load_bind setTask_self ?_)
  have hi' : Indexed (s.setTask t { k with ref_count := k.ref_count - 1 }).tasks s.running_tasks q :=
    hi.setTask hk fun _ => rfl
  refine ensures_onlyIf (fun hzero => ?_) fun hzero => ?_
  · have ht : t ∉ ids q := hend.resolve_right (Nat.not_lt.mpr (Nat.sub_eq_zero_iff_le.mp hzero))
    rw [released, if_pos hzero]
    have hidem := Function.update_idem (a := t) (some { k with ref_count := k.ref_count - 1 }) none s.tasks
    refine ⟨(), _, rfl, hidem, rfl, rfl, rfl, rfl, ?_⟩
    exact hi'.replace ht (by simp)
  · rw [released, if_neg hzero]
    exact ⟨rfl, rfl, rfl, rfl, rfl, hi'⟩

/-- Out of the tree, with a new state. -/
theorem ensures_take_out {tasks : Ptr → Option HevTask} {g : HevTask → HevTask}
    (hi : Indexed tasks s.running_tasks q)
    (hsame : ∀ p, p ≠ t → s.tasks p = tasks p) (hk : s.tasks t = some k) (ht : t ∈ ids q)
    (hfuel : levels q.length ≤ fuel) {α : Type} {rest : Unit → M α} {R : α → HevTaskSystemContext → Prop}
    (hrest : ∀ tree, Indexed (s.setTask t (g k)).tasks tree (leave t q) →
      (rest ()).Ensures { s.setTask t (g k) with running_tasks := tree } R) :
    (modifyTask t g >>= fun _ => onTree (hev_rbtree_cached_erase fuel t) >>= rest).Ensures s R := by
  refine modifyTask_bind hk (Ensures.seq (Indexed.ensures_erase (s := s.setTask t (g k)) hi
    (fun p hp => (setTask_of_ne hp).trans (hsame p hp)) ht hfuel) ?_)
  rintro _ _ ⟨tree, rfl, htree⟩
  exact hrest tree htree

theorem ensures_update_sched_key (hcur : s.current_task = some t) (hk : s.tasks t = some k) :
    hev_task_system_update_sched_key.Ensures s fun _ u =>
      u = s.setTask t (charged k) := by
  refine context_bind ?_
  rw [hcur]
  exact deref_bind (ensures_modifyTask hk rfl)

/-- A task that yields stands behind those with no larger key. -/
theorem ensures_switch (hq : Queued s q) (hcur : s.current_task = some t) (hk : s.tasks t = some k)
    (ht : t ∈ ids q) (hfuel : levels s.total_task_count < fuel) :
    (settle fuel (some .switch)).Ensures s fun _ u =>
      Queued u (enqueue (t, (charged k).sched_key) (leave t q)) ∧
        u.tasks = Function.update s.tasks t (some { charged k with priority := k.next_priority }) ∧
        u.total_task_count = s.total_task_count := by
  have hlt : levels q.length < fuel := Nat.lt_of_le_of_lt (levels_mono hq.counted.length_le) hfuel
  have hlen := length_leave hq.indexed.nodup ht
  refine Ensures.seq (ensures_update_sched_key hcur hk) ?_
  rintro _ _ rfl
  refine context_bind ?_
  rw [show (s.setTask t _).current_task = some t from hcur]
  refine deref_bind (ensures_take_out (s := s.setTask t (charged k)) hq.indexed (fun p hp => setTask_of_ne hp)
    setTask_self ht hlt.le ?_)
  intro tree htree
  have hnew : t ∉ ids (leave t q) := fun h => (mem_ids_leave.mp h).2 rfl
  have hlt' : levels (leave t q).length < fuel := Nat.lt_of_le_of_lt (levels_mono (by omega)) hlt
  refine (Indexed.ensures_insert (s := { (s.setTask t _).setTask t _ with running_tasks := tree }) htree
    setTask_self hnew hlt').mono ?_
  rintro _ _ ⟨tree', rfl, hi⟩
  have htasks := Function.update_idem (a := t)
    (some (charged k))
    (some { charged k with priority := k.next_priority }) s.tasks
  refine ⟨⟨hi, ?_⟩, htasks, rfl⟩
  refine Counted.perm (Counted.same (u := { (s.setTask t (charged k)).setTask t { charged k with
      priority := k.next_priority } with running_tasks := tree' }) hq.counted hk htasks rfl
    (hq.counted.refs t k hk) rfl rfl) (fun p => ?_) (by simpa using hlen)
  rw [mem_ids_enqueue, mem_ids_leave]
  refine ⟨fun h => h.elim (fun h => h ▸ ht) And.left, fun h => ?_⟩
  by_cases hp : p = t
  · exact .inl hp
  · exact .inr ⟨h, hp⟩

/-- A task that waits leaves the queue; its key is its priority. -/
theorem ensures_waitio (hq : Queued s q) (hcur : s.current_task = some t) (hk : s.tasks t = some k)
    (hrun : k.state = .running) (hfuel : levels s.total_task_count < fuel) :
    (settle fuel (some .waitio)).Ensures s fun _ u => Queued u (leave t q) ∧
        u.tasks = Function.update s.tasks t (some { k with
          sched_key := keyOf k.next_priority, state := .waiting }) ∧
        u.total_task_count = s.total_task_count := by
  have hlt : levels q.length < fuel := Nat.lt_of_le_of_lt (levels_mono hq.counted.length_le) hfuel
  have ht : t ∈ ids q := (hq.counted.running t).mpr ⟨k, hk, hrun⟩
  refine Ensures.seq (ensures_update_sched_key hcur hk) ?_
  rintro _ _ rfl
  refine context_bind ?_
  rw [show (s.setTask t _).current_task = some t from hcur]
  refine deref_bind (ensures_take_out (s := s.setTask t (charged k)) hq.indexed (fun p hp => setTask_of_ne hp)
    setTask_self ht hlt.le ?_)
  intro tree htree
  refine modify_bind ?_
  rw [if_neg (by decide)]
  refine ensures_modifyTask setTask_self ?_
  have hnew : t ∉ ids (leave t q) := fun h => (mem_ids_leave.mp h).2 rfl
  have hi : Indexed (((s.setTask t (charged k)).setTask t { charged k with state := .waiting }).setTask t
      { k with sched_key := keyOf k.next_priority, state := .waiting }).tasks tree (leave t q) :=
    Indexed.setTask (s := { (s.setTask t _).setTask t _ with running_tasks := tree }) htree setTask_self
      fun h => absurd h hnew
  have htasks : Function.update (Function.update (Function.update s.tasks t (some (charged k))) t
      (some { charged k with state := .waiting })) t
      (some { k with sched_key := keyOf k.next_priority, state := .waiting }) =
      Function.update s.tasks t (some { k with sched_key := keyOf k.next_priority, state := .waiting }) := by
    rw [Function.update_idem, Function.update_idem]
  refine ⟨⟨hi, hq.counted.leave hq.indexed.nodup hk hrun htasks ?_ rfl ?_⟩, htasks, rfl⟩
  · rintro j ⟨⟩
    exact ⟨hq.counted.refs t k hk, by simp⟩
  · exact .inl ⟨⟨_, rfl, rfl⟩, rfl⟩

/-- A task that ends leaves the queue, and the scheduler gives up its reference. -/
theorem ensures_exit (hq : Queued s q) (hcur : s.current_task = some t) (hk : s.tasks t = some k)
    (hrun : k.state = .running) (hfuel : levels s.total_task_count < fuel) :
    (settle fuel (some .remove)).Ensures s fun _ u => Queued u (leave t q) ∧
        u.tasks = Function.update s.tasks t (released { k with state := .stopped }) ∧
        u.total_task_count = s.total_task_count - 1 := by
  have hlt : levels q.length < fuel := Nat.lt_of_le_of_lt (levels_mono hq.counted.length_le) hfuel
  have ht : t ∈ ids q := (hq.counted.running t).mpr ⟨k, hk, hrun⟩
  refine context_bind ?_
  rw [hcur]
  refine deref_bind (ensures_take_out hq.indexed (fun p hp => rfl) hk ht hlt.le ?_)
  intro tree htree
  refine modify_bind ?_
  rw [if_pos rfl]
  refine modify_bind ?_
  have hnew : t ∉ ids (leave t q) := fun h => (mem_ids_leave.mp h).2 rfl
  refine (ensures_unref (s := { s.setTask t { k with state := .stopped } with
    running_tasks := tree
    running_task_count := s.running_task_count - 1
    total_task_count := s.total_task_count - 1 }) htree setTask_self (.inl hnew)).mono ?_
  rintro _ u ⟨htasks, hcount, htotal, -, -, hi⟩
  have htasks := htasks.trans (Function.update_idem _ _ _)
  refine ⟨⟨hi, hq.counted.leave hq.indexed.nodup hk hrun htasks ?_ hcount ?_⟩, htasks, htotal⟩
  · intro j hj
    rw [released] at hj
    split at hj
    · cases hj
    next hne =>
      cases hj
      exact ⟨Nat.pos_of_ne_zero hne, by simp⟩
  · refine .inr ⟨fun j hj => ?_, htotal⟩
    rw [released] at hj
    split at hj
    · cases hj
    · cases hj
      rfl

end XTunnel.TaskSystem
