import XTunnel.TaskSystem.Kernel

/-! The scheduler over whole runs: its tree is a queue by keys, and the first task of it has its turn. -/
namespace XTunnel.TaskSystem

open Code RedBlack RbTree FairQueue HevTaskSystemContext

/-- The current task and what is known of it. -/
def current (s : HevTaskSystemContext) : Option (Ptr × HevTask) :=
  s.current_task.bind fun t => (s.tasks t).map fun k => (t, k)

/-- The keys of the tasks and the queue behind `settle`. -/
def settled (s : HevTaskSystemContext) (q : Queue) (type : Option Sched) : (Ptr → SchedKey) × Queue :=
  match type, current s with
  | some .switch, some (t, k) => (key s.tasks, enqueue (t, (charged k).sched_key) (leave t q))
  | some .waitio, some (t, k) => (Function.update (key s.tasks) t (keyOf k.next_priority), leave t q)
  | some .remove, some (t, _) => (key s.tasks, leave t q)
  | _, _ => (key s.tasks, q)

/-- The tasks that have not ended behind `settle`. -/
def remaining (s : HevTaskSystemContext) (type : Option Sched) : Nat :=
  if type = some .remove then s.total_task_count - 1 else s.total_task_count

/-- The queue behind a call of the scheduler. -/
def scheduled (s : HevTaskSystemContext) (q : Queue) (type : Option Sched) (woken : List Ptr) : Queue :=
  polled (remaining s type) (settled s q type).1 (settled s q type).2 woken

/-- What an action does to the queue. -/
def effect (s : HevTaskSystemContext) (q : Queue) : Action → Queue
  | .run t =>
    match s.tasks t with
    | some k =>
      if k.state = .stopped then
        enqueue (t, keyOf k.next_priority + if s.current_task.isSome then least q else 0) q
      else q
    | none => q
  | .wakeup t => enter (key s.tasks) q t
  | .start woken => scheduled s q none woken
  | .yield type woken => scheduled s q (some type) woken
  | .poll woken => polled s.total_task_count (key s.tasks) q woken
  | _ => q

/-- The actions that end with a turn of a task. -/
def Action.Schedules : Action → Prop
  | .start _ | .yield _ _ | .poll _ => True
  | _ => False

/-- No task is given the priority of a real-time one. -/
def Action.Positive : Action → Prop
  | .set_priority _ priority => 0 < priority
  | _ => True

variable {s u : HevTaskSystemContext} {q q' : Queue} {t p : Ptr} {k : HevTask} {fuel : Nat} {woken : List Ptr}
  {type : Option Sched} {a : Action}

theorem setTask_setTask {k' : HevTask} : (s.setTask t k).setTask t k' = s.setTask t k' := by
  simp [setTask]

theorem remaining_le : remaining s type ≤ s.total_task_count := by
  rw [remaining]
  split
  · exact Nat.sub_le _ _
  · exact Nat.le_refl _

theorem key_of_ne {o : Option HevTask} (htasks : u.tasks = Function.update s.tasks t o) (hp : p ≠ t) :
    key u.tasks p = key s.tasks p := by
  rw [key, htasks, Function.update_of_ne hp]
  rfl

theorem alive_of_ne {o : Option HevTask} (htasks : u.tasks = Function.update s.tasks t o) (hp : p ≠ t)
    (ha : Alive s p) : Alive u p := by
  obtain ⟨j, hj, hst⟩ := ha
  exact ⟨j, by rw [htasks, Function.update_of_ne hp, hj], hst⟩

theorem not_alive_released {j : HevTask} (hj : released { k with state := .stopped } = some j) :
    j.state = .stopped := by
  rw [released] at hj
  split at hj
  · cases hj
  · cases hj
    rfl

/-- What the kernel does with the task that comes back. -/
theorem ensures_settle (hs : Scheduled s q) (hpc : type.isSome → s.pc = .task)
    (hfuel : levels s.total_task_count < fuel) : (settle fuel type).Ensures s fun _ u =>
      Queued u (settled s q type).2 ∧ u.total_task_count = remaining s type ∧
        (∀ p, Alive u p → p ∉ ids (settled s q type).2 → key u.tasks p = (settled s q type).1 p) ∧
        (∀ p, Alive s p → (type = some .remove → s.current_task ≠ some p) → Alive u p) ∧
        (AllPositive s → AllPositive u) := by
  cases type with
  | none => exact ensures_pure ⟨hs.queued, rfl, fun _ _ _ => rfl, fun _ h _ => h, fun h => h⟩
  | some type =>
    have hplaced := hs.placed
    rw [Placed, hpc rfl] at hplaced
    obtain ⟨t, ht, hcur⟩ := hplaced
    obtain ⟨k, hk, hrun⟩ := (hs.queued.counted.running t).mp ht
    have hcurrent : current s = some (t, k) := by rw [current, hcur, Option.bind_some, hk]; rfl
    cases type with
    | switch =>
      have hsettled : settled s q (some .switch) =
          (key s.tasks, enqueue (t, (charged k).sched_key) (leave t q)) := by
        simp only [settled, hcurrent]
      rw [hsettled]
      refine (ensures_switch hs.queued hcur hk ht hfuel).mono ?_
      rintro _ u ⟨hu, htasks, htotal⟩
      refine ⟨hu, htotal, fun p _ hp => key_of_ne htasks fun h => hp (mem_ids_enqueue.mpr (.inl h)), ?_, ?_⟩
      · intro p ha _
        by_cases hp : p = t
        · subst hp
          exact ⟨_, by rw [htasks, Function.update_self], by simp [charged, hrun]⟩
        · exact alive_of_ne htasks hp ha
      · intro hpos
        refine hpos.update htasks ?_
        rintro j ⟨⟩
        exact ⟨(hpos t k hk).next, fun _ => (hpos t k hk).next, fun h => by simp [charged, hrun] at h⟩
    | waitio =>
      have hsettled : settled s q (some .waitio) =
          (Function.update (key s.tasks) t (keyOf k.next_priority), leave t q) := by
        simp only [settled, hcurrent]
      rw [hsettled]
      refine (ensures_waitio hs.queued hcur hk hrun hfuel).mono ?_
      rintro _ u ⟨hu, htasks, htotal⟩
      refine ⟨hu, htotal, fun p _ _ => ?_, fun p ha _ => ?_, ?_⟩
      · by_cases hp : p = t
        · subst hp
          rw [key, htasks, Function.update_self]
          exact (Function.update_self p (keyOf k.next_priority) (key s.tasks)).symm
        · exact (key_of_ne htasks hp).trans (Function.update_of_ne hp (keyOf k.next_priority) (key s.tasks)).symm
      · by_cases hp : p = t
        · subst hp
          exact ⟨_, by rw [htasks, Function.update_self], by simp⟩
        · exact alive_of_ne htasks hp ha
      · intro hpos
        refine hpos.update htasks ?_
        rintro j ⟨⟩
        exact ⟨(hpos t k hk).next, (fun h => by cases h),
          fun _ => ⟨(hpos t k hk).next, Nat.le_of_lt_succ k.next_priority.isLt⟩⟩
    | remove =>
      have hsettled : settled s q (some .remove) = (key s.tasks, leave t q) := by
        simp only [settled, hcurrent]
      rw [hsettled]
      refine (ensures_exit hs.queued hcur hk hrun hfuel).mono ?_
      rintro _ u ⟨hu, htasks, htotal⟩
      refine ⟨hu, htotal, fun p ha _ => ?_, fun p ha hne => ?_, ?_⟩
      · refine key_of_ne htasks ?_
        rintro rfl
        obtain ⟨j, hj, hst⟩ := ha
        rw [htasks, Function.update_self] at hj
        exact hst (not_alive_released hj)
      · exact alive_of_ne htasks (fun h => hne rfl (h ▸ hcur)) ha
      · intro hpos
        refine hpos.update htasks fun j hj => ?_
        have hst := not_alive_released hj
        have hnext : j.next_priority = k.next_priority := by
          rw [released] at hj
          split at hj
          · cases hj
          · cases hj
            rfl
        refine ⟨hnext ▸ (hpos t k hk).next, fun h => ?_, fun h => ?_⟩
        · rw [hst] at h
          cases h
        · rw [hst] at h
          cases h

/-- A call of the scheduler ends with the turn of the first task, in the poll, or behind the last task. -/
theorem ensures_schedule (hs : Scheduled s q) (hpc : type.isSome → s.pc = .task)
    (hwoken : ∀ t ∈ woken, Alive s t ∧ (type = some .remove → s.current_task ≠ some t))
    (hfuel : levels s.total_task_count < fuel) :
    (hev_task_system_schedule fuel type woken).Ensures s fun _ u => Scheduled u (scheduled s q type woken) ∧
      (∀ t l, ids (scheduled s q type woken) = t :: l → u.pc = .task ∧ u.current_task = some t) ∧
        (AllPositive s → AllPositive u) := by
  refine Ensures.seq (ensures_settle hs hpc hfuel) ?_
  rintro _ u ⟨hu, hut, hkey, halive, hpos⟩
  refine context_bind ?_
  rw [scheduled, ← hut]
  by_cases hzero : u.total_task_count = 0
  · rw [if_pos hzero, polled, if_neg (by omega)]
    have hle := hu.counted.length_le
    have hnil : (settled s q type).2 = [] := List.length_eq_zero_iff.mp (by omega)
    refine ⟨(), _, rfl, ⟨hu.congr rfl rfl rfl rfl, rfl⟩, fun t l h => ?_, hpos⟩
    rw [hnil] at h
    cases h
  · rw [if_neg hzero]
    have hlt : levels u.total_task_count < fuel :=
      Nat.lt_of_le_of_lt (levels_mono (hut ▸ remaining_le)) hfuel
    have hwoken' : ∀ t ∈ woken, Alive u t := fun t ht => halive t (hwoken t ht).1 (hwoken t ht).2
    refine (ensures_pick hu hwoken' hkey (Nat.pos_of_ne_zero hzero) hlt).mono ?_
    rintro _ v ⟨hv, hfirst, hpos'⟩
    exact ⟨hv, hfirst, fun h => hpos' (hpos h)⟩

/-- The thread stays where it is, with more tasks in the queue. -/
theorem Placed.mono (hp : Placed s q) (hpc : s.pc ≠ .polling) (hpc' : u.pc = s.pc)
    (hcur : u.current_task = s.current_task) (hsub : ∀ p, p ∈ ids q → p ∈ ids q') : Placed u q' := by
  rw [Placed] at hp ⊢
  rw [hpc', hcur]
  cases hs : s.pc with
  | main => rwa [hs] at hp
  | task =>
    rw [hs] at hp
    obtain ⟨t, ht, hc⟩ := hp
    exact ⟨t, hsub t ht, hc⟩
  | polling => exact absurd hs hpc

/-- A new task starts behind the first one, and the call does nothing for a task that is not stopped. -/
theorem ensures_run (hs : Scheduled s q) (hpc : s.pc ≠ .polling) (hk : s.tasks t = some k)
    (hfuel : levels s.total_task_count < fuel) : (hev_task_run fuel t).Ensures s fun _ u =>
      Scheduled u (effect s q (.run t)) ∧ (u.pc = s.pc ∧ u.current_task = s.current_task) ∧
        (AllPositive s → AllPositive u) := by
  have heffect : effect s q (.run t) = if k.state = .stopped then
      enqueue (t, keyOf k.next_priority + if s.current_task.isSome then least q else 0) q else q := by
    rw [effect, hk]
  rw [heffect]
  refine load_bind hk (ensures_onlyIf (fun hstop => ?_) fun hne => ?_)
  · have ht : t ∉ ids q := by
      rw [hs.queued.counted.running, hk]
      rintro ⟨j, hj, hjr⟩
      cases hj
      rw [hstop] at hjr
      cases hjr
    have hi : ∀ k', Indexed (s.setTask t k').tasks s.running_tasks q := fun k' =>
      hs.queued.indexed.setTask hk fun h => absurd h ht
    have hlt : levels q.length < fuel := Nat.lt_of_le_of_lt (levels_mono hs.queued.counted.length_le) hfuel
    rw [if_pos hstop]
    refine modifyTask_bind hk (context_bind ?_)
    refine Ensures.seq (ensures_onlyIf (Q := fun _ u => u = s.setTask t { k with
      priority := k.next_priority
      sched_key := keyOf k.next_priority + if s.current_task.isSome then least q else 0 })
      (fun hcur => ?_) fun hcur => ?_) ?_
    · refine Ensures.bind ⟨_, _, Indexed.min_sched_key (hi _), ensures_modifyTask setTask_self ?_⟩
      rw [setTask_setTask, if_pos (show s.current_task.isSome from hcur)]
    · rw [if_neg (show ¬ s.current_task.isSome from hcur), add_zero]
    · rintro _ _ rfl
      refine Ensures.seq (ensures_insert_task (hi _) setTask_self ht hlt) ?_
      rintro _ u ⟨htasks, hrun, htotal, hcurrent, hpc', hiu⟩
      have htasks := htasks.trans (Function.update_idem _ _ _)
      refine ⟨(), _, rfl, ⟨⟨hiu, hs.queued.counted.enter hk (by simp [hstop]) htasks rfl
        (hs.queued.counted.refs t k hk) hrun ?_⟩, ?_⟩, ⟨hpc', hcurrent⟩, fun hpos => ?_⟩
      · rw [if_pos hstop]
        exact congrArg (· + 1) htotal
      · exact hs.placed.mono hpc hpc' hcurrent fun p hp => mem_ids_enqueue.mpr (.inr hp)
      · refine hpos.update htasks ?_
        rintro j ⟨⟩
        exact ⟨(hpos t k hk).next, fun _ => (hpos t k hk).next, fun h => by cases h⟩
  · rw [if_neg hne]
    exact ⟨hs, ⟨rfl, rfl⟩, fun h => h⟩

/-- A change of one task that the queue does not see. -/
theorem ensures_change {g : HevTask → HevTask} (hs : Scheduled s q) (hpc : s.pc ≠ .polling)
    (hk : s.tasks t = some k) (hkey : (g k).sched_key = k.sched_key) (hstate : (g k).state = k.state)
    (href : 0 < (g k).ref_count) :
    (modifyTask t g).Ensures s fun _ u => Scheduled u q ∧ (u.pc = s.pc ∧ u.current_task = s.current_task) ∧
      u.tasks = Function.update s.tasks t (some (g k)) :=
  ensures_modifyTask hk ⟨⟨⟨hs.queued.indexed.setTask hk fun _ => hkey,
    hs.queued.counted.same hk rfl hstate href rfl rfl⟩, hs.placed.mono hpc rfl rfl fun _ h => h⟩, ⟨rfl, rfl⟩, rfl⟩

theorem val_clamp {priority : Int} (h : 0 < priority) : 0 < (clamp priority).val := by
  rw [clamp, if_neg (by omega)]
  split
  · exact Nat.succ_pos _
  · show 0 < priority.toNat
    omega

theorem ensures_of_exec {Q : Unit → HevTaskSystemContext → Prop}
    (h : (exec (levels s.total_task_count + 1) a).Ensures s Q) : (perform a).Ensures s Q := by
  obtain ⟨r, u, hexec, hQ⟩ := h
  exact ⟨r, u, hexec, hQ⟩

/-- Every action that the program may take ends, without a fault, and does to the queue what it says. -/
theorem ensures_perform (hs : Scheduled s q) (ha : Allowed s a) : (perform a).Ensures s fun _ u =>
    Scheduled u (effect s q a) ∧
      (a.Schedules → ∀ t l, ids (effect s q a) = t :: l → u.pc = .task ∧ u.current_task = some t) ∧
      (¬ a.Schedules → u.pc = s.pc ∧ u.current_task = s.current_task) ∧
      (AllPositive s → a.Positive → AllPositive u) := by
  have hfuel := Nat.lt_succ_self (levels s.total_task_count)
  have hq := hs.queued
  refine ensures_of_exec ?_
  cases a with
  | new t =>
    obtain ⟨hpc, htask, hmem⟩ := ha
    have ht : t ∉ ids q := by
      rw [hq.counted.running, htask]
      rintro ⟨j, hj, -⟩
      cases hj
    refine ⟨(), _, rfl, ⟨⟨hq.indexed.replace ht fun _ => rfl, hq.counted.stopped ?_ rfl ?_ rfl rfl⟩,
      hs.placed.mono hpc rfl rfl fun _ h => h⟩, fun h => h.elim, fun _ => ⟨rfl, rfl⟩,
      fun hpos _ => hpos.update rfl ?_⟩
    · intro j hj
      rw [htask] at hj
      cases hj
    · rintro j ⟨⟩
      exact ⟨rfl, Nat.one_pos⟩
    · rintro j ⟨⟩
      exact ⟨by decide, (fun h => by cases h), fun h => by cases h⟩
  | ref t =>
    obtain ⟨k, hk⟩ := Option.isSome_iff_exists.mp ha.2
    refine (ensures_change hs ha.1 hk (g := fun k => { k with ref_count := k.ref_count + 1 }) rfl rfl
      (Nat.succ_pos _)).mono ?_
    rintro _ u ⟨hu, hsame, htasks⟩
    refine ⟨hu, fun h => h.elim, fun _ => hsame, fun hpos _ => hpos.update htasks ?_⟩
    rintro j ⟨⟩
    exact ⟨(hpos t k hk).next, (hpos t k hk).running, (hpos t k hk).waiting⟩
  | unref t =>
    obtain ⟨hpc, k, hk, hend⟩ := ha
    have hend' : t ∉ ids q ∨ 1 < k.ref_count := by
      refine hend.imp_left fun hstop => ?_
      rw [hq.counted.running, hk]
      rintro ⟨j, hj, hjr⟩
      cases hj
      rw [hstop] at hjr
      cases hjr
    refine (ensures_unref hq.indexed hk hend').mono ?_
    rintro _ u ⟨htasks, hrun, htotal, hcur, hpc', hi⟩
    have hpos' : AllPositive s → AllPositive u := fun hpos => hpos.update htasks fun j hj => by
      rw [released] at hj
      split at hj
      · cases hj
      · cases hj
        exact ⟨(hpos t k hk).next, (hpos t k hk).running, (hpos t k hk).waiting⟩
    refine ⟨⟨⟨hi, ?_⟩, hs.placed.mono hpc hpc' hcur fun _ h => h⟩, fun h => h.elim,
      fun _ => ⟨hpc', hcur⟩, fun hpos _ => hpos' hpos⟩
    by_cases hlast : k.ref_count - 1 = 0
    · have hstop : k.state = .stopped := hend.resolve_right (by omega)
      rw [released, if_pos hlast] at htasks
      refine hq.counted.stopped (fun j hj => ?_) htasks (fun j hj => by cases hj) hrun htotal
      rw [hk] at hj
      cases hj
      exact hstop
    · rw [released, if_neg hlast] at htasks
      exact hq.counted.same hk htasks rfl (Nat.pos_of_ne_zero hlast) hrun htotal
  | set_priority t priority =>
    obtain ⟨k, hk⟩ := Option.isSome_iff_exists.mp ha.2
    refine (ensures_change hs ha.1 hk (g := fun k => { k with next_priority := clamp priority }) rfl rfl
      (hq.counted.refs t k hk)).mono ?_
    rintro _ u ⟨hu, hsame, htasks⟩
    refine ⟨hu, fun h => h.elim, fun _ => hsame, fun hpos hpriority => hpos.update htasks ?_⟩
    rintro j ⟨⟩
    exact ⟨val_clamp hpriority, (hpos t k hk).running, (hpos t k hk).waiting⟩
  | run t =>
    obtain ⟨k, hk⟩ := Option.isSome_iff_exists.mp ha.2
    exact (ensures_run hs ha.1 hk hfuel).mono fun _ u hu =>
      ⟨hu.1, fun h => h.elim, fun _ => hu.2.1, fun hpos _ => hu.2.2 hpos⟩
  | wakeup t =>
    refine (ensures_wakeup hq ha.2 hfuel).mono ?_
    rintro _ u ⟨hu, hframe⟩
    exact ⟨⟨hu, hs.placed.mono ha.1 hframe.pc hframe.current fun _ h => mem_enter h⟩, fun h => h.elim,
      fun _ => ⟨hframe.pc, hframe.current⟩, fun hpos _ => hframe.positive hpos⟩
  | start woken =>
    have hw : ∀ t ∈ woken, Alive s t ∧ ((none : Option Sched) = some .remove → s.current_task ≠ some t) :=
      fun t ht => ⟨ha.2 t ht, fun h => by cases h⟩
    refine (ensures_schedule hs (fun h => by cases h) hw hfuel).mono ?_
    exact fun _ u hu => ⟨hu.1, fun _ => hu.2.1, fun h => (h trivial).elim, fun hpos _ => hu.2.2 hpos⟩
  | yield type woken =>
    obtain ⟨hpc, hwoken⟩ := ha
    have hw : ∀ t ∈ woken, Alive s t ∧ (some type = some .remove → s.current_task ≠ some t) := fun t ht =>
      ⟨(hwoken t ht).1, fun h => (hwoken t ht).2 (Option.some.inj h)⟩
    refine (ensures_schedule hs (fun _ => hpc) hw hfuel).mono ?_
    exact fun _ u hu => ⟨hu.1, fun _ => hu.2.1, fun h => (h trivial).elim, fun hpos _ => hu.2.2 hpos⟩
  | poll woken =>
    have hplaced := hs.placed
    rw [Placed, ha.1] at hplaced
    refine (ensures_pick (f := key s.tasks) hq ha.2 (fun _ _ _ => rfl) hplaced.2 hfuel).mono ?_
    exact fun _ u hu => ⟨hu.1, fun _ => hu.2.1, fun h => (h trivial).elim, fun hpos _ => hu.2.2 hpos⟩

/-- A step is what the action does to the queue. -/
theorem scheduled_step (hs : Scheduled s q) (h : Step s a u) : Scheduled u (effect s q a) ∧
    (a.Schedules → ∀ t l, ids (effect s q a) = t :: l → u.pc = .task ∧ u.current_task = some t) ∧
    (¬ a.Schedules → u.pc = s.pc ∧ u.current_task = s.current_task) ∧
      (AllPositive s → a.Positive → AllPositive u) := by
  obtain ⟨ha, hperform⟩ := h
  obtain ⟨r, v, hv, hres⟩ := ensures_perform hs ha
  obtain rfl : u = v := congrArg Prod.snd (Option.some.inj (hperform.symm.trans hv))
  exact hres

theorem scheduled_initial (h : Initial s) : Scheduled s [] := by
  obtain rfl := h
  refine ⟨⟨⟨⟨indexes_empty, rfl⟩, List.Pairwise.nil, (fun _ h => by cases h), fun _ h => by cases h⟩, ?_⟩, rfl⟩
  refine ⟨fun t => ⟨(fun h => by cases h), ?_⟩, (fun t k h => by cases h), rfl, [], List.nodup_nil,
    fun t => ⟨(fun h => by cases h), ?_⟩, rfl⟩
  · rintro ⟨k, hk, -⟩
    cases hk
  · rintro ⟨k, hk, -⟩
    cases hk

/-- In every run, the tree of the scheduler is the queue of the tasks that can run, ordered by their keys, and
the counts are right; every action that the program may take ends without a fault, a task is put behind those
with no larger key, and the first one has the next turn. -/
theorem tasks_scheduled (hr : Reachable Initial Step s) : ∃ q, Scheduled s q ∧
    ∀ a, Allowed s a → ∃ u, Step s a u ∧ Scheduled u (effect s q a) ∧
      (a.Schedules → ∀ t l, ids (effect s q a) = t :: l → u.pc = .task ∧ u.current_task = some t) := by
  have hpreserves : Preserves Step fun s => ∃ q, Scheduled s q := by
    rintro s a u hstep ⟨q, hs⟩
    exact ⟨effect s q a, (scheduled_step hs hstep).1⟩
  obtain ⟨q, hs⟩ := Reachable.invariant hpreserves
    (fun s hinit => ⟨[], scheduled_initial hinit⟩) hr
  refine ⟨q, hs, fun a ha => ?_⟩
  obtain ⟨r, u, hperform, hu, hfirst, -⟩ := ensures_perform hs ha
  exact ⟨u, ⟨ha, hperform⟩, hu, hfirst⟩

end XTunnel.TaskSystem
