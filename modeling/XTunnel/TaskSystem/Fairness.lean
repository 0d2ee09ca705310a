import XTunnel.TaskSystem.Runs

/-! Without real-time tasks, a task that can run has a turn after boundedly many turns of the others. -/
namespace XTunnel.TaskSystem

open RbTree FairQueue HevTaskSystemContext

/-- A step that gives no task the priority of a real-time one. -/
abbrev NormalStep : HevTaskSystemContext → Action → HevTaskSystemContext → Prop :=
  Guarded Step fun _ a => a.Positive

/-- A turn of the current task ends. -/
def Action.isTurn : Action → Bool
  | .yield _ _ => true
  | _ => false

/-- The first task of the queue has its turn, and `e` is behind it. -/
structure Waiting (n : Nat) (s : HevTaskSystemContext) (q : Queue) (e : Ptr × SchedKey) : Prop where
  scheduled : Scheduled s q
  positive : AllPositive s
  pc : s.pc = .task
  front : ∃ c r, q = c :: r ∧ s.current_task = some c.1 ∧ e ∈ r
  total : s.total_task_count ≤ n

/-- The turns that can come before that of `e`. -/
def turnsLeft (n : Nat) (e : Ptr × SchedKey) (q : Queue) : Nat := debt Fin.val n e.2.val q

variable {n : Nat} {s u : HevTaskSystemContext} {t p : Ptr} {q q' r : Queue} {e c g : Ptr × SchedKey}
  {d x : SchedKey} {k : HevTask} {a : Action} {xs : List Action} {woken : List Ptr} {f : Ptr → SchedKey}

/-- Without an overflow, a priority makes a key larger. -/
theorem lt_add_key (hd : 0 < d.val) (hle : d.val ≤ HEV_TASK_PRIORITY_MAX)
    (hx : x.val + HEV_TASK_PRIORITY_MAX < 2 ^ 64) : x < d + x := by
  rw [Fin.lt_def, Fin.val_add, Nat.mod_eq_of_lt (by omega)]
  omega

theorem priority_le (p : Priority) : p.val ≤ HEV_TASK_PRIORITY_MAX := Nat.le_of_lt_succ p.isLt

theorem head_le (hs : FairQueue.Sorted (c :: r)) (he : e ∈ c :: r) : c.2 ≤ e.2 := by
  rcases List.mem_cons.mp he with rfl | he
  · exact le_rfl
  · exact (List.pairwise_cons.mp hs).1 e he

/-- A task that is woken up has its priority as its key. -/
theorem Waiting.key_pos (hw : Waiting n s q e) (ha : Alive s p) (hp : p ∉ ids q) :
    0 < (key s.tasks p).val ∧ (key s.tasks p).val ≤ HEV_TASK_PRIORITY_MAX := by
  obtain ⟨k, hk, hst⟩ := ha
  rw [key_of hk]
  refine (hw.positive p k hk).waiting ?_
  cases hstate : k.state with
  | stopped => exact absurd hstate hst
  | running => exact absurd ((hw.scheduled.queued.counted.running p).mpr ⟨k, hk, hstate⟩) hp
  | waiting => rfl

/-- Behind a turn, those of the poll come in behind the new first task. -/
theorem polled_front {m : Nat} (he : e ∈ g :: r) (hs : FairQueue.Sorted (g :: r))
    (hx : e.2.val + HEV_TASK_PRIORITY_MAX < 2 ^ 64)
    (hf : ∀ t ∈ woken, t ∉ ids (g :: r) → 0 < (f t).val ∧ (f t).val ≤ HEV_TASK_PRIORITY_MAX) :
    ∃ r', polled m f (g :: r) woken = g :: r' ∧ turnsLeft n e (g :: r') = turnsLeft n e (g :: r) ∧
      e ∈ g :: r' := by
  have hge : g.2.val ≤ e.2.val := head_le hs he
  rw [polled]
  split
  · have hgx : g.2.val + HEV_TASK_PRIORITY_MAX < 2 ^ 64 := by omega
    obtain ⟨r', heq, hdebt, hsub⟩ : ∃ r', woken.foldl (enter f) (g :: r) = g :: r' ∧
        turnsLeft n e (g :: r') = turnsLeft n e (g :: r) ∧ ∀ a ∈ r, a ∈ r' :=
      enter_all fun t ht hout => lt_add_key (hf t ht hout).1 (hf t ht hout).2 hgx
    refine ⟨r', heq, hdebt, ?_⟩
    rcases List.mem_cons.mp he with heg | he
    · exact List.mem_cons.mpr (.inl heg)
    · exact List.mem_cons_of_mem _ (hsub e he)
  · exact ⟨r, rfl, rfl, he⟩

/-- A turn brings the task nearer to its own. -/
theorem settled_front {type : Sched} (hw : Waiting n s q e) (hx : e.2.val + HEV_TASK_PRIORITY_MAX < 2 ^ 64)
    (hwoken : ∀ t ∈ woken, Alive s t ∧ (type = .remove → s.current_task ≠ some t)) :
    e ∈ (settled s q (some type)).2 ∧ FairQueue.Sorted (settled s q (some type)).2 ∧
      turnsLeft n e (settled s q (some type)).2 < turnsLeft n e q ∧
      ∀ t ∈ woken, t ∉ ids (settled s q (some type)).2 →
        0 < ((settled s q (some type)).1 t).val ∧
          ((settled s q (some type)).1 t).val ≤ HEV_TASK_PRIORITY_MAX := by
  obtain ⟨c, r, rfl, hcur, he⟩ := hw.front
  have hq := hw.scheduled.queued
  have hsorted := hq.indexed.sorted
  obtain ⟨k, hk, hrun⟩ := (hq.counted.running c.1).mp List.mem_cons_self
  have hcurrent : current s = some (c.1, k) := by
    rw [current, hcur, Option.bind_some, hk]
    rfl
  have hkey : k.sched_key = c.2 := (key_of hk).symm.trans (hq.indexed.key_eq List.mem_cons_self)
  have hlen : r.length + 1 ≤ n := Nat.le_trans hq.counted.length_le hw.total
  have hleave : leave c.1 (c :: r) = r := leave_cons hq.indexed.nodup
  have hce : c.2.val ≤ e.2.val := head_le hsorted (List.mem_cons_of_mem _ he)
  have htail : FairQueue.Sorted r := (List.pairwise_cons.mp hsorted).2
  have hdebt : turnsLeft n e r < turnsLeft n e (c :: r) :=
    debt_leave Fin.val_strictMono hsorted he le_rfl (Nat.le_of_succ_le hlen)
  -- who was not in the queue before is not the current task
  have hout : ∀ t ∈ woken, t ∉ ids r → t ≠ c.1 →
      0 < (key s.tasks t).val ∧ (key s.tasks t).val ≤ HEV_TASK_PRIORITY_MAX := fun t ht hr hne =>
    hw.key_pos (hwoken t ht).1 fun hin => (List.mem_cons.mp hin).elim hne hr
  cases type with
  | switch =>
    have hsettled : settled s (c :: r) (some .switch) =
        (key s.tasks, enqueue (c.1, (charged k).sched_key) r) := by
      simp only [settled, hcurrent, hleave]
    have hlt : c.2 < (charged k).sched_key := by
      have hadd : (charged k).sched_key = keyOf k.priority + c.2 := by
        rw [charged, hkey, runtime, Fin.one_mul, add_comm]
      rw [hadd]
      exact lt_add_key ((hw.positive c.1 k hk).running hrun) (priority_le k.priority) (by omega)
    rw [hsettled]
    refine ⟨mem_enqueue.mpr (.inr he), htail.enqueue,
      debt_again Fin.val_strictMono hsorted hlt he le_rfl hlen, ?_⟩
    intro t ht hin
    rw [mem_ids_enqueue, not_or] at hin
    exact hout t ht hin.2 hin.1
  | waitio =>
    have hsettled : settled s (c :: r) (some .waitio) =
        (Function.update (key s.tasks) c.1 (keyOf k.next_priority), r) := by
      simp only [settled, hcurrent, hleave]
    rw [hsettled]
    refine ⟨he, htail, hdebt, fun t ht hin => ?_⟩
    show 0 < (Function.update (key s.tasks) c.1 (keyOf k.next_priority) t).val ∧
      (Function.update (key s.tasks) c.1 (keyOf k.next_priority) t).val ≤ _
    by_cases htc : t = c.1
    · rw [htc, Function.update_self]
      exact ⟨(hw.positive c.1 k hk).next, priority_le k.next_priority⟩
    · rw [Function.update_of_ne htc]
      exact hout t ht hin htc
  | remove =>
    have hsettled : settled s (c :: r) (some .remove) = (key s.tasks, r) := by
      simp only [settled, hcurrent, hleave]
    rw [hsettled]
    refine ⟨he, htail, hdebt, fun t ht hin => hout t ht hin fun htc => ?_⟩
    exact (hwoken t ht).2 rfl (htc ▸ hcur)

/-- What one action does to the queue in front of a task. -/
theorem effect_front (hw : Waiting n s q e) (hx : e.2.val + HEV_TASK_PRIORITY_MAX < 2 ^ 64) (ha : Allowed s a) :
    ∃ c r, effect s q a = c :: r ∧ e ∈ c :: r ∧ (¬ a.Schedules → s.current_task = some c.1) ∧
      turnsLeft n e (effect s q a) + a.isTurn.toNat ≤ turnsLeft n e q := by
  have hq := hw.scheduled.queued
  have hpc := hw.pc
  obtain ⟨c, r, hqcr, hcur, he⟩ := hw.front
  have hsame : ∃ c r, q = c :: r ∧ e ∈ c :: r ∧ (True → s.current_task = some c.1) ∧
      turnsLeft n e q + 0 ≤ turnsLeft n e q :=
    ⟨c, r, hqcr, List.mem_cons_of_mem _ he, fun _ => hcur, Nat.le_refl _⟩
  have hce : c.2.val ≤ e.2.val := head_le (hqcr ▸ hq.indexed.sorted) (List.mem_cons_of_mem _ he)
  -- a task that enters is behind the first one
  have henter : ∀ {t : Ptr} {d : SchedKey}, 0 < d.val → d.val ≤ HEV_TASK_PRIORITY_MAX →
      ∃ c r, enqueue (t, d + least q) q = c :: r ∧ e ∈ c :: r ∧ (True → s.current_task = some c.1) ∧
        turnsLeft n e (enqueue (t, d + least q) q) + 0 ≤ turnsLeft n e q := by
    intro t d hd hle
    subst hqcr
    have hlt : c.2 < d + c.2 := lt_add_key hd hle (by omega)
    refine ⟨c, enqueue (t, d + c.2) r, enqueue_cons (e := (t, d + c.2)) hlt.le,
      List.mem_cons_of_mem _ (mem_enqueue.mpr (.inr he)), fun _ => hcur, ?_⟩
    exact (debt_enqueue (e := (t, d + c.2)) hlt).le
  cases a with
  | new t => simpa [effect, Action.Schedules, Action.isTurn] using hsame
  | ref t => simpa [effect, Action.Schedules, Action.isTurn] using hsame
  | unref t => simpa [effect, Action.Schedules, Action.isTurn] using hsame
  | set_priority t priority => simpa [effect, Action.Schedules, Action.isTurn] using hsame
  | run t =>
    obtain ⟨k, hk⟩ := Option.isSome_iff_exists.mp ha.2
    by_cases hstop : k.state = .stopped
    · have hpos := henter (t := t) (d := keyOf k.next_priority) (hw.positive t k hk).next
        (priority_le k.next_priority)
      simpa [effect, hk, hstop, hcur, Action.Schedules, Action.isTurn] using hpos
    · simpa [effect, hk, hstop, Action.Schedules, Action.isTurn] using hsame
  | wakeup t =>
    by_cases ht : t ∈ ids q
    · simpa [effect, enter, ht, Action.Schedules, Action.isTurn] using hsame
    · have hpos := henter (t := t) (hw.key_pos ha.2 ht).1 (hw.key_pos ha.2 ht).2
      simpa [effect, enter, ht, Action.Schedules, Action.isTurn] using hpos
  | start woken =>
    rw [ha.1] at hpc
    cases hpc
  | poll woken =>
    rw [ha.1] at hpc
    cases hpc
  | yield type woken =>
    obtain ⟨he', hs', hlt, hf⟩ := settled_front hw hx ha.2
    show ∃ c r, scheduled s q (some type) woken = c :: r ∧ _
    rw [effect, scheduled]
    generalize settled s q (some type) = o at *
    obtain ⟨f, q'⟩ := o
    cases q' with
    | nil => cases he'
    | cons g r =>
      obtain ⟨r', heq, hdebt, hin⟩ := polled_front (m := remaining s (some type)) (n := n) he' hs' hx hf
      refine ⟨g, r', heq, hin, fun h => (h trivial).elim, ?_⟩
      show turnsLeft n e (polled _ f (g :: r) woken) + 1 ≤ _
      rw [heq, hdebt]
      exact hlt

/-- While the task has no turn, a step keeps it waiting, and the turns of others are counted. -/
theorem waiting_step (hw : Waiting n s q e) (hx : e.2.val + HEV_TASK_PRIORITY_MAX < 2 ^ 64)
    (h : NormalStep s a u) (hne : u.current_task ≠ some e.1) (hn : u.total_task_count ≤ n) :
    Waiting n u (effect s q a) e ∧ turnsLeft n e (effect s q a) + a.isTurn.toNat ≤ turnsLeft n e q := by
  obtain ⟨hpos, hstep⟩ := h
  obtain ⟨c, r, heq, hin, hcur, hturns⟩ := effect_front hw hx hstep.1
  obtain ⟨hu, hsched, hstay, hpositive⟩ := scheduled_step hw.scheduled hstep
  have hfirst : u.pc = .task ∧ u.current_task = some c.1 := by
    by_cases ha : a.Schedules
    · exact hsched ha c.1 (ids r) (by rw [heq]; rfl)
    · exact ⟨(hstay ha).1.trans hw.pc, (hstay ha).2.trans (hcur ha)⟩
  refine ⟨⟨hu, hpositive hw.positive hpos, hfirst.1, ⟨c, r, heq, hfirst.2, ?_⟩, hn⟩, hturns⟩
  refine (List.mem_cons.mp hin).resolve_left fun hec => hne ?_
  rw [hec]
  exact hfirst.2

/-- The steps of a run in which a task has no turn, with at most `n` tasks. -/
abbrev StepWithout (p : Ptr) (n : Nat) : HevTaskSystemContext → Action → HevTaskSystemContext → Prop :=
  Into NormalStep fun u => u.current_task ≠ some p ∧ u.total_task_count ≤ n

theorem turns_le (hw : Waiting n s q e) (hx : e.2.val + HEV_TASK_PRIORITY_MAX < 2 ^ 64)
    (h : Run (StepWithout e.1 n) s xs u) : xs.countP Action.isTurn ≤ turnsLeft n e q := by
  induction h generalizing q with
  | refl => exact Nat.zero_le _
  | @stepL s v u a xs hs _ ih =>
    obtain ⟨hstep, hne, hn⟩ := hs
    obtain ⟨hv, hturns⟩ := waiting_step hw hx hstep hne hn
    have hle := ih hv
    rw [List.countP_cons]
    have hone : (if a.isTurn then 1 else 0) = a.isTurn.toNat := by cases a.isTurn <;> rfl
    rw [hone]
    omega

/-- The tasks keep their priorities in a run. -/
theorem allPositive_run (hr : Reachable Initial NormalStep s) : (∃ q, Scheduled s q) ∧ AllPositive s := by
  have hpreserves : Preserves NormalStep fun s => (∃ q, Scheduled s q) ∧ AllPositive s := by
    rintro s a u ⟨hpos, hstep⟩ ⟨⟨q, hs⟩, hall⟩
    obtain ⟨hu, -, -, hpositive⟩ := scheduled_step hs hstep
    exact ⟨⟨_, hu⟩, hpositive hall hpos⟩
  have hinitial : ∀ s, Initial s → (∃ q, Scheduled s q) ∧ AllPositive s := by
    intro s hinit
    refine ⟨⟨[], scheduled_initial hinit⟩, ?_⟩
    obtain rfl := hinit
    intro t k hk
    cases hk
  obtain ⟨hq, hall⟩ := Reachable.invariant hpreserves hinitial hr
  exact ⟨hq, hall⟩

/-- With at most `n` tasks, none of them a real-time one, a task that can run has a turn before the others have
had as many as this; `j` is the task that has its turn now. Only keys near the overflow are left out. -/
theorem runnable_gets_turn {c p : Ptr} {j k : HevTask} (hr : Reachable Initial NormalStep s) (hpc : s.pc = .task)
    (hcur : s.current_task = some c) (hfirst : s.running_tasks.leftmost = some c) (hc : s.tasks c = some j)
    (hp : s.tasks p = some k) (hrun : k.state = .running) (hne : p ≠ c)
    (hkey : k.sched_key.val + HEV_TASK_PRIORITY_MAX < 2 ^ 64) (hn : s.total_task_count ≤ n)
    (h : Run (StepWithout p n) s xs u) :
    xs.countP Action.isTurn ≤ (k.sched_key.val - j.sched_key.val + 1) * n := by
  obtain ⟨⟨q, hs⟩, hall⟩ := allPositive_run hr
  have hi := hs.queued.indexed
  have hhead : (ids q).head? = some c := hi.index.first.symm.trans hfirst
  obtain ⟨e, he, hep⟩ := List.mem_map.mp ((hs.queued.counted.running p).mpr ⟨k, hp, hrun⟩)
  cases q with
  | nil => cases he
  | cons f r =>
    obtain rfl : f.1 = c := Option.some.inj hhead
    have hfk : j.sched_key = f.2 := (key_of hc).symm.trans (hi.key_eq List.mem_cons_self)
    have hek : k.sched_key = e.2 := (key_of hp).symm.trans (hep ▸ hi.key_eq he)
    have hmem : e ∈ r := (List.mem_cons.mp he).resolve_left fun hef => hne (hep ▸ hef ▸ rfl)
    have hw : Waiting n s (f :: r) e := ⟨hs, hall, hpc, ⟨f, r, rfl, hcur, hmem⟩, hn⟩
    have hlen : (f :: r).length ≤ n := Nat.le_trans hs.queued.counted.length_le hn
    rw [hek] at hkey ⊢
    rw [hfk]
    subst hep
    exact (turns_le hw hkey h).trans (debt_le hlen)

theorem normal_next (hr : Reachable Initial NormalStep s) (ha : Allowed s a) (hpos : a.Positive) :
    NormalStep s a (next s a) := by
  obtain ⟨⟨q, hs⟩, -⟩ := allPositive_run hr
  obtain ⟨r, u, hu, -⟩ := ensures_perform hs ha
  exact ⟨hpos, ha, by rw [next, hu]; rfl⟩

theorem reachable_next (hr : Reachable Initial NormalStep s) (ha : Allowed s a) (hpos : a.Positive) :
    Reachable Initial NormalStep (next s a) := by
  obtain ⟨s₀, xs, hinit, hrun⟩ := hr
  exact ⟨s₀, xs ++ [a], hinit, hrun.stepR (normal_next ⟨s₀, xs, hinit, hrun⟩ ha hpos)⟩

/-- A new task that runs. -/
def spawn (s : HevTaskSystemContext) (t : Ptr) : HevTaskSystemContext := next (next s (.new t)) (.run t)

theorem reachable_spawn (hr : Reachable Initial NormalStep s) (hpc : s.pc ≠ .polling) (ht : s.tasks t = none)
    (hmem : s.running_tasks.base.mem t = none) (hpc' : (next s (.new t)).pc ≠ .polling)
    (ht' : ((next s (.new t)).tasks t).isSome) : Reachable Initial NormalStep (spawn s t) :=
  reachable_next (reachable_next hr ⟨hpc, ht, hmem⟩ trivial) ⟨hpc', ht'⟩ trivial

/-- Three tasks, the first of which has its turn. -/
def threeTasks : HevTaskSystemContext := next (spawn (spawn (spawn hev_task_system_init 0) 1) 2) (.start [])

theorem threeTasks_reachable : Reachable Initial NormalStep threeTasks := by
  have h0 : Reachable Initial NormalStep (spawn hev_task_system_init 0) :=
    reachable_spawn ⟨_, [], rfl, .refl⟩ (by decide) rfl rfl (by decide +kernel) (by decide +kernel)
  have h1 : Reachable Initial NormalStep (spawn (spawn hev_task_system_init 0) 1) :=
    reachable_spawn h0 (by decide +kernel) (by decide +kernel) (by decide +kernel) (by decide +kernel)
      (by decide +kernel)
  have h2 : Reachable Initial NormalStep (spawn (spawn (spawn hev_task_system_init 0) 1) 2) :=
    reachable_spawn h1 (by decide +kernel) (by decide +kernel) (by decide +kernel) (by decide +kernel)
      (by decide +kernel)
  exact reachable_next h2 ⟨by decide +kernel, fun _ h => by cases h⟩ trivial

theorem tasks_scheduled_three : ∃ q, Scheduled threeTasks q ∧
    ∀ a, Allowed threeTasks a → ∃ u, Step threeTasks a u ∧ Scheduled u (effect threeTasks q a) ∧
      (a.Schedules → ∀ t l, ids (effect threeTasks q a) = t :: l → u.pc = .task ∧ u.current_task = some t) := by
  obtain ⟨s₀, xs, hinit, hrun⟩ := threeTasks_reachable
  exact tasks_scheduled ⟨s₀, xs, hinit, hrun.of_guarded⟩

theorem runnable_gets_turn_three : [Action.yield .switch []].countP Action.isTurn ≤ (8 - 8 + 1) * 3 :=
  runnable_gets_turn (s := threeTasks) (u := next threeTasks (.yield .switch [])) (c := 0) (p := 2)
    (j := ⟨8, 1, 8, 8, .running⟩) (k := ⟨8, 1, 8, 8, .running⟩) threeTasks_reachable (by decide +kernel)
    (by decide +kernel) (by decide +kernel) (by decide +kernel) (by decide +kernel) rfl (by decide) (by decide)
    (by decide +kernel) (.single ⟨normal_next threeTasks_reachable
      ⟨by decide +kernel, fun _ h => by cases h⟩ trivial, by decide +kernel, by decide +kernel⟩)

end XTunnel.TaskSystem
