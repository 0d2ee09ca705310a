import XTunnel.TaskSystem.Schedule

/-! The tree of the tasks that can run is a queue by their keys. -/
namespace XTunnel.TaskSystem

open Code RedBlack RbTree FairQueue HevTaskSystemContext
open HevRBTreeCached (hev_rbtree_cached_first hev_rbtree_cached_erase insertAt)

abbrev Queue := List (Ptr × SchedKey)

/-- The key that a task has. -/
def key (tasks : Ptr → Option HevTask) (t : Ptr) : SchedKey := ((tasks t).map HevTask.sched_key).getD 0

/-- The tree is the queue of tasks. -/
structure Indexed (tasks : Ptr → Option HevTask) (tree : HevRBTreeCached) (q : Queue) : Prop where
  index : CachedIndexes tree (ids q)
  sorted : FairQueue.Sorted q
  keys : ∀ e ∈ q, (tasks e.1).map HevTask.sched_key = some e.2
  nodes : ∀ t, (tasks t).isSome → Allocated t tree.base

/-- The states of the tasks and the counts belong to the queue. -/
structure Counted (s : HevTaskSystemContext) (q : Queue) : Prop where
  running : ∀ t, t ∈ ids q ↔ ∃ k, s.tasks t = some k ∧ k.state = .running
  refs : ∀ t k, s.tasks t = some k → 0 < k.ref_count
  running_count : s.running_task_count = q.length
  waiting : ∃ w : List Ptr, w.Nodup ∧ (∀ t, t ∈ w ↔ ∃ k, s.tasks t = some k ∧ k.state = .waiting) ∧
    s.total_task_count = q.length + w.length

structure Queued (s : HevTaskSystemContext) (q : Queue) : Prop where
  indexed : Indexed s.tasks s.running_tasks q
  counted : Counted s q

/-- What the place of the thread says of the current task. -/
def Placed (s : HevTaskSystemContext) (q : Queue) : Prop :=
  match s.pc with
  | .main => s.current_task = none
  | .task => ∃ t ∈ ids q, s.current_task = some t
  | .polling => q = [] ∧ 0 < s.total_task_count

structure Scheduled (s : HevTaskSystemContext) (q : Queue) : Prop where
  queued : Queued s q
  placed : Placed s q

variable {s u : HevTaskSystemContext} {q : Queue} {t p : Ptr} {k : HevTask} {fuel : Nat} {l : List Ptr}
  {tasks : Ptr → Option HevTask} {tree : HevRBTreeCached} {c : HevRBTreeCached} {α : Type}
  {R : α → HevTaskSystemContext → Prop}

theorem allocated_of_mem (hi : CachedIndexes c l) (hp : p ∈ l) : Allocated p c.base := by
  obtain ⟨t, hh, -, rfl⟩ := hi.index
  obtain ⟨fs, d, a, b, rfl⟩ := exists_position hp
  have hx := (holds_whole.mp hh).tree.1
  rw [Allocated, hx]
  rfl

theorem context_bind {f : HevTaskSystemContext → M α} (hf : (f s).Ensures s R) :
    (context >>= f).Ensures s R :=
  Ensures.bind ⟨s, s, rfl, hf⟩

theorem modify_bind {g : HevTaskSystemContext → HevTaskSystemContext} {f : Unit → M α}
    (hf : (f ()).Ensures (g s) R) : (modify g >>= f).Ensures s R :=
  Ensures.bind ⟨(), g s, rfl, hf⟩

theorem load_bind {f : HevTask → M α} (hk : s.tasks t = some k) (hf : (f k).Ensures s R) :
    (load t >>= f).Ensures s R :=
  Ensures.bind ⟨k, s, by rw [load, hk]; rfl, hf⟩

theorem ensures_modifyTask {g : HevTask → HevTask} {R : Unit → HevTaskSystemContext → Prop}
    (hk : s.tasks t = some k) (hR : R () (s.setTask t (g k))) : (modifyTask t g).Ensures s R :=
  ⟨(), _, by rw [modifyTask, hk]; rfl, hR⟩

theorem modifyTask_bind {g : HevTask → HevTask} {f : Unit → M α} (hk : s.tasks t = some k)
    (hf : (f ()).Ensures (s.setTask t (g k)) R) : (modifyTask t g >>= f).Ensures s R :=
  Ensures.bind (ensures_modifyTask hk hf)

@[simp] theorem setTask_self : (s.setTask t k).tasks t = some k := Function.update_self _ _ _

theorem setTask_of_ne (h : p ≠ t) : (s.setTask t k).tasks p = s.tasks p := Function.update_of_ne h _ _

namespace Indexed

theorem nodup (hi : Indexed tasks tree q) : (ids q).Nodup := hi.index.index.nodup

theorem key_eq (hi : Indexed tasks tree q) {e : Ptr × SchedKey} (he : e ∈ q) : key tasks e.1 = e.2 := by
  rw [key, hi.keys e he]
  rfl

/-- The key of a task in the queue does not change. -/
theorem setTask {k' : HevTask} (hi : Indexed s.tasks s.running_tasks q) (hk : s.tasks t = some k)
    (hkey : t ∈ ids q → k'.sched_key = k.sched_key) : Indexed (s.setTask t k').tasks s.running_tasks q where
  index := hi.index
  sorted := hi.sorted
  keys e he := by
    by_cases het : e.1 = t
    · have hold := hi.keys e he
      rw [het, hk] at hold
      rw [het, setTask_self]
      exact (congrArg some (hkey (het ▸ List.mem_map_of_mem he))).trans hold
    · rw [setTask_of_ne het]
      exact hi.keys e he
  nodes p hp := by
    refine hi.nodes p ?_
    by_cases hpt : p = t
    · rw [hpt, hk]
      rfl
    · rwa [setTask_of_ne hpt] at hp

/-- The memory of a task outside of the queue changes hands. -/
theorem replace {o : Option HevTask} {n : Option HevRBTreeNode} (hi : Indexed tasks tree q) (ht : t ∉ ids q)
    (hon : o.isSome → n.isSome) : Indexed (Function.update tasks t o)
      { tree with base := { tree.base with mem := Function.update tree.base.mem t n } } q where
  index := ⟨hi.index.index.congr rfl fun p hp => Function.update_of_ne (fun h : p = t => ht (h ▸ hp)) _ _,
    hi.index.first⟩
  sorted := hi.sorted
  keys e he := by
    have het : e.1 ≠ t := fun h => ht (h ▸ List.mem_map_of_mem he)
    rw [Function.update_of_ne het]
    exact hi.keys e he
  nodes p hp := by
    by_cases hpt : p = t
    · subst hpt
      rw [Function.update_self] at hp
      simpa [Allocated] using hon hp
    · rw [Function.update_of_ne hpt] at hp
      simpa [Allocated, hpt] using hi.nodes p hp

theorem min_sched_key (hi : Indexed s.tasks s.running_tasks q) :
    hev_task_system_get_min_sched_key s = some (least q, s) := by
  have hmin : hev_task_system_get_min_sched_key.Ensures s fun r u => r = least q ∧ u = s := by
    have hfirst := hi.index.first
    refine Ensures.bind ⟨s.running_tasks.leftmost, s, rfl, ?_⟩
    rw [hfirst]
    cases q with
    | nil => exact ensures_pure ⟨rfl, rfl⟩
    | cons e q =>
      obtain ⟨k, hk, he⟩ := Option.map_eq_some_iff.mp (hi.keys e List.mem_cons_self)
      exact load_bind hk (ensures_pure ⟨he, rfl⟩)
  obtain ⟨r, u, he, rfl, rfl⟩ := hmin
  exact he

/-- A task goes behind those with no larger key. -/
theorem ensures_insert (hi : Indexed s.tasks s.running_tasks q) (hk : s.tasks t = some k) (hnew : t ∉ ids q)
    (hfuel : levels q.length < fuel) : (insertSorted fuel t).Ensures s fun _ u => ∃ tree,
      u = { s with running_tasks := tree } ∧ Indexed s.tasks tree (enqueue (t, k.sched_key) q) := by
  refine context_bind ?_
  let goes : Ptr → Bool := fun p => k.sched_key < key s.tasks p
  have hcut : Cut (fun a b => key s.tasks a ≤ key s.tasks b) (sideOf goes) := by
    refine ⟨fun a b hab hb => ?_, fun a b hab ha => ?_⟩
    · have hb : goes b = false := sideOf_gt.mp hb
      refine sideOf_gt.mpr (decide_eq_false fun hlt => ?_)
      exact (of_decide_eq_false hb) (hlt.trans_le hab)
    · have ha : goes a = true := sideOf_lt.mp ha
      exact sideOf_lt.mpr (decide_eq_true ((of_decide_eq_true ha).trans_le hab))
  have hsort : (ids q).Pairwise fun a b => key s.tasks a ≤ key s.tasks b := by
    refine List.pairwise_map.mpr (hi.sorted.imp_of_mem fun {a b} ha hb hab => ?_)
    rw [hi.key_eq ha, hi.key_eq hb]
    exact hab
  have hbefore : ∀ p ∈ ids q, s.precedes t p = some (goes p) := by
    intro p hp
    obtain ⟨e, he, rfl⟩ := List.mem_map.mp hp
    obtain ⟨k', hk', hkey⟩ := Option.map_eq_some_iff.mp (hi.keys e he)
    have hgoes : goes e.1 = decide (k.sched_key < k'.sched_key) := by
      show decide (k.sched_key < key s.tasks e.1) = _
      rw [hi.key_eq he, hkey]
    rw [precedes, hk, hk', hgoes]
    rfl
  obtain ⟨m, hm⟩ := Option.isSome_iff_exists.mp (hi.nodes t (by rw [hk]; rfl))
  have hlen : (ids q).length = q.length := List.length_map _
  refine (HevRBTreeCached.ensures_insertAt hi.index hcut hsort hbefore hm hnew (hlen ▸ hfuel)).on ?_
  rintro _ tree ⟨hsame, as, bs, hsplit, htree, has, hbs⟩
  obtain ⟨qa, qb, rfl, rfl, rfl⟩ := List.map_eq_append_iff.mp hsplit
  have henq : enqueue (t, k.sched_key) (qa ++ qb) = qa ++ (t, k.sched_key) :: qb := by
    refine enqueue_append (fun a ha => ?_) fun b hb => ?_
    · have hno := of_decide_eq_false (has a.1 (List.mem_map_of_mem ha))
      rw [hi.key_eq (List.mem_append_left _ ha)] at hno
      exact not_lt.mp hno
    · have hyes := of_decide_eq_true (hbs b.1 (List.mem_map_of_mem hb))
      rwa [hi.key_eq (List.mem_append_right _ hb)] at hyes
  have hids : ids (enqueue (t, k.sched_key) (qa ++ qb)) = qa.map Prod.fst ++ t :: qb.map Prod.fst := by
    rw [henq, ids, List.map_append, List.map_cons]
  refine ⟨tree, rfl, hids ▸ htree, hi.sorted.enqueue, fun e he => ?_, fun p hp => ?_⟩
  · rcases mem_enqueue.mp he with rfl | he
    · rw [hk]
      rfl
    · exact hi.keys e he
  · by_cases hmem : p ∈ qa.map Prod.fst ++ t :: qb.map Prod.fst
    · exact allocated_of_mem htree hmem
    · have hout : p ∉ t :: ids (qa ++ qb) := by
        rw [hsplit]
        simpa [and_left_comm, not_or] using hmem
      rw [Allocated, hsame p hout]
      exact hi.nodes p hp

/-- A task that leaves may have changed before. -/
theorem ensures_erase (hi : Indexed tasks s.running_tasks q) (hsame : ∀ p, p ≠ t → s.tasks p = tasks p)
    (ht : t ∈ ids q) (hfuel : levels q.length ≤ fuel) :
    (onTree (hev_rbtree_cached_erase fuel t)).Ensures s fun _ u => ∃ tree,
      u = { s with running_tasks := tree } ∧ Indexed s.tasks tree (leave t q) := by
  have hlen : (ids q).length = q.length := List.length_map _
  refine (HevRBTreeCached.ensures_erase hi.index ht (hlen ▸ hfuel)).on ?_
  rintro _ tree ⟨htree, hkeeps⟩
  have hids := ids_leave_of_nodup (t := t) hi.nodup
  refine ⟨tree, rfl, hids ▸ htree, hi.sorted.leave, fun e he => ?_, fun p hp => hkeeps p ?_⟩
  · obtain ⟨he, hne⟩ := mem_leave.mp he
    rw [hsame e.1 hne]
    exact hi.keys e he
  · by_cases hpt : p = t
    · exact hpt ▸ allocated_of_mem hi.index ht
    · exact hi.nodes p (hsame p hpt ▸ hp)

end Indexed

theorem Queued.congr (hq : Queued s q) (htasks : u.tasks = s.tasks) (htree : u.running_tasks = s.running_tasks)
    (hrun : u.running_task_count = s.running_task_count) (htotal : u.total_task_count = s.total_task_count) :
    Queued u q := by
  obtain ⟨hi, hrunning, hrefs, hcount, hwaiting⟩ := hq
  exact ⟨htasks ▸ htree ▸ hi, htasks ▸ hrunning, htasks ▸ hrefs, hrun.trans hcount, htasks ▸ htotal ▸ hwaiting⟩

/-! ### The counts -/

theorem nodup_filter_ne {w : List Ptr} (hw : w.Nodup) (t : Ptr) :
    (w.filter (· ≠ t)).Nodup ∧ ∀ p, p ∈ w.filter (· ≠ t) ↔ p ∈ w ∧ p ≠ t :=
  ⟨hw.filter _, fun p => by simp⟩

theorem length_filter_ne {w : List Ptr} (hw : w.Nodup) (ht : t ∈ w) :
    (w.filter (· ≠ t)).length + 1 = w.length := by
  have heq : w.filter (· ≠ t) = w.erase t := by
    rw [hw.erase_eq_filter]
    congr
    funext x
    by_cases h : x = t <;> simp [h]
  rw [heq, List.length_erase_of_mem ht, Nat.sub_add_cancel (List.length_pos_of_mem ht)]

namespace Counted

variable {k' : HevTask} {x : SchedKey} {o : Option HevTask}

/-- A change of one task that keeps its state. -/
theorem same (hc : Counted s q) (hk : s.tasks t = some k)
    (htasks : u.tasks = Function.update s.tasks t (some k')) (hstate : k'.state = k.state)
    (href : 0 < k'.ref_count) (hrun : u.running_task_count = s.running_task_count)
    (htotal : u.total_task_count = s.total_task_count) : Counted u q := by
  have hiff : ∀ p st, (∃ j, u.tasks p = some j ∧ j.state = st) ↔ ∃ j, s.tasks p = some j ∧ j.state = st := by
    intro p st
    by_cases hp : p = t
    · subst hp
      rw [htasks, Function.update_self, hk]
      simp [hstate]
    · rw [htasks, Function.update_of_ne hp]
  obtain ⟨w, hw, hwait, hsum⟩ := hc.waiting
  refine ⟨fun p => (hc.running p).trans (hiff p _).symm, fun p j hj => ?_, hrun.trans hc.running_count,
    w, hw, fun p => (hwait p).trans (hiff p _).symm, htotal.trans hsum⟩
  by_cases hp : p = t
  · subst hp
    rw [htasks, Function.update_self] at hj
    cases hj
    exact href
  · rw [htasks, Function.update_of_ne hp] at hj
    exact hc.refs p j hj

/-- A task that has ended, or a new one, does not count. -/
theorem stopped (hc : Counted s q) (hold : ∀ j, s.tasks t = some j → j.state = .stopped)
    (htasks : u.tasks = Function.update s.tasks t o)
    (ho : ∀ j, o = some j → j.state = .stopped ∧ 0 < j.ref_count)
    (hrun : u.running_task_count = s.running_task_count) (htotal : u.total_task_count = s.total_task_count) :
    Counted u q := by
  have hiff : ∀ p st, st ≠ .stopped →
      ((∃ j, u.tasks p = some j ∧ j.state = st) ↔ ∃ j, s.tasks p = some j ∧ j.state = st) := by
    intro p st hst
    by_cases hp : p = t
    · subst hp
      rw [htasks, Function.update_self]
      constructor
      · rintro ⟨j, hj, rfl⟩
        exact absurd (ho j hj).1 hst
      · rintro ⟨j, hj, rfl⟩
        exact absurd (hold j hj) hst
    · rw [htasks, Function.update_of_ne hp]
  obtain ⟨w, hw, hwait, hsum⟩ := hc.waiting
  refine ⟨fun p => (hc.running p).trans (hiff p _ (by decide)).symm, fun p j hj => ?_,
    hrun.trans hc.running_count, w, hw, fun p => (hwait p).trans (hiff p _ (by decide)).symm, htotal.trans hsum⟩
  by_cases hp : p = t
  · subst hp
    rw [htasks, Function.update_self] at hj
    exact (ho j hj).2
  · rw [htasks, Function.update_of_ne hp] at hj
    exact hc.refs p j hj

/-- A task begins to run. -/
theorem enter (hc : Counted s q) (hk : s.tasks t = some k) (hnot : k.state ≠ .running)
    (htasks : u.tasks = Function.update s.tasks t (some k')) (hstate : k'.state = .running)
    (href : 0 < k'.ref_count) (hrun : u.running_task_count = s.running_task_count + 1)
    (htotal : u.total_task_count = s.total_task_count + if k.state = .stopped then 1 else 0) :
    Counted u (enqueue (t, x) q) := by
  obtain ⟨w, hw, hwait, hsum⟩ := hc.waiting
  obtain ⟨hnodup, hmem⟩ := nodup_filter_ne hw t
  refine ⟨fun p => ?_, fun p j hj => ?_, ?_, w.filter (· ≠ t), hnodup, fun p => ?_, ?_⟩
  · rw [mem_ids_enqueue]
    by_cases hp : p = t
    · subst hp
      simp [htasks, hstate]
    · rw [htasks, Function.update_of_ne hp, ← hc.running p]
      simp [hp]
  · by_cases hp : p = t
    · subst hp
      rw [htasks, Function.update_self] at hj
      cases hj
      exact href
    · rw [htasks, Function.update_of_ne hp] at hj
      exact hc.refs p j hj
  · rw [hrun, hc.running_count, length_enqueue]
  · rw [hmem]
    by_cases hp : p = t
    · subst hp
      simp [htasks, hstate]
    · rw [htasks, Function.update_of_ne hp, ← hwait p]
      simp [hp]
  · rw [htotal, hsum, length_enqueue]
    by_cases hst : k.state = .stopped
    · have hout : t ∉ w := by
        rw [hwait, hk]
        rintro ⟨j, hj, hjw⟩
        cases hj
        rw [hst] at hjw
        cases hjw
      have hself : w.filter (· ≠ t) = w := List.filter_eq_self.mpr fun a ha => by
        simpa using fun h : a = t => hout (h ▸ ha)
      rw [if_pos hst, hself]
      omega
    · have hin : t ∈ w := by
        refine (hwait t).mpr ⟨k, hk, ?_⟩
        cases hstk : k.state
        · exact absurd hstk hst
        · exact absurd hstk hnot
        · rfl
      have hlen := length_filter_ne hw hin
      rw [if_neg hst]
      omega

/-- The running task that leaves waits, or it has ended. -/
theorem leave (hc : Counted s q) (hn : (ids q).Nodup) (hk : s.tasks t = some k) (hrunning : k.state = .running)
    (htasks : u.tasks = Function.update s.tasks t o)
    (ho : ∀ j, o = some j → 0 < j.ref_count ∧ j.state ≠ .running)
    (hrun : u.running_task_count = s.running_task_count - 1)
    (htotal : (∃ j, o = some j ∧ j.state = .waiting) ∧ u.total_task_count = s.total_task_count ∨
      (∀ j, o = some j → j.state = .stopped) ∧ u.total_task_count = s.total_task_count - 1) :
    Counted u (FairQueue.leave t q) := by
  obtain ⟨w, hw, hwait, hsum⟩ := hc.waiting
  have ht : t ∈ ids q := (hc.running t).mpr ⟨k, hk, hrunning⟩
  have hlen := length_leave hn ht
  have hout : t ∉ w := by
    rw [hwait, hk]
    rintro ⟨j, hj, hjw⟩
    cases hj
    rw [hrunning] at hjw
    cases hjw
  have hne : ∀ p, p ≠ t → u.tasks p = s.tasks p := fun p hp => by rw [htasks, Function.update_of_ne hp]
  have hself : u.tasks t = o := by rw [htasks, Function.update_self]
  refine ⟨fun p => ?_, fun p j hj => ?_, ?_, ?_⟩
  · rw [mem_ids_leave]
    by_cases hp : p = t
    · subst hp
      rw [hself]
      refine ⟨fun h => absurd rfl h.2, ?_⟩
      rintro ⟨j, hj, hjr⟩
      exact absurd hjr (ho j hj).2
    · rw [hne p hp, ← hc.running p]
      simp [hp]
  · by_cases hp : p = t
    · subst hp
      exact (ho j (hself ▸ hj)).1
    · exact hc.refs p j (hne p hp ▸ hj)
  · rw [hrun, hc.running_count]
    omega
  · rcases htotal with ⟨hjw, htotal⟩ | ⟨hstop, htotal⟩
    · refine ⟨t :: w, List.nodup_cons.mpr ⟨hout, hw⟩, fun p => ?_, ?_⟩
      · by_cases hp : p = t
        · subst hp
          rw [hself]
          simpa using hjw
        · rw [hne p hp, ← hwait p]
          simp [hp]
      · rw [htotal, hsum, List.length_cons]
        omega
    · refine ⟨w, hw, fun p => ?_, ?_⟩
      · by_cases hp : p = t
        · subst hp
          rw [hself]
          refine ⟨fun h => absurd h hout, ?_⟩
          rintro ⟨j, hj, hjw⟩
          rw [hstop j hj] at hjw
          cases hjw
        · rw [hne p hp, ← hwait p]
      · rw [htotal, hsum]
        omega

theorem length_le (hc : Counted s q) : q.length ≤ s.total_task_count := by
  obtain ⟨w, -, -, hsum⟩ := hc.waiting
  omega

end Counted

end XTunnel.TaskSystem
