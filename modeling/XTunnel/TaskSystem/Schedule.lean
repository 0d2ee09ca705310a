import XTunnel.FairQueue
import XTunnel.RbTree.Cached
import XTunnel.Transition

/-! hev-task-system-schedule.c and hev-task.c: the tasks of a thread and the tree of those that can run. -/
namespace XTunnel.TaskSystem

open Code RbTree FairQueue
open HevRBTreeCached (hev_rbtree_cached_first hev_rbtree_cached_erase insertAt)

inductive HevTaskState
  | stopped
  | running
  | waiting
deriving DecidableEq, Repr

/-- How a task comes back to the scheduler. -/
inductive Sched
  | switch
  | waitio
  | remove
deriving DecidableEq, Repr

def HEV_TASK_PRIORITY_MAX : Nat := 15

abbrev Priority := Fin (HEV_TASK_PRIORITY_MAX + 1)

def HEV_TASK_PRIORITY_DEFAULT : Priority := 8

/-- `uint64_t`. -/
abbrev SchedKey := Fin (2 ^ 64)

instance neZero_sched_key : NeZero (2 ^ 64 : Nat) := ⟨by decide⟩

structure HevTask where
  sched_key : SchedKey
  ref_count : Nat
  priority : Priority
  next_priority : Priority
  state : HevTaskState
deriving DecidableEq, Repr

/-- Where the thread is: outside of the tasks, in the current one, or in the poll with no task to run. -/
inductive Pc
  | main
  | task
  | polling
deriving DecidableEq, Repr

/-- A task and the `sched_node` in it have one address. -/
structure HevTaskSystemContext where
  total_task_count : Nat
  running_task_count : Nat
  current_task : Option Ptr
  running_tasks : HevRBTreeCached
  tasks : Ptr → Option HevTask
  pc : Pc

abbrev M := Code HevTaskSystemContext

namespace HevTaskSystemContext

def setTask (s : HevTaskSystemContext) (t : Ptr) (k : HevTask) : HevTaskSystemContext :=
  { s with tasks := Function.update s.tasks t (some k) }

/-- `task->sched_key < this->sched_key`. -/
def precedes (s : HevTaskSystemContext) (task this : Ptr) : Option Bool :=
  (s.tasks task).bind fun k => (s.tasks this).map fun k' => k.sched_key < k'.sched_key

end HevTaskSystemContext

open HevTaskSystemContext

def context : M HevTaskSystemContext := fun s => some (s, s)

def modify (f : HevTaskSystemContext → HevTaskSystemContext) : M Unit := fun s => some ((), f s)

def onTree {α : Type} (x : Code HevRBTreeCached α) : M α :=
  x.on (·.running_tasks) fun s running_tasks => { s with running_tasks }

def load (t : Ptr) : M HevTask := fun s => (s.tasks t).map (·, s)

def modifyTask (t : Ptr) (f : HevTask → HevTask) : M Unit := fun s =>
  (s.tasks t).map fun k => ((), s.setTask t (f k))

/-- The key that an `int` priority is. -/
def keyOf (p : Priority) : SchedKey := p.castLE (by decide)

/-- The clock is `CLOCK_NONE`: a turn counts as 1. -/
def runtime : SchedKey := 1

/-- A task that has had its turn. -/
def charged (k : HevTask) : HevTask := { k with sched_key := k.sched_key + runtime * keyOf k.priority }

def hev_task_system_update_sched_key : M Unit := do
  let s ← context
  modifyTask (← deref s.current_task) charged

def hev_task_system_get_min_sched_key : M SchedKey := do
  match ← onTree hev_rbtree_cached_first with
  | none => return 0
  | some sched_node => return (← load sched_node).sched_key

/-- `_hev_task_system_insert_task`. -/
def insertSorted (fuel : Nat) (t : Ptr) : M Unit := do
  let s ← context
  onTree (insertAt fuel (s.precedes t) t)

def hev_task_system_insert_task (fuel : Nat) (t : Ptr) : M Unit := do
  modifyTask t fun k => { k with state := .running, priority := k.next_priority }
  insertSorted fuel t
  modify fun s => { s with running_task_count := s.running_task_count + 1 }

def hev_task_system_reinsert_current_task (fuel : Nat) : M Unit := do
  let s ← context
  let t ← deref s.current_task
  modifyTask t fun k => { k with priority := k.next_priority }
  onTree (hev_rbtree_cached_erase fuel t)
  insertSorted fuel t

/-- The memory of a task, with its node. -/
def free (t : Ptr) : M Unit := modify fun s =>
  { s with
    tasks := Function.update s.tasks t none
    running_tasks := { s.running_tasks with
      base := { s.running_tasks.base with mem := Function.update s.running_tasks.base.mem t none } } }

def hev_task_ref (t : Ptr) : M Unit := modifyTask t fun k => { k with ref_count := k.ref_count + 1 }

def hev_task_unref (t : Ptr) : M Unit := do
  modifyTask t fun k => { k with ref_count := k.ref_count - 1 }
  let k ← load t
  onlyIf (k.ref_count = 0) (free t)

def hev_task_system_remove_current_task (fuel : Nat) (state : HevTaskState) : M Unit := do
  let s ← context
  let t ← deref s.current_task
  modifyTask t fun k => { k with state }
  onTree (hev_rbtree_cached_erase fuel t)
  modify fun s => { s with running_task_count := s.running_task_count - 1 }
  if state = .stopped then
    modify fun s => { s with total_task_count := s.total_task_count - 1 }
    hev_task_unref t
  else modifyTask t fun k => { k with sched_key := keyOf k.next_priority }

/-- `abort` is a fault. -/
def hev_task_system_wakeup_task_with_context (fuel : Nat) (t : Ptr) : M Unit := do
  match (← load t).state with
  | .running => return ()
  | .stopped => fault
  | .waiting =>
    let least ← hev_task_system_get_min_sched_key
    modifyTask t fun k => { k with sched_key := k.sched_key + least }
    hev_task_system_insert_task fuel t

/-- `woken` are the tasks of the events, and that of the timer when it is time. -/
def hev_task_system_io_poll (fuel : Nat) : List Ptr → M Unit
  | [] => return ()
  | t :: woken => do
    hev_task_system_wakeup_task_with_context fuel t
    hev_task_system_io_poll fuel woken

/-- One turn of the loop around the poll; without a task to run, it goes on. -/
def hev_task_system_pick_current_task (fuel : Nat) (woken : List Ptr) : M Unit := do
  let s ← context
  onlyIf (s.running_task_count < s.total_task_count) (hev_task_system_io_poll fuel woken)
  let s ← context
  if s.running_task_count = 0 then modify fun s => { s with pc := .polling }
  else
    let sched_node ← deref (← onTree hev_rbtree_cached_first)
    modify fun s => { s with current_task := some sched_node, pc := .task }

/-- The kernel behind `_setjmp`; `none` is the start of `HEV_TASK_RUN_SCHEDULER`. -/
def settle (fuel : Nat) : Option Sched → M Unit
  | none => return ()
  | some .switch => do
    hev_task_system_update_sched_key
    hev_task_system_reinsert_current_task fuel
  | some .waitio => do
    hev_task_system_update_sched_key
    hev_task_system_remove_current_task fuel .waiting
  | some .remove => hev_task_system_remove_current_task fuel .stopped

def hev_task_system_schedule (fuel : Nat) (type : Option Sched) (woken : List Ptr) : M Unit := do
  settle fuel type
  let s ← context
  if s.total_task_count = 0 then modify fun s => { s with current_task := none, pc := .main }
  else hev_task_system_pick_current_task fuel woken

def hev_task_system_run_new_task (fuel : Nat) (t : Ptr) : M Unit := do
  let s ← context
  onlyIf s.current_task.isSome do
    let least ← hev_task_system_get_min_sched_key
    modifyTask t fun k => { k with sched_key := k.sched_key + least }
  hev_task_system_insert_task fuel t
  modify fun s => { s with total_task_count := s.total_task_count + 1 }

def hev_task_run (fuel : Nat) (t : Ptr) : M Unit := do
  let k ← load t
  onlyIf (k.state = .stopped) do
    modifyTask t fun k => { k with priority := k.next_priority, sched_key := keyOf k.next_priority }
    hev_task_system_run_new_task fuel t

/-- A new task where `hev_malloc0` puts it. -/
def hev_task_new (t : Ptr) : M Unit := modify fun s =>
  { s with
    tasks := Function.update s.tasks t (some ⟨0, 1, 0, HEV_TASK_PRIORITY_DEFAULT, .stopped⟩)
    running_tasks := { s.running_tasks with
      base := { s.running_tasks.base with
        mem := Function.update s.running_tasks.base.mem t (some ⟨none, .red, none, none⟩) } } }

/-- The bounds of `hev_task_set_priority`. -/
def clamp (priority : Int) : Priority :=
  if priority < 0 then 0
  else if h : priority > HEV_TASK_PRIORITY_MAX then Fin.last _
  else ⟨priority.toNat, by omega⟩

def hev_task_set_priority (t : Ptr) (priority : Int) : M Unit :=
  modifyTask t fun k => { k with next_priority := clamp priority }

/-- The calls of the program, and what comes back from the poll. -/
inductive Action
  | new (t : Ptr)
  | ref (t : Ptr)
  | unref (t : Ptr)
  | set_priority (t : Ptr) (priority : Int)
  | run (t : Ptr)
  | wakeup (t : Ptr)
  | start (woken : List Ptr)
  | yield (type : Sched) (woken : List Ptr)
  | poll (woken : List Ptr)

def exec (fuel : Nat) : Action → M Unit
  | .new t => hev_task_new t
  | .ref t => hev_task_ref t
  | .unref t => hev_task_unref t
  | .set_priority t priority => hev_task_set_priority t priority
  | .run t => hev_task_run fuel t
  | .wakeup t => hev_task_system_wakeup_task_with_context fuel t
  | .start woken => hev_task_system_schedule fuel none woken
  | .yield type woken => hev_task_system_schedule fuel (some type) woken
  | .poll woken => hev_task_system_pick_current_task fuel woken

/-- The tree operations take no more steps than the levels of a tree of all tasks. -/
def perform (a : Action) : M Unit := fun s => exec (levels s.total_task_count + 1) a s

/-- The task is known to the scheduler. -/
def Alive (s : HevTaskSystemContext) (t : Ptr) : Prop := ∃ k, s.tasks t = some k ∧ k.state ≠ .stopped

/-- What the program keeps to: it names tasks that it holds, gives up only references of its own, wakes no
task that has ended, and an ended task has no descriptor in the poll. -/
def Allowed (s : HevTaskSystemContext) : Action → Prop
  | .new t => s.pc ≠ .polling ∧ s.tasks t = none ∧ s.running_tasks.base.mem t = none
  | .ref t | .set_priority t _ | .run t => s.pc ≠ .polling ∧ (s.tasks t).isSome
  | .unref t => s.pc ≠ .polling ∧ ∃ k, s.tasks t = some k ∧ (k.state = .stopped ∨ 1 < k.ref_count)
  | .wakeup t => s.pc ≠ .polling ∧ Alive s t
  | .start woken => s.pc = .main ∧ ∀ t ∈ woken, Alive s t
  | .yield type woken => s.pc = .task ∧ ∀ t ∈ woken, Alive s t ∧ (type = .remove → s.current_task ≠ some t)
  | .poll woken => s.pc = .polling ∧ ∀ t ∈ woken, Alive s t

def Step (s : HevTaskSystemContext) (a : Action) (t : HevTaskSystemContext) : Prop :=
  Allowed s a ∧ perform a s = some ((), t)

/-- After `hev_task_system_init`. -/
def hev_task_system_init : HevTaskSystemContext :=
  ⟨0, 0, none, ⟨⟨none, fun _ => none⟩, none⟩, fun _ => none, .main⟩

def Initial (s : HevTaskSystemContext) : Prop := s = hev_task_system_init

/-- The context behind an action. -/
def next (s : HevTaskSystemContext) (a : Action) : HevTaskSystemContext := ((perform a s).map Prod.snd).getD s

end XTunnel.TaskSystem
