import Mathlib.Algebra.Ring.Nat
import Mathlib.Data.List.Perm.Basic
import XTunnel.Transition

/-! `ServerTester.testAllProfiles` with a callback: the loop of the caller, the tasks on the pool of
four threads and the queue of the main thread. -/
namespace XTunnel.Service.TestAll

def LATENCY_TESTING : Int := -2
def LATENCY_TIMEOUT : Int := -1

/-- The threads of `newFixedThreadPool`. -/
def poolSize : Nat := 4

/-- Where a task stands: behind the test its `latency` is known, and the `last` to finish goes on to
the tunnel's own test. -/
inductive Phase
  | testing
  | tested (latency : Int)
  | counted (latency : Int)
  | posted (latency : Int)
  | last (latency : Int)
  | measured (latency currentLatency : Int)
  | returned (latency : Int) (wasLast : Bool)

/-- A lambda that `mainHandler` has yet to run. -/
inductive Message (Id : Type*)
  | onProgress (id : Id) (latency : Int)
  | onComplete (currentLatency : Int)

/-- A call of the callback. -/
inductive Call (Id : Type*)
  | onProgress (profileId : Id) (latencyMs : Int)
  | onComplete (totalCount availableCount failCount : Nat) (currentConnLatency : Int)

/-- `testAllProfiles` calls back from its own thread before it hands a task over. -/
inductive Thread
  | caller
  | main
  deriving DecidableEq

structure Task (Id : Type*) where
  id : Id
  phase : Phase

structure State (Id : Type*) where
  /-- What the loop has yet to hand over, and whether the first of it is marked as being tested. -/
  ids : List Id
  marked : Bool
  queue : List Id
  tasks : List (Task Id)
  completed : Nat
  available : Nat
  failed : Nat
  messages : List (Message Id)
  calls : List (Thread × Call Id)

inductive Action
  | mark
  | execute
  | start
  | test (latency : Int)
  | count
  | post
  | complete
  | measure (currentLatency : Int)
  | postComplete
  | handle

variable {Id : Type*}

/-- For an empty list the completion is posted at once. -/
def start (profileIds : List Id) : State Id where
  ids := profileIds
  marked := false
  queue := []
  tasks := []
  completed := 0
  available := 0
  failed := 0
  messages := if profileIds.isEmpty then [.onComplete LATENCY_TIMEOUT] else []
  calls := []

namespace Task

def running (t : Task Id) : Bool :=
  match t.phase with
  | .returned .. => false
  | _ => true

/-- The latency that the task has counted as available or failed. -/
def counted (t : Task Id) : Option Int :=
  match t.phase with
  | .testing | .tested _ => none
  | .counted l | .posted l | .last l | .measured l _ | .returned l _ => some l

/-- What the task has posted. -/
def progress (t : Task Id) : Option (Id × Int) :=
  match t.phase with
  | .testing | .tested _ | .counted _ => none
  | .posted l | .last l | .measured l _ | .returned l _ => some (t.id, l)

/-- The task has counted itself as completed. -/
def finished (t : Task Id) : Bool :=
  match t.phase with
  | .testing | .tested _ | .counted _ | .posted _ => false
  | .last _ | .measured .. | .returned .. => true

/-- The task has found itself to be the last one. -/
def isLast (t : Task Id) : Bool :=
  match t.phase with
  | .last _ | .measured .. | .returned _ true => true
  | _ => false

/-- The task has posted `onComplete`. -/
def reported (t : Task Id) : Bool :=
  match t.phase with
  | .returned _ true => true
  | _ => false

end Task

namespace State

/-- A lambda reads `available` and `failed` when the main thread runs it. -/
def run (total : Nat) (s : State Id) : Message Id → Call Id
  | .onProgress id latency => .onProgress id latency
  | .onComplete currentLatency => .onComplete total s.available s.failed currentLatency

/-- What the handler of the main thread has delivered. -/
def delivered (s : State Id) : List (Call Id) :=
  s.calls.filterMap fun c => if c.1 = .main then some c.2 else none

end State

/-- A task on its own thread changes its place only; `pre` and `post` are the other tasks. -/
inductive Step (total : Nat) (testCurrentTunnel : Bool) : State Id → Action → State Id → Prop
  | mark {s : State Id} {id : Id} {ids : List Id} : s.ids = id :: ids → s.marked = false →
      Step total testCurrentTunnel s .mark { s with
        marked := true
        calls := s.calls ++ [(.caller, .onProgress id LATENCY_TESTING)] }
  | execute {s : State Id} {id : Id} {ids : List Id} : s.ids = id :: ids → s.marked = true →
      Step total testCurrentTunnel s .execute
        { s with ids := ids, marked := false, queue := s.queue ++ [id] }
  | start {s : State Id} {id : Id} {ids : List Id} : s.queue = id :: ids →
      s.tasks.countP Task.running < poolSize →
      Step total testCurrentTunnel s .start
        { s with queue := ids, tasks := s.tasks ++ [⟨id, .testing⟩] }
  | test {s : State Id} {pre post : List (Task Id)} {id : Id} (l : Int) :
      s.tasks = pre ++ ⟨id, .testing⟩ :: post →
      Step total testCurrentTunnel s (.test l) { s with tasks := pre ++ ⟨id, .tested l⟩ :: post }
  | count {s : State Id} {pre post : List (Task Id)} {id : Id} {l : Int} :
      s.tasks = pre ++ ⟨id, .tested l⟩ :: post →
      Step total testCurrentTunnel s .count { s with
        tasks := pre ++ ⟨id, .counted l⟩ :: post
        available := if 0 < l then s.available + 1 else s.available
        failed := if 0 < l then s.failed else s.failed + 1 }
  | post {s : State Id} {pre post : List (Task Id)} {id : Id} {l : Int} :
      s.tasks = pre ++ ⟨id, .counted l⟩ :: post →
      Step total testCurrentTunnel s .post { s with
        tasks := pre ++ ⟨id, .posted l⟩ :: post
        messages := s.messages ++ [.onProgress id l] }
  | complete {s : State Id} {pre post : List (Task Id)} {id : Id} {l : Int} :
      s.tasks = pre ++ ⟨id, .posted l⟩ :: post →
      Step total testCurrentTunnel s .complete { s with
        tasks := pre ++ ⟨id, if s.completed + 1 = total then .last l else .returned l false⟩ :: post
        completed := s.completed + 1 }
  | measure {s : State Id} {pre post : List (Task Id)} {id : Id} {l : Int} (c : Int) :
      s.tasks = pre ++ ⟨id, .last l⟩ :: post →
      (testCurrentTunnel = false → c = LATENCY_TIMEOUT) →
      Step total testCurrentTunnel s (.measure c)
        { s with tasks := pre ++ ⟨id, .measured l c⟩ :: post }
  | postComplete {s : State Id} {pre post : List (Task Id)} {id : Id} {l c : Int} :
      s.tasks = pre ++ ⟨id, .measured l c⟩ :: post →
      Step total testCurrentTunnel s .postComplete { s with
        tasks := pre ++ ⟨id, .returned l true⟩ :: post
        messages := s.messages ++ [.onComplete c] }
  | handle {s : State Id} {m : Message Id} {ms : List (Message Id)} : s.messages = m :: ms →
      Step total testCurrentTunnel s .handle
        { s with messages := ms, calls := s.calls ++ [(.main, s.run total m)] }

variable {total : Nat} {testCurrentTunnel : Bool} {profileIds : List Id} {s t : State Id}
  {a : Action} {xs : List Action}

/-- The calls of `onProgress` that the main thread makes for posted results. -/
def progressCalls (finals : List (Id × Int)) : List (Call Id) :=
  finals.map fun f => .onProgress f.1 f.2

/-- The latency of the last `onProgress` for a profile, whichever thread called it. -/
def finalLatency [DecidableEq Id] (calls : List (Thread × Call Id)) (id : Id) : Option Int :=
  calls.reverse.findSome? fun c =>
    match c.2 with
    | .onProgress i l => if i = id then some l else none
    | .onComplete .. => none

/-- The main thread has delivered a final latency for each profile and then one completion, whose
numbers are those of the final latencies. -/
def Reported [DecidableEq Id] (profileIds : List Id) (s : State Id) : Prop :=
  ∃ (finals : List (Id × Int)) (available failed : Nat) (c : Int),
    s.delivered = progressCalls finals ++ [.onComplete profileIds.length available failed c] ∧
    (finals.map Prod.fst).Perm profileIds ∧
    available + failed = profileIds.length ∧
    available = finals.countP (0 < ·.2) ∧
    (profileIds.Nodup → ∀ f ∈ finals, finalLatency s.calls f.1 = some f.2)

/-! ### The steps that are left -/

/-- The steps a task has left, with the delivery of its result. -/
def Task.rest (t : Task Id) : Nat :=
  match t.phase with
  | .testing => 5
  | .tested _ => 4
  | .counted _ => 3
  | .posted _ => 1
  | .last _ => 3
  | .measured .. => 2
  | .returned .. => 0

def remaining (total : Nat) (s : State Id) : Nat :=
  8 * s.ids.length - (if s.marked then 1 else 0) + 6 * s.queue.length +
    (s.tasks.map Task.rest).sum + s.messages.length + if s.completed < total then 3 else 0

theorem step_remaining (h : Step total testCurrentTunnel s a t) :
    remaining total t + 1 = remaining total s := by
  cases h with
  | mark hi hm | execute hi hm =>
    simp only [remaining, hi, hm, List.length_cons, List.length_append, List.length_nil]
    simp
    omega
  | start hq =>
    simp [remaining, hq, Task.rest]
    omega
  | test l ht | count ht | post ht | measure c ht _ | postComplete ht =>
    simp [remaining, ht, Task.rest]
    omega
  | complete ht =>
    simp only [remaining, ht, Task.rest, List.map_append, List.map_cons, List.sum_append,
      List.sum_cons]
    split_ifs <;> simp <;> omega
  | handle hm =>
    simp [remaining, hm]
    omega

theorem run_remaining (h : Run (Step total testCurrentTunnel) s xs t) :
    xs.length + remaining total t = remaining total s := by
  induction h with
  | refl => exact Nat.zero_add _
  | stepL hs _ ih =>
    have hr := step_remaining hs
    rw [List.length_cons]
    omega

theorem remaining_start (hne : profileIds ≠ []) :
    remaining profileIds.length (start profileIds) = 8 * profileIds.length + 3 := by
  have hl := List.length_pos_iff.mpr hne
  simp [remaining, start, hne, hl]

/-! ### The counters -/

/-- What the loop, the queue and the tasks hold, and what the tasks have counted. -/
structure Tallied (profileIds : List Id) (s : State Id) : Prop where
  ids : s.tasks.map Task.id ++ s.queue ++ s.ids = profileIds
  available : s.available = (s.tasks.filterMap Task.counted).countP (0 < ·)
  failed : s.failed = (s.tasks.filterMap Task.counted).countP (¬ 0 < ·)
  completed : s.completed = s.tasks.countP Task.finished
  last : s.tasks.countP Task.isLast = if s.completed = profileIds.length then 1 else 0

theorem tallied_start (hne : profileIds ≠ []) : Tallied profileIds (start profileIds) := by
  refine ⟨rfl, rfl, rfl, rfl, ?_⟩
  rw [if_neg]
  · rfl
  · intro h
    exact hne (List.length_eq_zero_iff.mp h.symm)

/-- A task that moves without counting anything leaves the tallies. -/
theorem Tallied.move {pre post : List (Task Id)} {u v : Task Id} {ms : List (Message Id)}
    (hs : Tallied profileIds s) (ht : s.tasks = pre ++ u :: post) (hi : v.id = u.id)
    (hc : v.counted = u.counted) (hf : v.finished = u.finished) (hl : v.isLast = u.isLast) :
    Tallied profileIds { s with tasks := pre ++ v :: post, messages := ms } := by
  obtain ⟨hids, ha, hb, hd, hlast⟩ := hs
  rw [ht] at hids ha hb hd hlast
  refine ⟨?_, ?_, ?_, ?_, ?_⟩
  · simpa [hi] using hids
  · simpa only [List.filterMap_append, List.filterMap_cons, hc] using ha
  · simpa only [List.filterMap_append, List.filterMap_cons, hc] using hb
  · simpa only [List.countP_append, List.countP_cons, hf] using hd
  · simpa only [List.countP_append, List.countP_cons, hl] using hlast

theorem tallied_step (h : Step profileIds.length testCurrentTunnel s a t)
    (hs : Tallied profileIds s) : Tallied profileIds t := by
  cases h with
  | mark _ _ => exact ⟨hs.ids, hs.available, hs.failed, hs.completed, hs.last⟩
  | execute hids _ =>
    refine ⟨?_, hs.available, hs.failed, hs.completed, hs.last⟩
    have hi := hs.ids
    rw [hids] at hi
    simpa using hi
  | start hq _ =>
    obtain ⟨hi, ha, hf, hc, hl⟩ := hs
    rw [hq] at hi
    refine ⟨by simpa using hi, ?_, ?_, ?_, ?_⟩
    · simpa [List.filterMap_cons, Task.counted] using ha
    · simpa [List.filterMap_cons, Task.counted] using hf
    · simpa [List.countP_cons, Task.finished] using hc
    · simpa [List.countP_cons, Task.isLast] using hl
  | test l ht | post ht | measure c ht _ | postComplete ht => exact hs.move ht rfl rfl rfl rfl
  | @count pre post id l ht =>
    obtain ⟨hi, ha, hf, hc, hl⟩ := hs
    rw [ht] at hi ha hf hc hl
    refine ⟨by simpa using hi, ?_, ?_, ?_, ?_⟩
    · simp only [List.filterMap_append, List.filterMap_cons, Task.counted, List.countP_append,
        List.countP_cons] at ha ⊢
      by_cases hpos : 0 < l <;> simp [hpos] <;> omega
    · simp only [List.filterMap_append, List.filterMap_cons, Task.counted, List.countP_append,
        List.countP_cons] at hf ⊢
      by_cases hpos : 0 < l <;> simp [hpos] at hf ⊢ <;> omega
    · simpa [List.countP_cons, Task.finished] using hc
    · simpa [List.countP_cons, Task.isLast] using hl
  | @complete pre post id l ht =>
    obtain ⟨hi, ha, hf, hc, hl⟩ := hs
    rw [ht] at hi ha hf hc hl
    have hlen := congrArg List.length hi
    have hpre : pre.countP Task.finished ≤ pre.length := List.countP_le_length
    have hpost : post.countP Task.finished ≤ post.length := List.countP_le_length
    simp only [List.length_append, List.length_map, List.length_cons] at hlen
    simp only [List.countP_append, List.countP_cons, Task.finished, Task.isLast,
      Bool.false_eq_true, if_false, Nat.add_zero] at hc hl
    -- the one that reaches the total is the first last one, since one task was still unfinished
    by_cases heq : s.completed + 1 = profileIds.length
    · rw [if_neg (by omega)] at hl
      refine ⟨by simpa using hi, ?_, ?_, ?_, ?_⟩
      · simpa [heq, List.filterMap_cons, Task.counted] using ha
      · simpa [heq, List.filterMap_cons, Task.counted] using hf
      · simp [heq, List.countP_cons, Task.finished]
        omega
      · simp [heq, List.countP_cons, Task.isLast]
        omega
    · rw [if_neg (by omega)] at hl
      refine ⟨by simpa using hi, ?_, ?_, ?_, ?_⟩
      · simpa [heq, List.filterMap_cons, Task.counted] using ha
      · simpa [heq, List.filterMap_cons, Task.counted] using hf
      · simp [heq, List.countP_cons, Task.finished]
        omega
      · simpa [heq, List.countP_cons, Task.isLast] using hl
  | handle _ => exact ⟨hs.ids, hs.available, hs.failed, hs.completed, hs.last⟩

/-- When all tasks have completed, nothing is left to start and each has its latency. -/
theorem Tallied.all_finished (hs : Tallied profileIds s) (hc : s.completed = profileIds.length) :
    s.tasks.map Task.id = profileIds ∧ ∀ t ∈ s.tasks, t.finished = true := by
  have hlen := congrArg List.length hs.ids
  have hle : s.tasks.countP Task.finished ≤ s.tasks.length := List.countP_le_length
  have hd := hs.completed
  simp only [List.length_append, List.length_map] at hlen
  have hq : s.queue = [] := List.length_eq_zero_iff.mp (by omega)
  have hi : s.ids = [] := List.length_eq_zero_iff.mp (by omega)
  refine ⟨by simpa [hq, hi] using hs.ids, ?_⟩
  exact List.countP_eq_length.mp (by omega)

theorem finished_ids {ts : List (Task Id)} (h : ∀ t ∈ ts, t.finished = true) :
    (ts.filterMap Task.progress).map Prod.fst = ts.map Task.id := by
  induction ts with
  | nil => rfl
  | cons t ts ih =>
    have ht := h t List.mem_cons_self
    have hts := ih fun u hu => h u (List.mem_cons_of_mem _ hu)
    obtain ⟨id, phase⟩ := t
    cases phase <;> simp_all [Task.finished, Task.progress]

theorem finished_counted {ts : List (Task Id)} (h : ∀ t ∈ ts, t.finished = true) :
    ts.filterMap Task.counted = (ts.filterMap Task.progress).map Prod.snd := by
  induction ts with
  | nil => rfl
  | cons t ts ih =>
    have ht := h t List.mem_cons_self
    have hts := ih fun u hu => h u (List.mem_cons_of_mem _ hu)
    obtain ⟨id, phase⟩ := t
    cases phase <;> simp_all [Task.finished, Task.progress, Task.counted]

theorem isLast_of_reported {t : Task Id} (h : t.reported = true) : t.isLast = true := by
  obtain ⟨id, phase⟩ := t
  cases phase with
  | returned l wasLast =>
    cases wasLast
    · cases h
    · rfl
  | _ => cases h

theorem reported_le_isLast (ts : List (Task Id)) :
    ts.countP Task.reported ≤ ts.countP Task.isLast :=
  List.countP_mono_left fun _ _ h => isLast_of_reported h

/-- While a task is unfinished none has posted the completion. -/
theorem Tallied.unreported {u : Task Id} (hs : Tallied profileIds s) (hu : u ∈ s.tasks)
    (hf : u.finished = false) : s.tasks.countP Task.reported = 0 := by
  have hle := reported_le_isLast s.tasks
  have hl := hs.last
  by_cases hc : s.completed = profileIds.length
  · have hall := (hs.all_finished hc).2 u hu
    rw [hf] at hall
    cases hall
  · rw [if_neg hc] at hl
    omega

/-! ### The queue of the main thread -/

/-- Results that wait on the queue of the main thread. -/
def progressMessages (waiting : List (Id × Int)) : List (Message Id) :=
  waiting.map fun f => .onProgress f.1 f.2

/-- Before the completion is posted, while it waits behind all results, and once it is delivered. -/
inductive Stage (profileIds : List Id) (s : State Id) : Prop
  | testing (done waiting : List (Id × Int)) :
      s.delivered = progressCalls done → s.messages = progressMessages waiting →
      (done ++ waiting).Perm (s.tasks.filterMap Task.progress) →
      s.tasks.countP Task.reported = 0 → Stage profileIds s
  | completing (done waiting : List (Id × Int)) (c : Int) :
      s.delivered = progressCalls done →
      s.messages = progressMessages waiting ++ [.onComplete c] →
      (done ++ waiting).Perm (s.tasks.filterMap Task.progress) →
      s.tasks.countP Task.reported = 1 → Stage profileIds s
  | reported (done : List (Id × Int)) (c : Int) :
      s.delivered = progressCalls done ++ [.onComplete profileIds.length
        (done.countP (0 < ·.2)) (done.countP (¬ 0 < ·.2)) c] → s.messages = [] →
      done.Perm (s.tasks.filterMap Task.progress) →
      s.tasks.countP Task.reported = 1 → Stage profileIds s

theorem stage_start (hne : profileIds ≠ []) : Stage profileIds (start profileIds) :=
  .testing [] [] rfl (by simp [start, hne, progressMessages]) (List.Perm.refl _) rfl

/-- The stage rests on the callbacks, the queue and what the tasks have posted. -/
theorem Stage.frame (hs : Stage profileIds s) (hd : t.delivered = s.delivered)
    (hm : t.messages = s.messages)
    (hp : t.tasks.filterMap Task.progress = s.tasks.filterMap Task.progress)
    (hr : t.tasks.countP Task.reported = s.tasks.countP Task.reported) : Stage profileIds t := by
  cases hs with
  | testing done waiting h₁ h₂ h₃ h₄ =>
    exact .testing done waiting (hd.trans h₁) (hm.trans h₂) (hp ▸ h₃) (hr.trans h₄)
  | completing done waiting c h₁ h₂ h₃ h₄ =>
    exact .completing done waiting c (hd.trans h₁) (hm.trans h₂) (hp ▸ h₃) (hr.trans h₄)
  | reported done c h₁ h₂ h₃ h₄ =>
    exact .reported done c (hd.trans h₁) (hm.trans h₂) (hp ▸ h₃) (hr.trans h₄)

/-- What the counters hold when the completion is delivered. -/
theorem Tallied.counts {finals : List (Id × Int)} (hs : Tallied profileIds s)
    (hc : s.completed = profileIds.length)
    (hp : finals.Perm (s.tasks.filterMap Task.progress)) :
    s.available = finals.countP (0 < ·.2) ∧ s.failed = finals.countP (¬ 0 < ·.2) := by
  have hcounted := finished_counted (hs.all_finished hc).2
  constructor
  · rw [hs.available, hcounted, List.countP_map, hp.countP_eq]
    rfl
  · rw [hs.failed, hcounted, List.countP_map, hp.countP_eq]
    rfl

theorem Tallied.completed_of_reported (hs : Tallied profileIds s)
    (hr : s.tasks.countP Task.reported = 1) : s.completed = profileIds.length := by
  by_contra hc
  have hle := reported_le_isLast s.tasks
  have hl := hs.last
  rw [if_neg hc] at hl
  omega

theorem delivered_handle (ms : List (Message Id)) (c : Call Id) :
    State.delivered { s with messages := ms, calls := s.calls ++ [(.main, c)] } =
      s.delivered ++ [c] := by
  simp [State.delivered]

theorem stage_step (h : Step profileIds.length testCurrentTunnel s a t)
    (hs : Tallied profileIds s) (hst : Stage profileIds s) : Stage profileIds t := by
  cases h with
  | mark _ _ => exact hst.frame (by simp [State.delivered]) rfl rfl rfl
  | execute _ _ => exact hst.frame rfl rfl rfl rfl
  | start _ _ =>
    exact hst.frame rfl rfl (by simp [List.filterMap_cons, Task.progress])
      (by simp [Task.reported])
  | test l ht | count ht | measure c ht _ =>
    exact hst.frame rfl rfl (by simp [ht, List.filterMap_cons, Task.progress])
      (by simp [ht, Task.reported])
  | complete ht =>
    refine hst.frame rfl rfl ?_ ?_
    · simp only [ht, List.filterMap_append, List.filterMap_cons, Task.progress]
      split_ifs <;> rfl
    · simp only [ht, List.countP_append, List.countP_cons, Task.reported]
      split_ifs <;> rfl
  | @post pre post id l ht =>
    have hr := hs.unreported (by rw [ht]; exact List.mem_append_right _ List.mem_cons_self) rfl
    cases hst with
    | testing done waiting hd hm hp _ =>
      refine .testing done (waiting ++ [(id, l)]) hd (by simp [hm, progressMessages]) ?_ ?_
      · rw [ht] at hp
        simp only [List.filterMap_append, List.filterMap_cons, Task.progress] at hp ⊢
        rw [← List.append_assoc]
        exact (hp.append_right _).trans (by
          simpa using (List.perm_append_singleton (id, l) _).append_left _)
      · simpa [ht, List.countP_cons, Task.reported] using hr
    | completing done waiting c hd hm hp h₁ => omega
    | reported done c hd hm hp h₁ => omega
  | @postComplete pre post id l c ht =>
    -- the last one is alone, so no other has reported before it
    have hle := reported_le_isLast pre
    have hle' := reported_le_isLast post
    have hl := hs.last
    have hr : pre.countP Task.reported + post.countP Task.reported = 0 := by
      simp only [ht, List.countP_append, List.countP_cons, Task.isLast, if_true] at hl
      split_ifs at hl
      · omega
    cases hst with
    | testing done waiting hd hm hp _ =>
      refine .completing done waiting c hd (by simp [hm]) ?_ ?_
      · rw [ht] at hp
        simpa only [List.filterMap_append, List.filterMap_cons, Task.progress] using hp
      · simp [List.countP_cons, Task.reported]
        omega
    | completing done waiting c hd hm hp h₁ =>
      simp [ht, Task.reported] at h₁
      omega
    | reported done c hd hm hp h₁ =>
      simp [ht, Task.reported] at h₁
      omega
  | @handle m ms hmsg =>
    cases hst with
    | testing done waiting hd hm hp hr =>
      rw [hmsg] at hm
      cases waiting with
      | nil => cases hm
      | cons f waiting =>
        obtain ⟨rfl, rfl⟩ := List.cons.inj hm
        refine .testing (done ++ [f]) waiting ?_ rfl (by simpa using hp) hr
        rw [delivered_handle, hd]
        simp [progressCalls, State.run]
    | completing done waiting c hd hm hp hr =>
      rw [hmsg] at hm
      cases waiting with
      | nil =>
        obtain ⟨rfl, rfl⟩ := List.cons.inj hm
        rw [List.append_nil] at hp
        obtain ⟨ha, hf⟩ := hs.counts (hs.completed_of_reported hr) hp
        refine .reported done c ?_ rfl hp hr
        rw [delivered_handle, hd, ← ha, ← hf]
        rfl
      | cons f waiting =>
        obtain ⟨rfl, rfl⟩ := List.cons.inj hm
        refine .completing (done ++ [f]) waiting c ?_ rfl (by simpa using hp) hr
        rw [delivered_handle, hd]
        simp [progressCalls, State.run]
    | reported done c hd hm hp hr =>
      rw [hmsg] at hm
      cases hm

/-! ### The final latency of a profile -/

theorem finalLatency_progress [DecidableEq Id] (calls : List (Thread × Call Id)) (th : Thread)
    (i id : Id) (l : Int) :
    finalLatency (calls ++ [(th, .onProgress i l)]) id =
      if i = id then some l else finalLatency calls id := by
  unfold finalLatency
  rw [List.reverse_append]
  by_cases h : i = id <;> simp [h]

theorem finalLatency_complete [DecidableEq Id] (calls : List (Thread × Call Id)) (th : Thread)
    (n a f : Nat) (c : Int) (id : Id) :
    finalLatency (calls ++ [(th, .onComplete n a f c)]) id = finalLatency calls id := by
  unfold finalLatency
  rw [List.reverse_append]
  simp

/-- No call of `onProgress` for a profile follows its result. -/
def Final [DecidableEq Id] (s : State Id) : Prop :=
  ∀ f : Id × Int, .onProgress f.1 f.2 ∈ s.delivered → finalLatency s.calls f.1 = some f.2

theorem mem_progressCalls {done : List (Id × Int)} {f : Id × Int} :
    Call.onProgress f.1 f.2 ∈ progressCalls done ↔ f ∈ done := by
  simp [progressCalls]

theorem mem_progress {ts : List (Task Id)} {f : Id × Int} (h : f ∈ ts.filterMap Task.progress) :
    f.1 ∈ ts.map Task.id := by
  obtain ⟨⟨id, phase⟩, ht, hp⟩ := List.mem_filterMap.mp h
  refine List.mem_map.mpr ⟨_, ht, ?_⟩
  cases phase <;> simp_all [Task.progress] <;> rw [← hp]

theorem Stage.mem (hs : Stage profileIds s) {f : Id × Int}
    (h : .onProgress f.1 f.2 ∈ s.delivered) : f.1 ∈ s.tasks.map Task.id := by
  cases hs with
  | testing done waiting hd _ hp _ | completing done waiting c hd _ hp _ =>
    rw [hd, mem_progressCalls] at h
    exact mem_progress (hp.subset (List.mem_append_left _ h))
  | reported done c hd _ hp _ =>
    rw [hd, List.mem_append, mem_progressCalls] at h
    rcases h with h | h
    · exact mem_progress (hp.subset h)
    · simp at h

theorem progress_nodup {ts : List (Task Id)} (h : (ts.map Task.id).Nodup) :
    ((ts.filterMap Task.progress).map Prod.fst).Nodup := by
  refine h.sublist ?_
  induction ts with
  | nil => exact List.Sublist.refl _
  | cons t ts ih =>
    have hts := ih (List.nodup_cons.mp h).2
    obtain ⟨id, phase⟩ := t
    cases phase <;> simp [List.filterMap_cons, Task.progress, hts, List.Sublist.cons]

/-- A result that waits is of a profile without a delivered one. -/
theorem Stage.fresh (hs : Stage profileIds s) (hn : (s.tasks.map Task.id).Nodup) {i : Id}
    {l : Int} {ms : List (Message Id)} (hm : s.messages = .onProgress i l :: ms) {f : Id × Int}
    (h : .onProgress f.1 f.2 ∈ s.delivered) : i ≠ f.1 := by
  have hnodup := progress_nodup hn
  have hdisjoint {done waiting : List (Id × Int)}
      (hp : (done ++ (i, l) :: waiting).Perm (s.tasks.filterMap Task.progress)) (hf : f ∈ done) :
      i ≠ f.1 := by
    rw [← (hp.map Prod.fst).nodup_iff, List.map_append] at hnodup
    exact fun he => (List.nodup_append.mp hnodup).2.2 _ (List.mem_map_of_mem hf) _
      (List.mem_map_of_mem List.mem_cons_self) he.symm
  cases hs with
  | testing done waiting hd hmsg hp _ =>
    rw [hd, mem_progressCalls] at h
    rw [hm] at hmsg
    cases waiting with
    | nil => cases hmsg
    | cons w waiting =>
      cases hmsg
      exact hdisjoint hp h
  | completing done waiting c hd hmsg hp _ =>
    rw [hd, mem_progressCalls] at h
    rw [hm] at hmsg
    cases waiting with
    | nil => cases hmsg
    | cons w waiting =>
      cases hmsg
      exact hdisjoint hp h
  | reported done c hd hmsg _ _ =>
    rw [hm] at hmsg
    cases hmsg

theorem final_step [DecidableEq Id] (h : Step profileIds.length testCurrentTunnel s a t)
    (hn : profileIds.Nodup) (hs : Tallied profileIds s) (hst : Stage profileIds s)
    (hf : Final s) : Final t := by
  have hids := hs.ids ▸ hn
  have htasks : (s.tasks.map Task.id).Nodup :=
    (List.nodup_append.mp (List.nodup_append.mp hids).1).1
  cases h with
  | @mark id ids hi _ =>
    intro f hcalled
    have hmem : .onProgress f.1 f.2 ∈ s.delivered := by simpa [State.delivered] using hcalled
    -- a profile that is still in the loop has no task
    have hne : id ≠ f.1 := by
      intro he
      subst he
      refine (List.nodup_append.mp hids).2.2 _ (List.mem_append_left _ (hst.mem hmem)) f.1 ?_ rfl
      rw [hi]
      exact List.mem_cons_self
    change finalLatency (s.calls ++ [_]) f.1 = _
    rw [finalLatency_progress, if_neg hne]
    exact hf f hmem
  | @handle m ms hm =>
    intro f hmem
    rw [delivered_handle] at hmem
    change finalLatency (s.calls ++ [_]) f.1 = _
    cases m with
    | onProgress i l =>
      simp only [State.run] at hmem ⊢
      rw [finalLatency_progress]
      rcases List.mem_append.mp hmem with hmem | hmem
      · rw [if_neg (hst.fresh htasks hm hmem)]
        exact hf f hmem
      · simp only [List.mem_singleton, Call.onProgress.injEq] at hmem
        rw [if_pos hmem.1.symm, hmem.2]
    | onComplete c =>
      simp only [State.run] at hmem ⊢
      rw [finalLatency_complete]
      rcases List.mem_append.mp hmem with hmem | hmem
      · exact hf f hmem
      · simp at hmem
  | _ => exact hf

/-! ### Whole runs -/

/-- What holds throughout: the tallies, the stage and, without repetitions, the final latencies. -/
structure Inv [DecidableEq Id] (profileIds : List Id) (s : State Id) : Prop where
  tallied : Tallied profileIds s
  stage : Stage profileIds s
  final : profileIds.Nodup → Final s

theorem inv_start [DecidableEq Id] (hne : profileIds ≠ []) : Inv profileIds (start profileIds) := by
  refine ⟨tallied_start hne, stage_start hne, ?_⟩
  rintro - f hf
  cases hf

theorem inv_preserved [DecidableEq Id] :
    Preserves (Step profileIds.length testCurrentTunnel) (Inv profileIds) := by
  intro s a t h hs
  exact ⟨tallied_step h hs.tallied, stage_step h hs.tallied hs.stage,
    fun hn => final_step h hn hs.tallied hs.stage (hs.final hn)⟩

/-- A task that runs has a step to make. -/
theorem task_step {u : Task Id} (hu : u ∈ s.tasks) (hr : u.running = true) :
    ∃ a t, Step total testCurrentTunnel s a t := by
  obtain ⟨pre, post, ht⟩ := List.append_of_mem hu
  obtain ⟨id, phase⟩ := u
  cases phase with
  | testing => exact ⟨_, _, .test 0 ht⟩
  | tested l => exact ⟨_, _, .count ht⟩
  | counted l => exact ⟨_, _, .post ht⟩
  | posted l => exact ⟨_, _, .complete ht⟩
  | last l => exact ⟨_, _, .measure LATENCY_TIMEOUT ht fun _ => rfl⟩
  | measured l c => exact ⟨_, _, .postComplete ht⟩
  | returned l wasLast => cases hr

/-- Where nothing can move, the loop and the queues are empty and every task has returned. -/
theorem stuck_idle (h : ∀ a t, ¬ Step total testCurrentTunnel s a t) :
    s.ids = [] ∧ s.queue = [] ∧ s.messages = [] ∧ ∀ u ∈ s.tasks, u.running = false := by
  have hrun : ∀ u ∈ s.tasks, u.running = false := by
    intro u hu
    cases hr : u.running with
    | false => rfl
    | true =>
      obtain ⟨a, t, hs⟩ := task_step hu hr
      exact (h a t hs).elim
  refine ⟨?_, ?_, ?_, hrun⟩
  · cases hi : s.ids with
    | nil => rfl
    | cons id ids =>
      cases hm : s.marked with
      | false => exact (h _ _ (.mark hi hm)).elim
      | true => exact (h _ _ (.execute hi hm)).elim
  · cases hq : s.queue with
    | nil => rfl
    | cons id ids =>
      have hidle : s.tasks.countP Task.running = 0 := by
        refine List.countP_eq_zero.mpr ?_
        intro u hu
        rw [hrun u hu]
        exact Bool.false_ne_true
      exact (h _ _ (.start hq (by rw [hidle]; decide))).elim
  · cases hm : s.messages with
    | nil => rfl
    | cons m ms => exact (h _ _ (.handle hm)).elim

/-- Where nothing can move, the last task has posted the completion. -/
theorem Tallied.of_stuck (hs : Tallied profileIds s)
    (h : ∀ a t, ¬ Step profileIds.length testCurrentTunnel s a t) :
    s.tasks.countP Task.reported = 1 := by
  obtain ⟨hi, hq, -, hrun⟩ := stuck_idle h
  have hids := hs.ids
  rw [hi, hq, List.append_nil, List.append_nil] at hids
  have hfin : s.tasks.countP Task.finished = s.tasks.length := by
    refine List.countP_eq_length.mpr ?_
    intro u hu
    have hr := hrun u hu
    obtain ⟨id, phase⟩ := u
    cases phase <;> first | rfl | cases hr
  have hc : s.completed = profileIds.length := by
    rw [hs.completed, hfin, ← hids, List.length_map]
  have hl := hs.last
  rw [if_pos hc] at hl
  rw [← hl]
  refine List.countP_congr ?_
  intro u hu
  have hr := hrun u hu
  obtain ⟨id, phase⟩ := u
  cases phase with
  | returned l wasLast => cases wasLast <;> rfl
  | _ => cases hr

theorem Inv.reported [DecidableEq Id] (hs : Inv profileIds s) {done : List (Id × Int)} {c : Int}
    (hd : s.delivered = progressCalls done ++ [.onComplete profileIds.length
      (done.countP (0 < ·.2)) (done.countP (¬ 0 < ·.2)) c])
    (hp : done.Perm (s.tasks.filterMap Task.progress))
    (hr : s.tasks.countP Task.reported = 1) : Reported profileIds s := by
  obtain ⟨hids, hfin⟩ := hs.tallied.all_finished (hs.tallied.completed_of_reported hr)
  have hperm : (done.map Prod.fst).Perm profileIds := by
    rw [← hids, ← finished_ids hfin]
    exact hp.map _
  refine ⟨done, _, _, c, hd, hperm, ?_, rfl, ?_⟩
  · have hlen := hperm.length_eq
    rw [List.length_map, List.length_eq_countP_add_countP (0 < ·.2)] at hlen
    simpa using hlen
  · intro hn f hf
    refine hs.final hn f ?_
    rw [hd]
    exact List.mem_append_left _ (mem_progressCalls.mpr hf)

/-- Every run is finite, and each state it passes has delivered no completion or has reported. A run
that cannot go on has reported. -/
theorem testAllProfiles_reports [DecidableEq Id] (hne : profileIds ≠ []) (testCurrentTunnel : Bool)
    (h : Run (Step profileIds.length testCurrentTunnel) (start profileIds) xs s) :
    xs.length ≤ 8 * profileIds.length + 3 ∧
      ((∃ done, s.delivered = progressCalls done) ∨ Reported profileIds s) ∧
      ((∀ a t, ¬ Step profileIds.length testCurrentTunnel s a t) → Reported profileIds s) := by
  have hs := h.invariant inv_preserved (inv_start hne)
  refine ⟨?_, ?_, ?_⟩
  · have hr := run_remaining h
    rw [remaining_start hne] at hr
    omega
  · cases hs.stage with
    | testing done _ hd _ _ _ | completing done _ _ hd _ _ _ => exact Or.inl ⟨done, hd⟩
    | reported done c hd _ hp hr => exact Or.inr (hs.reported hd hp hr)
  · intro hstuck
    have hone := hs.tallied.of_stuck hstuck
    have hidle := (stuck_idle hstuck).2.2.1
    cases hs.stage with
    | testing done waiting _ _ _ hr =>
      rw [hr] at hone
      cases hone
    | completing done waiting c _ hm _ _ =>
      rw [hidle] at hm
      simp at hm
    | reported done c hd _ hp hr => exact hs.reported hd hp hr

/-- A run for two profiles: the test of the second one ends within that of the first, and the first one
is the last to be counted as completed. -/
theorem testAllProfiles_reports_two : ∃ s : State String, Reported ["m", "n"] s := by
  obtain ⟨s, h⟩ : ∃ s, Run (Step ["m", "n"].length false) (start ["m", "n"]) [.mark, .execute, .mark, .start,
      .execute, .start, .test 120, .count, .test (-1), .count, .post, .handle, .complete, .post, .complete,
      .handle, .measure (-1), .postComplete, .handle] s :=
    ⟨_, .stepL (.mark rfl rfl) (.stepL (.execute rfl rfl) (.stepL (.mark rfl rfl)
      (.stepL (.start rfl (by decide)) (.stepL (.execute rfl rfl) (.stepL (.start rfl (by decide))
      (.stepL (@Step.test _ _ _ _ [⟨"m", .testing⟩] [] "n" 120 rfl)
      (.stepL (@Step.count _ _ _ _ [⟨"m", .testing⟩] [] "n" 120 rfl)
      (.stepL (@Step.test _ _ _ _ [] [⟨"n", .counted 120⟩] "m" (-1) rfl)
      (.stepL (@Step.count _ _ _ _ [] [⟨"n", .counted 120⟩] "m" (-1) rfl)
      (.stepL (@Step.post _ _ _ _ [⟨"m", .counted (-1)⟩] [] "n" 120 rfl) (.stepL (.handle rfl)
      (.stepL (@Step.complete _ _ _ _ [⟨"m", .counted (-1)⟩] [] "n" 120 rfl)
      (.stepL (@Step.post _ _ _ _ [] [⟨"n", .returned 120 false⟩] "m" (-1) rfl)
      (.stepL (@Step.complete _ _ _ _ [] [⟨"n", .returned 120 false⟩] "m" (-1) rfl) (.stepL (.handle rfl)
      (.stepL (@Step.measure _ _ _ _ [] [⟨"n", .returned 120 false⟩] "m" (-1) (-1) rfl fun _ => rfl)
      (.stepL (@Step.postComplete _ _ _ _ [] [⟨"n", .returned 120 false⟩] "m" (-1) (-1) rfl)
      (.single (.handle rfl)))))))))))))))))))⟩
  have hr := run_remaining h
  rw [remaining_start (List.cons_ne_nil _ _)] at hr
  refine ⟨s, (testAllProfiles_reports (List.cons_ne_nil _ _) false h).2.2 ?_⟩
  intro a t hs
  have hone := step_remaining hs
  simp only [List.length_cons, List.length_nil] at hr hone
  omega

end XTunnel.Service.TestAll
