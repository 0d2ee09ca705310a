import XTunnel.Profiles.Preferences
import XTunnel.Service.Settings
import XTunnel.Transition

/-! `TProxyService.switchProfile`: the hot switch, its worker threads and the proxy they restart. -/
namespace XTunnel.Service

open Profiles Net

/-- An extra is absent or has a value; the server address may be null. -/
structure SwitchIntent where
  profileId : String
  wssAddr : Option (Option String)
  wsConn : Option Int
  udpBlockPorts : Option String
  echDns : Option String
  echDomain : Option String
  prefIp : Option String
  token : Option String
  disableEch : Option Bool
  ipsPref : Option String
  insecure : Option Bool

/-- What the worker of a request has captured. -/
structure SwitchRequest where
  socksAddr : String
  rawWsAddr : Option String
  wsConn : Int
  udpBlockPorts : String
  echDns : String
  echDomain : String
  prefIp : String
  token : String
  disableEch : Bool
  ipsPref : String
  insecure : Bool

/-- The reads of `switchProfile`: an absent extra is read from a new instance. -/
def switchRequest (intent : SwitchIntent) (localPrefs : Preferences) : SwitchRequest :=
  let id := intent.profileId
  { socksAddr := "0.0.0.0" ++ ":" ++ "1080"
    rawWsAddr := intent.wssAddr.getD (some (localPrefs.getWssAddr id))
    wsConn := intent.wsConn.getD (localPrefs.getWsConn id)
    udpBlockPorts := intent.udpBlockPorts.getD (localPrefs.getUdpBlockPorts id)
    echDns := intent.echDns.getD (localPrefs.getEchDns id)
    echDomain := intent.echDomain.getD (localPrefs.getEchDomain id)
    prefIp := intent.prefIp.getD (localPrefs.getPrefIp id)
    token := intent.token.getD (localPrefs.getToken id)
    disableEch := intent.disableEch.getD (localPrefs.getDisableEch id)
    ipsPref := intent.ipsPref.getD (localPrefs.getIpsPref id)
    insecure := intent.insecure.getD (localPrefs.getInsecure id) }

/-- The text after the first `://`. -/
def afterScheme : List Char → Option (List Char)
  | ':' :: '/' :: '/' :: rest => some rest
  | _ :: s => afterScheme s
  | [] => none

/-- The address of a worker: `wss` is the default scheme, and there is always a path. -/
def normalizeWsAddr (rawWsAddr : Option String) : String :=
  let wsAddr := (rawWsAddr.map trim).getD ""
  let wsAddrLower := wsAddr.toLower.toList
  let wsAddr :=
    if "wss://".toList.isPrefixOf wsAddrLower || "ws://".toList.isPrefixOf wsAddrLower then wsAddr
    else "wss://" ++ wsAddr
  match afterScheme wsAddr.toList with
  | some rest => if rest.contains '/' then wsAddr else wsAddr ++ "/"
  | none => wsAddr

def utf8 (s : String) : Text := s.toUTF8.toList

/-- The arguments with which the worker calls `startSocksProxy`. -/
def SwitchRequest.startArgs (r : SwitchRequest) : StartArgs where
  host := utf8 r.socksAddr
  wsServer := utf8 (normalizeWsAddr r.rawWsAddr)
  n := r.wsConn
  udpBlockPortsStr := utf8 r.udpBlockPorts
  dns := utf8 r.echDns
  ech := utf8 r.echDomain
  ip := utf8 r.prefIp
  tkn := utf8 r.token
  fb := r.disableEch
  ipsPref := utf8 r.ipsPref
  insecureFlag := r.insecure

namespace HotSwitch

/-- Where the worker thread of a request stands. It is waiting until it has the lock. -/
inductive WorkerPc
  | waiting
  | checking
  | stopping
  | rechecking
  | starting
  | started
  | done
deriving DecidableEq

/-- The worker is in the synchronized block. -/
def WorkerPc.inside : WorkerPc → Bool
  | .waiting | .done => false
  | _ => true

/-- The worker is past its first check and has not started its proxy. -/
def WorkerPc.restarting : WorkerPc → Bool
  | .stopping | .rechecking | .starting => true
  | _ => false

structure Worker where
  seq : BitVec 32
  request : SwitchRequest
  pc : WorkerPc

/-- `currentSwitchSeq` is an `int`; `proxy` holds the arguments of the proxy that runs. The workers
stand in the order of their requests. -/
structure State where
  currentSwitchSeq : BitVec 32
  switchLock : Option Nat
  proxy : Option StartArgs
  workers : List Worker

/-- The service before its first request. -/
def initial (proxy : Option StartArgs) : State := ⟨0, none, proxy, []⟩

namespace State

/-- The main thread's part of `switchProfile`. -/
def switchProfile (s : State) (r : SwitchRequest) : State :=
  { s with
    currentSwitchSeq := s.currentSwitchSeq + 1
    workers := s.workers ++ [⟨s.currentSwitchSeq + 1, r, .waiting⟩] }

def setWorker (s : State) (k : Nat) (w : Worker) (pc : WorkerPc) : State :=
  { s with workers := s.workers.set k { w with pc := pc } }

/-- The worker leaves the synchronized block. -/
def leave (s : State) (k : Nat) (w : Worker) : State :=
  { s.setWorker k w .done with switchLock := none }

def AllDone (s : State) : Prop := ∀ w ∈ s.workers, w.pc = .done

end State

inductive Action
  | request (intent : SwitchIntent) (localPrefs : Preferences)
  | worker (k : Nat)

/-- `startSocksProxy` succeeds on a stopped service, and fails on a running one. -/
inductive Step : State → Action → State → Prop
  | request {s : State} (intent : SwitchIntent) (localPrefs : Preferences) :
      Step s (.request intent localPrefs) (s.switchProfile (switchRequest intent localPrefs))
  | lock {s : State} {k : Nat} {w : Worker} :
      s.workers[k]? = some w → w.pc = .waiting → s.switchLock = none →
      Step s (.worker k) { s.setWorker k w .checking with switchLock := some k }
  | check {s : State} {k : Nat} {w : Worker} :
      s.workers[k]? = some w → w.pc = .checking → w.seq = s.currentSwitchSeq →
      Step s (.worker k) (s.setWorker k w .stopping)
  | checkFail {s : State} {k : Nat} {w : Worker} :
      s.workers[k]? = some w → w.pc = .checking → w.seq ≠ s.currentSwitchSeq →
      Step s (.worker k) (s.leave k w)
  | stopSocksProxy {s : State} {k : Nat} {w : Worker} :
      s.workers[k]? = some w → w.pc = .stopping →
      Step s (.worker k) { s.setWorker k w .rechecking with proxy := none }
  | recheck {s : State} {k : Nat} {w : Worker} :
      s.workers[k]? = some w → w.pc = .rechecking → w.seq = s.currentSwitchSeq →
      Step s (.worker k) (s.setWorker k w .starting)
  | recheckFail {s : State} {k : Nat} {w : Worker} :
      s.workers[k]? = some w → w.pc = .rechecking → w.seq ≠ s.currentSwitchSeq →
      Step s (.worker k) (s.leave k w)
  | startSocksProxy {s : State} {k : Nat} {w : Worker} :
      s.workers[k]? = some w → w.pc = .starting → s.proxy = none →
      Step s (.worker k) { s.setWorker k w .started with proxy := some w.request.startArgs }
  | startFail {s : State} {k : Nat} {w : Worker} :
      s.workers[k]? = some w → w.pc = .starting → s.proxy ≠ none →
      Step s (.worker k) (s.leave k w)
  -- it has waited for the new node and refreshed the notification
  | finish {s : State} {k : Nat} {w : Worker} :
      s.workers[k]? = some w → w.pc = .started → Step s (.worker k) (s.leave k w)

/-- No worker is left unfinished while `2 ^ 32` requests come after its own. -/
def SeqDistinct (s : State) : Action → Prop
  | .request _ _ => ∀ k w, s.workers[k]? = some w → w.pc ≠ .done → s.workers.length - k < 2 ^ 32
  | .worker _ => True

/-- No worker is about to start a proxy while one runs. -/
def NoStartWhileRunning (s : State) : Prop := ∀ w ∈ s.workers, w.pc = .starting → s.proxy = none

/-- The proxy of the last request runs. -/
def LastWins (s : State) : Prop :=
  ∀ w, s.workers.getLast? = some w → s.proxy = some w.request.startArgs

variable {s t : State} {k j : Nat} {w v : Worker} {pc : WorkerPc} {r : SwitchRequest} {a : Action}
  {proxy : Option StartArgs} {xs : List Action}

theorem workers_setWorker (hw : s.workers[k]? = some w) :
    (s.setWorker k w pc).workers[j]? = if j = k then some { w with pc := pc } else s.workers[j]? :=
  getElem?_set_thread hw

theorem setWorker_cases (hv : (s.setWorker k w pc).workers[j]? = some v) :
    j = k ∧ v = { w with pc := pc } ∨ j ≠ k ∧ s.workers[j]? = some v :=
  set_thread_cases hv

theorem length_setWorker : (s.setWorker k w pc).workers.length = s.workers.length := by
  simp [State.setWorker]

theorem length_switchProfile : (s.switchProfile r).workers.length = s.workers.length + 1 := by
  simp [State.switchProfile]

theorem workers_switchProfile : (s.switchProfile r).workers[j]? =
    if j = s.workers.length then some ⟨s.currentSwitchSeq + 1, r, .waiting⟩ else s.workers[j]? :=
  getElem?_snoc_thread

theorem switchProfile_cases (hv : (s.switchProfile r).workers[j]? = some v) :
    j = s.workers.length ∧ v = ⟨s.currentSwitchSeq + 1, r, .waiting⟩ ∨
      j ≠ s.workers.length ∧ s.workers[j]? = some v :=
  snoc_thread_cases hv

/-- A step of a worker moves that worker only. -/
theorem worker_step (hs : Step s (.worker k) t) :
    ∃ w pc, s.workers[k]? = some w ∧ w.pc ≠ .done ∧ t.workers = (s.setWorker k w pc).workers ∧
      t.currentSwitchSeq = s.currentSwitchSeq := by
  cases hs with
  | lock hw hpc _ | check hw hpc _ | checkFail hw hpc _ | stopSocksProxy hw hpc
  | recheck hw hpc _ | recheckFail hw hpc _ | startSocksProxy hw hpc _ | startFail hw hpc _
  | finish hw hpc => exact ⟨_, _, hw, by simp [hpc], rfl, rfl⟩

/-- Exactly the worker in the synchronized block holds the lock, and behind its stop no proxy
runs until it starts its own. -/
structure Exclusive (s : State) : Prop where
  holder : ∀ (k : Nat), s.switchLock = some k ↔
    ∃ w : Worker, s.workers[k]? = some w ∧ w.pc.inside = true
  stopped : ∀ (k : Nat) (w : Worker), s.workers[k]? = some w →
    w.pc = .rechecking ∨ w.pc = .starting → s.proxy = none

theorem exclusive_initial : Exclusive (initial proxy) where
  holder _ := by simp [initial]
  stopped _ _ h := by simp [initial] at h

/-- At most one worker is in the synchronized block. -/
theorem Exclusive.unique (hs : Exclusive s) (hw : s.workers[k]? = some w) (hin : w.pc.inside = true)
    (hv : s.workers[j]? = some v) (hjn : v.pc.inside = true) : j = k := by
  have hj := (hs.holder j).mpr ⟨v, hv, hjn⟩
  rw [(hs.holder k).mpr ⟨w, hw, hin⟩] at hj
  exact (Option.some.inj hj).symm

/-- A worker that stays in the block keeps the lock; `t` may have another proxy. -/
theorem Exclusive.stay (hs : Exclusive s) (hw : s.workers[k]? = some w) (hin : w.pc.inside = true)
    (hpc : pc.inside = true) (ht : t.workers = (s.setWorker k w pc).workers)
    (hl : t.switchLock = s.switchLock)
    (hp : pc = .rechecking ∨ pc = .starting → t.proxy = none) : Exclusive t where
  holder j := by
    rw [hl, ht, workers_setWorker hw]
    by_cases hj : j = k
    · subst hj
      simp [hpc, hs.holder, hw, hin]
    · simpa [hj] using hs.holder j
  stopped j v hv hvpc := by
    rw [ht] at hv
    obtain ⟨rfl, rfl⟩ | ⟨hj, hv⟩ := setWorker_cases hv
    · exact hp hvpc
    · have hvin : v.pc.inside = true := by rcases hvpc with h | h <;> simp [h, WorkerPc.inside]
      exact absurd (hs.unique hw hin hv hvin) hj

theorem Exclusive.leave (hs : Exclusive s) (hw : s.workers[k]? = some w)
    (hin : w.pc.inside = true) : Exclusive (s.leave k w) where
  holder j := by
    constructor
    · intro h
      cases h
    · rintro ⟨v, hv, hvin⟩
      obtain ⟨rfl, rfl⟩ | ⟨hj, hv⟩ := setWorker_cases hv
      · cases hvin
      · exact absurd (hs.unique hw hin hv hvin) hj
  stopped j v hv hvpc := by
    obtain ⟨rfl, rfl⟩ | ⟨-, hv⟩ := setWorker_cases hv
    · simp at hvpc
    · exact hs.stopped j v hv hvpc

theorem Exclusive.switchProfile (hs : Exclusive s) : Exclusive (s.switchProfile r) where
  holder j := by
    change s.switchLock = some j ↔ _
    rw [workers_switchProfile]
    by_cases hj : j = s.workers.length
    · subst hj
      have hn := hs.holder s.workers.length
      simp only [List.getElem?_eq_none le_rfl, reduceCtorEq, false_and, exists_false, iff_false]
        at hn
      simpa [WorkerPc.inside] using hn
    · rw [if_neg hj]
      exact hs.holder j
  stopped j v hv hvpc := by
    obtain ⟨rfl, rfl⟩ | ⟨-, hv⟩ := switchProfile_cases hv
    · simp at hvpc
    · exact hs.stopped j v hv hvpc

theorem Exclusive.lock (hs : Exclusive s) (hw : s.workers[k]? = some w)
    (hl : s.switchLock = none) :
    Exclusive { s.setWorker k w .checking with switchLock := some k } where
  holder j := by
    rw [workers_setWorker hw]
    by_cases hj : j = k
    · simp [hj, WorkerPc.inside]
    · have hn := hs.holder j
      rw [hl] at hn
      simpa [hj, Ne.symm hj] using hn
  stopped j v hv hvpc := by
    obtain ⟨rfl, rfl⟩ | ⟨-, hv⟩ := setWorker_cases hv
    · simp at hvpc
    · exact hs.stopped j v hv hvpc

theorem exclusive_step : Preserves Step Exclusive := by
  intro s a t hst hs
  cases hst with
  | request intent localPrefs => exact hs.switchProfile
  | lock hw _ hl => exact hs.lock hw hl
  | check hw hpc _ => exact hs.stay hw (by simp [hpc, WorkerPc.inside]) rfl rfl rfl (by simp)
  | checkFail hw hpc _ => exact hs.leave hw (by simp [hpc, WorkerPc.inside])
  | stopSocksProxy hw hpc =>
    exact hs.stay hw (by simp [hpc, WorkerPc.inside]) rfl rfl rfl fun _ => rfl
  | recheck hw hpc _ =>
    exact hs.stay hw (by simp [hpc, WorkerPc.inside]) rfl rfl rfl fun _ =>
      hs.stopped _ _ hw (.inl hpc)
  | recheckFail hw hpc _ => exact hs.leave hw (by simp [hpc, WorkerPc.inside])
  | startSocksProxy hw hpc _ =>
    exact hs.stay hw (by simp [hpc, WorkerPc.inside]) rfl rfl rfl (by simp)
  | startFail hw hpc _ => exact hs.leave hw (by simp [hpc, WorkerPc.inside])
  | finish hw hpc => exact hs.leave hw (by simp [hpc, WorkerPc.inside])

theorem Exclusive.noStartWhileRunning (hs : Exclusive s) : NoStartWhileRunning s := by
  intro w hw hpc
  obtain ⟨k, hk⟩ := List.getElem?_of_mem hw
  exact hs.stopped k w hk (.inr hpc)

/-- The numbers of the workers and of the state, as far as an `int` tells them apart. -/
structure Numbered (s : State) : Prop where
  worker : ∀ (k : Nat) (w : Worker), s.workers[k]? = some w → w.seq = BitVec.ofNat 32 (k + 1)
  current : s.currentSwitchSeq = BitVec.ofNat 32 s.workers.length

theorem numbered_initial : Numbered (initial proxy) where
  worker _ _ h := by simp [initial] at h
  current := rfl

theorem Numbered.next (hs : Numbered s) :
    s.currentSwitchSeq + 1 = BitVec.ofNat 32 (s.workers.length + 1) := by
  rw [hs.current, BitVec.ofNat_add]
  rfl

theorem numbered_step : Preserves Step Numbered := by
  intro s a t hst hs
  cases a with
  | request intent localPrefs =>
    cases hst
    refine ⟨?_, ?_⟩
    · intro j v hv
      obtain ⟨rfl, rfl⟩ | ⟨-, hv⟩ := switchProfile_cases hv
      · exact hs.next
      · exact hs.worker j v hv
    · simpa [State.switchProfile] using hs.next
  | worker k =>
    obtain ⟨w, pc, hw, -, ht, hseq⟩ := worker_step hst
    refine ⟨?_, ?_⟩
    · intro j v hv
      rw [ht] at hv
      obtain ⟨rfl, rfl⟩ | ⟨-, hv⟩ := setWorker_cases hv
      · exact hs.worker j w hw
      · exact hs.worker j v hv
    · rw [hseq, ht, length_setWorker]
      exact hs.current

/-- No unfinished worker is `2 ^ 32` requests old. -/
def Recent (s : State) : Prop :=
  ∀ (k : Nat) (w : Worker), s.workers[k]? = some w → w.pc ≠ .done → s.workers.length ≤ k + 2 ^ 32

theorem recent_step : Preserves (Guarded Step SeqDistinct) Recent := by
  rintro s a t ⟨hg, hst⟩ hs
  cases a with
  | request intent localPrefs =>
    cases hst
    intro j v hv hpc
    rw [length_switchProfile]
    obtain ⟨rfl, -⟩ | ⟨-, hv⟩ := switchProfile_cases hv
    · omega
    · have hlt := hg j v hv hpc
      omega
  | worker k =>
    obtain ⟨w, pc, hw, hne, ht, -⟩ := worker_step hst
    intro j v hv hpc
    rw [ht] at hv
    rw [ht, length_setWorker]
    obtain ⟨rfl, -⟩ | ⟨-, hv⟩ := setWorker_cases hv
    · exact hs j w hw hne
    · exact hs j v hv hpc

/-- The worker of the last request is the unfinished one that has the current number. -/
theorem seq_eq_current (hn : Numbered s) (hr : Recent s) (hw : s.workers[k]? = some w)
    (hpc : w.pc ≠ .done) : w.seq = s.currentSwitchSeq ↔ k + 1 = s.workers.length := by
  have hlt : k < s.workers.length := (List.getElem?_eq_some_iff.mp hw).1
  have hle := hr k w hw hpc
  rw [hn.worker k w hw, hn.current, ← BitVec.toNat_inj, BitVec.toNat_ofNat, BitVec.toNat_ofNat]
  constructor
  · intro h
    omega
  · intro h
    rw [h]

/-- Once the worker of the last request has started its proxy, that proxy runs and nobody is about
to stop it. -/
def Settled (s : State) : Prop :=
  ∀ (k : Nat) (w : Worker), s.workers[k]? = some w → k + 1 = s.workers.length →
    w.pc = .started ∨ w.pc = .done →
    s.proxy = some w.request.startArgs ∧
      ∀ (j : Nat) (v : Worker), s.workers[j]? = some v → v.pc.restarting = false

theorem settled_initial : Settled (initial proxy) := by
  intro k w hw
  simp [initial] at hw

theorem Settled.switchProfile (r : SwitchRequest) : Settled (s.switchProfile r) := by
  intro k w hw hk hpc
  rw [length_switchProfile] at hk
  rw [workers_switchProfile, if_pos (by omega), Option.some.injEq] at hw
  subst hw
  simp at hpc

/-- A worker that neither stops nor starts the proxy, and goes nowhere it could. -/
theorem Settled.idle (hs : Settled s) (hw : s.workers[k]? = some w)
    (hpc : pc.restarting = false) (hout : pc = .started ∨ pc = .done → w.pc = .started ∨
      w.pc = .done ∨ k + 1 ≠ s.workers.length)
    (ht : t.workers = (s.setWorker k w pc).workers) (hp : t.proxy = s.proxy) : Settled t := by
  intro i u hu hi hupc
  rw [ht, length_setWorker] at hi
  rw [ht] at hu
  have hlast : s.proxy = some u.request.startArgs ∧
      ∀ (j : Nat) (v : Worker), s.workers[j]? = some v → v.pc.restarting = false := by
    obtain ⟨rfl, rfl⟩ | ⟨-, hu⟩ := setWorker_cases hu
    · rcases hout hupc with h | h | h
      · exact hs i w hw hi (.inl h)
      · exact hs i w hw hi (.inr h)
      · exact absurd hi h
    · exact hs i u hu hi hupc
  refine ⟨hp.trans hlast.1, ?_⟩
  intro j v hv
  rw [ht] at hv
  obtain ⟨rfl, rfl⟩ | ⟨-, hv⟩ := setWorker_cases hv
  · exact hpc
  · exact hlast.2 j v hv

/-- While a worker restarts the proxy, the last request is not settled; nor is it while its own
worker has not started one. -/
theorem Settled.restart (hs : Settled s) (hw : s.workers[k]? = some w)
    (hres : w.pc.restarting = true ∨ k + 1 = s.workers.length)
    (hout : pc ≠ .started ∧ pc ≠ .done ∨ k + 1 ≠ s.workers.length)
    (ht : t.workers = (s.setWorker k w pc).workers) : Settled t := by
  intro i u hu hi hupc
  rw [ht, length_setWorker] at hi
  rw [ht] at hu
  obtain ⟨rfl, rfl⟩ | ⟨hik, hu⟩ := setWorker_cases hu
  · rcases hout with h | h
    · rcases hupc with hst | hdone
      · exact absurd hst h.1
      · exact absurd hdone h.2
    · exact absurd hi h
  · rcases hres with hres | hk
    · have hnot := (hs i u hu hi hupc).2 k w hw
      rw [hres] at hnot
      cases hnot
    · omega

/-- The start of the last request settles it. -/
theorem restarting_inside (h : pc.restarting = true) : pc.inside = true := by
  cases pc <;> first | rfl | cases h

theorem Settled.start (he : Exclusive s) (hw : s.workers[k]? = some w) (hpc : w.pc = .starting)
    (hs : Settled s) :
    Settled { s.setWorker k w .started with proxy := some w.request.startArgs } := by
  by_cases hk : k + 1 = s.workers.length
  · intro i u hu hi _
    change i + 1 = (s.setWorker k w .started).workers.length at hi
    rw [length_setWorker] at hi
    rw [workers_setWorker hw, if_pos (by omega), Option.some.injEq] at hu
    subst hu
    refine ⟨rfl, ?_⟩
    intro j v hv
    obtain ⟨rfl, rfl⟩ | ⟨hj, hv⟩ := setWorker_cases hv
    · rfl
    · -- the block is taken, so nobody else is about to stop or start
      cases hres : v.pc.restarting with
      | false => rfl
      | true =>
        have hin : w.pc.inside = true := by simp [hpc, WorkerPc.inside]
        exact absurd (he.unique hw hin hv (restarting_inside hres)) hj
  · exact hs.restart hw (.inl (by simp [hpc, WorkerPc.restarting])) (.inr hk) rfl

/-- What guarded runs keep. -/
structure Ordered (s : State) : Prop where
  exclusive : Exclusive s
  numbered : Numbered s
  recent : Recent s
  settled : Settled s

theorem ordered_initial : Ordered (initial proxy) where
  exclusive := exclusive_initial
  numbered := numbered_initial
  recent k w hw := by simp [initial] at hw
  settled := settled_initial

theorem settled_step (hst : Step s a t) (hs : Ordered s) : Settled t := by
  have hlast {k : Nat} {w : Worker} (hw : s.workers[k]? = some w) (hne : w.pc ≠ .done) :=
    seq_eq_current hs.numbered hs.recent hw hne
  cases hst with
  | request intent localPrefs => exact Settled.switchProfile _
  | lock hw hpc _ => exact hs.settled.idle hw rfl (by simp) rfl rfl
  | check hw hpc hseq =>
    have hk := (hlast hw (by simp [hpc])).mp hseq
    exact hs.settled.restart hw (.inr hk) (.inl (by simp)) rfl
  | checkFail hw hpc hseq =>
    have hk := mt (hlast hw (by simp [hpc])).mpr hseq
    exact hs.settled.idle hw rfl (fun _ => .inr (.inr hk)) rfl rfl
  | stopSocksProxy hw hpc =>
    exact hs.settled.restart hw (.inl (by simp [hpc, WorkerPc.restarting])) (.inl (by simp)) rfl
  | recheck hw hpc _ =>
    exact hs.settled.restart hw (.inl (by simp [hpc, WorkerPc.restarting])) (.inl (by simp)) rfl
  | recheckFail hw hpc hseq =>
    have hk := mt (hlast hw (by simp [hpc])).mpr hseq
    exact hs.settled.restart hw (.inl (by simp [hpc, WorkerPc.restarting])) (.inr hk) rfl
  | startSocksProxy hw hpc _ => exact Settled.start hs.exclusive hw hpc hs.settled
  | startFail hw hpc hp => exact absurd (hs.exclusive.stopped _ _ hw (.inr hpc)) hp
  | finish hw hpc => exact hs.settled.idle hw rfl (fun _ => .inl hpc) rfl rfl

theorem ordered_step : Preserves (Guarded Step SeqDistinct) Ordered := by
  intro s a t hst hs
  exact ⟨exclusive_step s a t hst.2 hs.exclusive, numbered_step s a t hst.2 hs.numbered,
    recent_step s a t hst hs.recent, settled_step hst.2 hs⟩

theorem Ordered.lastWins (hs : Ordered s) (hd : s.AllDone) : LastWins s := by
  intro w hw
  have hmem := List.mem_of_getLast? hw
  rw [List.getLast?_eq_getElem?] at hw
  have hpos : 0 < s.workers.length := List.length_pos_of_mem hmem
  exact (hs.settled _ w hw (by omega) (.inr (hd w hmem))).1

/-- A worker at `pc`, in the block, with the proxy that runs there. -/
def State.midway (s : State) (k : Nat) (w : Worker) (pc : WorkerPc) (p : Option StartArgs) : State :=
  { s.setWorker k w pc with switchLock := some k, proxy := p }

theorem midway_workers (pc : WorkerPc) (p : Option StartArgs) (hw : s.workers[k]? = some w) :
    (s.midway k w pc p).workers[k]? = some { w with pc := pc } :=
  (workers_setWorker hw).trans (if_pos rfl)

theorem midway_setWorker {p : Option StartArgs} {pc' : WorkerPc} :
    (s.midway k w pc p).setWorker k { w with pc := pc } pc' = s.midway k w pc' p := by
  simp [State.midway, State.setWorker]

/-- A worker that nobody disturbs runs from its lock to its end. -/
theorem undisturbed (hw : s.workers[k]? = some w) (hpc : w.pc = .waiting)
    (hl : s.switchLock = none) (hseq : w.seq = s.currentSwitchSeq) :
    Run (Guarded Step SeqDistinct) s (List.replicate 6 (.worker k))
      { s.setWorker k w .done with proxy := some w.request.startArgs } := by
  have hlock : Step s (.worker k) (s.midway k w .checking s.proxy) := .lock hw hpc hl
  have hcheck := Step.check (midway_workers .checking s.proxy hw) rfl hseq
  have hstop := Step.stopSocksProxy (midway_workers .stopping s.proxy hw) rfl
  have hrecheck := Step.recheck (midway_workers .rechecking none hw) rfl hseq
  have hstart := Step.startSocksProxy (midway_workers .starting none hw) rfl rfl
  have hfinish := Step.finish
    (midway_workers .started (some w.request.startArgs) hw) rfl
  rw [midway_setWorker] at hcheck hstop hrecheck hstart
  rw [State.leave, midway_setWorker] at hfinish
  have hend : { s.midway k w .done (some w.request.startArgs) with switchLock := none } =
      { s.setWorker k w .done with proxy := some w.request.startArgs } := by
    simp [State.midway, State.setWorker, hl]
  rw [hend] at hfinish
  exact .stepL ⟨trivial, hlock⟩ (.stepL ⟨trivial, hcheck⟩ (.stepL ⟨trivial, hstop⟩
    (.stepL ⟨trivial, hrecheck⟩ (.stepL ⟨trivial, hstart⟩ (.single ⟨trivial, hfinish⟩)))))

/-- The last of the requests wins, and no proxy is started beside another one. -/
theorem last_request_wins (h : Run Step (initial proxy) xs s) :
    NoStartWhileRunning s ∧
      (Run (Guarded Step SeqDistinct) (initial proxy) xs s → s.AllDone → LastWins s) := by
  refine ⟨(h.invariant exclusive_step exclusive_initial).noStartWhileRunning, ?_⟩
  intro hg hd
  exact (hg.invariant ordered_step ordered_initial).lastWins hd

/-- A request for a node with `n` connections, and everything else in its extras. -/
def intentOfConn (n : Int) : SwitchIntent :=
  ⟨"node", some (some "wss://node/"), some n, some "443", some "", some "", some "", some "",
    some false, some "", some false⟩

/-- The instance over a store that nothing has been written to. -/
def blankPrefs : Preferences := Preferences.initProfiles newestFirst fun _ => none

/-- Two requests at once: the first worker gives up, and the second one starts its proxy. -/
theorem last_request_wins_two : ∃ s : State, s.workers.length = 2 ∧ s.AllDone ∧
    NoStartWhileRunning s ∧ LastWins s := by
  let r₁ := switchRequest (intentOfConn 1) blankPrefs
  let r₂ := switchRequest (intentOfConn 2) blankPrefs
  let s₁ := (initial none).switchProfile r₁
  let s₂ := s₁.switchProfile r₂
  let s₃ := s₂.midway 0 ⟨1, r₁, .waiting⟩ .checking none
  let s₄ := s₃.leave 0 ⟨1, r₁, .checking⟩
  have hfirst : Guarded Step SeqDistinct (initial none) (.request (intentOfConn 1) blankPrefs) s₁ :=
    ⟨fun k w hw => by simp [initial] at hw, .request _ _⟩
  have hsecond : Guarded Step SeqDistinct s₁ (.request (intentOfConn 2) blankPrefs) s₂ :=
    ⟨fun k w _ _ => (Nat.sub_le _ _).trans_lt (by decide), .request _ _⟩
  have hlock : Guarded Step SeqDistinct s₂ (.worker 0) s₃ := ⟨trivial, .lock rfl rfl rfl⟩
  have hfail : Guarded Step SeqDistinct s₃ (.worker 0) s₄ :=
    ⟨trivial, .checkFail rfl rfl (by decide)⟩
  have hserve := undisturbed (s := s₄) (k := 1) (w := ⟨2, r₂, .waiting⟩) rfl rfl rfl rfl
  have hrun := Run.stepL hfirst (.stepL hsecond (.stepL hlock (.stepL hfail hserve)))
  have hdone : State.AllDone { s₄.setWorker 1 ⟨2, r₂, .waiting⟩ .done with
      proxy := some r₂.startArgs } := by
    intro w hw
    simp [s₄, s₃, s₂, s₁, State.leave, State.midway, State.setWorker, State.switchProfile,
      initial] at hw
    rcases hw with rfl | rfl <;> rfl
  have hwins := last_request_wins hrun.of_guarded
  exact ⟨_, rfl, hdone, hwins.1, hwins.2 hrun hdone⟩

/-- Requests that are each served before the next one comes. -/
theorem served (hl : s.switchLock = none) (intent : SwitchIntent) (localPrefs : Preferences)
    (m : Nat) : ∃ xs t ws, Run Step s xs t ∧ t.switchLock = none ∧
      t.currentSwitchSeq = s.currentSwitchSeq + BitVec.ofNat 32 m ∧
      t.workers = s.workers ++ ws ∧ ws.length = m ∧
      ∀ w ∈ ws, w.pc = .done ∧ w.request = switchRequest intent localPrefs := by
  induction m with
  | zero => exact ⟨[], s, [], .refl, hl, by simp, by simp, rfl, by simp⟩
  | succ m ih =>
    obtain ⟨xs, t, ws, hrun, htl, hseq, hws, hlen, hdone⟩ := ih
    let r := switchRequest intent localPrefs
    have hat : (t.switchProfile r).workers[t.workers.length]? =
        some ⟨t.currentSwitchSeq + 1, r, .waiting⟩ := by
      rw [workers_switchProfile, if_pos rfl]
    have hserve := (undisturbed hat rfl htl rfl).of_guarded
    refine ⟨_, _, ws ++ [⟨t.currentSwitchSeq + 1, r, .done⟩],
      (hrun.stepR (.request _ _)).append hserve, htl, ?_, ?_, by simp [hlen], ?_⟩
    · change t.currentSwitchSeq + 1 = _
      rw [hseq, BitVec.ofNat_add, BitVec.add_assoc]
      rfl
    · simp [State.setWorker, State.switchProfile, hws]
    · intro w hw
      rcases List.mem_append.mp hw with h | h
      · exact hdone w h
      · rw [List.mem_singleton] at h
        subst h
        exact ⟨rfl, rfl⟩

/-- The number of the first request comes back with the `2 ^ 32`-nd request after it. -/
theorem first_request_wins (proxy : Option StartArgs) (intent₁ intent₂ : SwitchIntent)
    (localPrefs : Preferences) :
    ∃ xs s, Run Step (initial proxy) xs s ∧ s.AllDone ∧
      s.proxy = some (switchRequest intent₁ localPrefs).startArgs ∧
      ∃ w, s.workers.getLast? = some w ∧ w.request = switchRequest intent₂ localPrefs := by
  let r₁ := switchRequest intent₁ localPrefs
  obtain ⟨xs, t, ws, hrun, hl, hseq, hws, hlen, hdone⟩ :=
    served (s := (initial proxy).switchProfile r₁) rfl intent₂ localPrefs (2 ^ 32)
  have hcur : t.currentSwitchSeq = 1 := by
    rw [hseq]
    rfl
  have hcons : t.workers = ⟨1, r₁, .waiting⟩ :: ws := hws
  have hat : t.workers[0]? = some ⟨1, r₁, .waiting⟩ := by rw [hcons]; rfl
  have hlast := (undisturbed hat rfl hl hcur.symm).of_guarded
  refine ⟨_, _, .stepL (.request intent₁ localPrefs) (hrun.append hlast), ?_, rfl, ?_⟩
  · intro w hw
    simp only [State.setWorker, hcons, List.set_cons_zero, List.mem_cons] at hw
    rcases hw with rfl | hw
    · rfl
    · exact (hdone w hw).1
  · have hne : ws ≠ [] := by
      rintro rfl
      simp at hlen
    refine ⟨ws.getLast hne, ?_, (hdone _ (List.getLast_mem hne)).2⟩
    simp [State.setWorker, hcons, List.getLast?_cons, List.getLast?_eq_some_getLast hne]

/-- An `int` cannot number all requests that may wait. -/
theorem last_request_loses : ¬ ∀ proxy xs s, Run Step (initial proxy) xs s → s.AllDone →
    LastWins s := by
  intro hall
  obtain ⟨xs, s, hrun, hdone, hp, w, hw, hr⟩ :=
    first_request_wins none (intentOfConn 1) (intentOfConn 2) blankPrefs
  have hwins := hall none xs s hrun hdone w hw
  rw [hp, hr, Option.some.injEq] at hwins
  have hn := congrArg StartArgs.n hwins
  exact absurd hn (by decide)

end HotSwitch
end XTunnel.Service
