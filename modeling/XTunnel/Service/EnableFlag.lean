import XTunnel.Service.HotSwitch

/-! The persisted `Enable` flag: the toggle of `MainActivity`, the intents it sends, and the service
process that serves them. -/
namespace XTunnel.TProxyService

open Service Profiles

/-- `connect` is also the null intent with which the system restarts the service. -/
inductive Intent
  | connect
  | disconnect
  | switch (intent : SwitchIntent)

/-- Where the main thread of the service stands in `startService`. -/
inductive MainPc
  | idle
  | establishing
  | writingConfig
  | startingTunnel
  | startingProxy
  | enabling
deriving DecidableEq

/-- Where a binder thread stands in the `stopService` of `onRevoke`. -/
inductive StopPc
  | stopSocksProxy
  | stopTunnel
  | closeTunFd
  | exit
deriving DecidableEq

/-- The toggle writes the flag before it sends its intent; the intents wait for the main thread of
the service, whose process holds `tunFd`, the native tunnel and the proxy of the Go core. The service
has called `stopSelf` and is still to be destroyed; a revocation is under way. -/
structure State where
  enable : Bool
  sending : Option Intent
  intents : List Intent
  main : MainPc
  tunFd : Bool
  native : Bool
  switcher : HotSwitch.State
  stopping : Bool
  revoking : Option StopPc

def initial : State :=
  ⟨false, none, [], .idle, false, false, HotSwitch.initial none, false, none⟩

namespace State

/-- `enabled` is the flag as the process of the activity has loaded it. -/
def toggleConnection (s : State) (enabled hasServer : Bool) : State :=
  if enabled then { s with enable := false, sending := some .disconnect }
  else if hasServer then { s with enable := true, sending := some .connect }
  else s

/-- The process of the service exits. -/
def stopService (s : State) : State :=
  { s with
    main := .idle
    tunFd := false
    native := false
    switcher := HotSwitch.initial none
    stopping := false
    revoking := none }

/-- One statement of `stopService` on the binder thread. -/
def revokeNext (s : State) : StopPc → State
  | .stopSocksProxy =>
    { s with switcher := { s.switcher with proxy := none }, revoking := some .stopTunnel }
  | .stopTunnel => { s with native := false, revoking := some .closeTunFd }
  | .closeTunFd => { s with tunFd := false, revoking := some .exit }
  | .exit => s.stopService

/-- `stopSelf` with the intents `kept` that the system still delivers. -/
def stopSelf (s : State) (kept : List Intent) : State :=
  { s with main := .idle, intents := kept, stopping := true }

def startService (s : State) : State :=
  if s.tunFd then s else { s with main := .establishing }

def onStartCommand (s : State) (localPrefs : Preferences) : Intent → State
  | .disconnect => s.stopService
  | .switch intent =>
    if s.tunFd then
      { s with switcher := s.switcher.switchProfile (switchRequest intent localPrefs) }
    else s.startService
  | .connect => if s.tunFd then s else s.startService

/-- The intents that the service has still to serve. -/
def pending (s : State) : List Intent := s.intents ++ s.sending.toList

/-- All delivered intents and callbacks have been processed. -/
structure Quiescent (s : State) : Prop where
  intents : s.intents = []
  sending : s.sending = none
  main : s.main = .idle
  workers : s.switcher.AllDone
  stopping : s.stopping = false
  revoking : s.revoking = none

/-- The interface is established, and the native tunnel and a proxy run. -/
def Up (s : State) : Prop := s.tunFd = true ∧ s.native = true ∧ s.switcher.proxy ≠ none

/-- The flag tells whether the service is up, and nothing is left of a service that is not. -/
structure Truthful (s : State) : Prop where
  flag : s.enable = true ↔ s.Up
  clean : s.enable = false → s.tunFd = false ∧ s.native = false

end State

inductive Action
  | toggle (enabled hasServer : Bool)
  | send
  | request (intent : Intent)
  | deliver (localPrefs : Preferences)
  | revoke
  | revokeNext
  | establish
  | establishFails (kept : List Intent)
  | writeConfig
  | writeConfigFails
  | startTunnel
  | startProxy (args : StartArgs)
  | startProxyThrows (closed : Bool) (kept : List Intent)
  | destroy
  | setEnable
  | worker (k : Nat)
  | workerThrows (k : Nat)

inductive Step : State → Action → State → Prop
  | toggle {s : State} (enabled hasServer : Bool) :
      s.sending = none → Step s (.toggle enabled hasServer) (s.toggleConnection enabled hasServer)
  | send {s : State} {intent : Intent} :
      s.sending = some intent →
      Step s .send { s with sending := none, intents := s.intents ++ [intent] }
  -- a resumed activity, a chosen profile, the optimizer or the system
  | request {s : State} {intent : Intent} :
      intent ≠ .disconnect → Step s (.request intent) { s with intents := s.intents ++ [intent] }
  | deliver {s : State} {intent : Intent} {intents : List Intent} (localPrefs : Preferences) :
      s.main = .idle → s.intents = intent :: intents →
      Step s (.deliver localPrefs)
        (State.onStartCommand { s with intents := intents } localPrefs intent)
  -- on a binder thread, wherever the main thread stands
  | revoke {s : State} :
      s.tunFd = true ∨ s.main = .establishing → s.revoking = none →
      Step s .revoke { s with revoking := some .stopSocksProxy }
  | revokeNext {s : State} {pc : StopPc} :
      s.revoking = some pc → Step s .revokeNext (s.revokeNext pc)
  | establish {s : State} :
      s.main = .establishing → Step s .establish { s with main := .writingConfig, tunFd := true }
  -- it throws or returns null; what `stopSelf` leaves of the intents is up to the system
  | establishFails {s : State} {kept : List Intent} :
      s.main = .establishing → kept.Sublist s.intents →
      Step s (.establishFails kept) (s.stopSelf kept)
  | writeConfig {s : State} :
      s.main = .writingConfig → Step s .writeConfig { s with main := .startingTunnel }
  | writeConfigFails {s : State} :
      s.main = .writingConfig → Step s .writeConfigFails { s with main := .idle }
  | startTunnel {s : State} :
      s.main = .startingTunnel →
      Step s .startTunnel { s with main := .startingProxy, native := true }
  | startProxy {s : State} (args : StartArgs) :
      s.main = .startingProxy →
      Step s (.startProxy args)
        { s with main := .enabling, switcher := { s.switcher with proxy := some args } }
  -- the descriptor stays when closing it throws, too
  | startProxyThrows {s : State} {kept : List Intent} (closed : Bool) :
      s.main = .startingProxy → kept.Sublist s.intents →
      Step s (.startProxyThrows closed kept)
        (State.stopSelf { s with native := false, tunFd := !closed } kept)
  -- the next intent is for a new instance of the service
  | destroy {s : State} :
      s.main = .idle → s.stopping = true →
      Step s .destroy { s with tunFd := false, stopping := false }
  | setEnable {s : State} :
      s.main = .enabling → Step s .setEnable { s with main := .idle, enable := true }
  | worker {s : State} {t : HotSwitch.State} {k : Nat} :
      HotSwitch.Step s.switcher (.worker k) t → Step s (.worker k) { s with switcher := t }
  -- `startSocksProxy` throws on a stopped core
  | workerThrows {s : State} {k : Nat} {w : HotSwitch.Worker} :
      s.switcher.workers[k]? = some w → w.pc = .starting →
      Step s (.workerThrows k) { s with switcher := s.switcher.leave k w }

/-- The worker is not the one of the latest switch. -/
def Overtaken (sw : HotSwitch.State) (k : Nat) : Prop :=
  ∃ w : HotSwitch.Worker, sw.workers[k]? = some w ∧ w.seq ≠ sw.currentSwitchSeq

/-- The flag is off, or the last of the pending intents is no disconnect. -/
def Expected (enable : Bool) (pending : List Intent) : Prop :=
  enable = true → ∃ intent, pending.getLast? = some intent ∧ intent ≠ .disconnect

/-- No step leaves the flag wrong for good: a start fails and a revoked service exits only while an
intent is pending or the flag is off, where the pending ones are those that a `stopSelf` leaves; a start
fails halfway only before a disconnect that is pending, the service is destroyed only while it has no
`tunFd`, it writes the flag only if no disconnect comes last, and a switch fails only before another
switch or a disconnect. -/
def Careful (s : State) : Action → Prop
  | .establishFails kept | .startProxyThrows true kept =>
    Expected s.enable (kept ++ s.sending.toList)
  | .startProxyThrows false kept =>
    .disconnect ∈ kept ++ s.sending.toList ∧
      ((kept ++ s.sending.toList).getLast? = some .disconnect → s.enable = false)
  | .revokeNext => s.revoking = some .exit → Expected s.enable s.pending
  | .writeConfigFails => .disconnect ∈ s.pending
  | .destroy => s.tunFd = false
  | .setEnable => s.pending.getLast? ≠ some .disconnect
  | .workerThrows k =>
    Overtaken s.switcher k ∨ (∃ intent, .switch intent ∈ s.pending) ∨ .disconnect ∈ s.pending
  | _ => True

end XTunnel.TProxyService

namespace XTunnel.Service.HotSwitch

variable {s t : State} {k : Nat} {w v : Worker} {pc : WorkerPc} {r : SwitchRequest}
  {proxy : Option StartArgs}

/-- The worker has still to start its proxy. -/
def WorkerPc.unstarted : WorkerPc → Bool
  | .started | .done => false
  | _ => true

/-- A worker that passes its checks has still to start its proxy. -/
def Renewing (s : State) : Prop :=
  ∃ (k : Nat) (w : Worker), s.workers[k]? = some w ∧ w.seq = s.currentSwitchSeq ∧
    w.pc.unstarted = true

/-- A proxy runs or is about to be started. -/
def Alive (s : State) : Prop := Renewing s ∨ s.proxy ≠ none

/-- Whoever may have stopped the proxy, somebody starts one. -/
structure Renewed (s : State) : Prop where
  exclusive : Exclusive s
  covered : ∀ (k : Nat) (w : Worker), s.workers[k]? = some w → w.pc.restarting = true → Renewing s

theorem renewed_initial : Renewed (initial proxy) where
  exclusive := exclusive_initial
  covered _ _ h := by simp [initial] at h

theorem renewing_switchProfile : Renewing (s.switchProfile r) := by
  refine ⟨s.workers.length, ⟨s.currentSwitchSeq + 1, r, .waiting⟩, ?_, rfl, rfl⟩
  rw [workers_switchProfile, if_pos rfl]

theorem Renewed.switchProfile (hs : Renewed s) : Renewed (s.switchProfile r) where
  exclusive := hs.exclusive.switchProfile
  covered _ _ _ _ := renewing_switchProfile

/-- A move of a worker leaves one to start a proxy, if the one that moves does not give up. -/
theorem Renewing.move (h : Renewing s) (hw : s.workers[k]? = some w)
    (hpc : w.seq = s.currentSwitchSeq → w.pc.unstarted = true → pc.unstarted = true)
    (ht : t.workers = (s.setWorker k w pc).workers)
    (hseq : t.currentSwitchSeq = s.currentSwitchSeq) : Renewing t := by
  obtain ⟨j, v, hv, hvseq, hvpc⟩ := h
  have hj : (s.setWorker k w pc).workers[j]? =
      if j = k then some { w with pc := pc } else s.workers[j]? := workers_setWorker hw
  by_cases hjk : j = k
  · subst hjk
    obtain rfl := Option.some.inj (hw.symm.trans hv)
    rw [if_pos rfl] at hj
    exact ⟨j, { w with pc := pc }, ht ▸ hj, hvseq.trans hseq.symm, hpc hvseq hvpc⟩
  · rw [if_neg hjk, hv] at hj
    exact ⟨j, v, ht ▸ hj, hvseq.trans hseq.symm, hvpc⟩

/-- A worker that is not behind its first check moves. -/
theorem Renewed.move (hs : Renewed s) (he : Exclusive t) (hw : s.workers[k]? = some w)
    (hpc : w.seq = s.currentSwitchSeq → w.pc.unstarted = true → pc.unstarted = true)
    (hres : pc.restarting = true → Renewing s)
    (ht : t.workers = (s.setWorker k w pc).workers)
    (hseq : t.currentSwitchSeq = s.currentSwitchSeq) : Renewed t where
  exclusive := he
  covered j v hv hvpc := by
    have hr : Renewing s := by
      rw [ht] at hv
      obtain ⟨-, rfl⟩ | ⟨-, hv⟩ := setWorker_cases hv
      · exact hres hvpc
      · exact hs.covered j v hv hvpc
    exact hr.move hw hpc ht hseq

/-- The worker leaves the place where it was the only one to restart a proxy. -/
theorem Renewed.arrive (hs : Renewed s) (he : Exclusive t) (hw : s.workers[k]? = some w)
    (hin : w.pc.inside = true) (hpc : pc.restarting = false)
    (ht : t.workers = (s.setWorker k w pc).workers) : Renewed t where
  exclusive := he
  covered j v hv hvpc := by
    rw [ht] at hv
    obtain ⟨-, rfl⟩ | ⟨hj, hv⟩ := setWorker_cases hv
    · rw [hpc] at hvpc
      cases hvpc
    · exact absurd (hs.exclusive.unique hw hin hv (restarting_inside hvpc)) hj

theorem renewed_step (h : Step s (.worker k) t) (hs : Renewed s) : Renewed t := by
  have he := exclusive_step _ _ _ h hs.exclusive
  cases h with
  | lock hw => exact hs.move he hw (fun _ _ => rfl) (by simp [WorkerPc.restarting]) rfl rfl
  | stopSocksProxy hw hpc =>
    have hr := hs.covered _ _ hw (by simp [hpc, WorkerPc.restarting])
    exact hs.move he hw (fun _ _ => rfl) (fun _ => hr) rfl rfl
  | check hw hpc hseq | recheck hw hpc hseq =>
    exact hs.move he hw (fun _ _ => rfl) (fun _ => ⟨_, _, hw, hseq, by simp [hpc, WorkerPc.unstarted]⟩)
      rfl rfl
  | checkFail hw hpc hseq | recheckFail hw hpc hseq =>
    exact hs.move he hw (fun h => absurd h hseq) (by simp [WorkerPc.restarting]) rfl rfl
  | startSocksProxy hw hpc | startFail hw hpc | finish hw hpc =>
    exact hs.arrive he hw (by simp [hpc, WorkerPc.inside]) rfl rfl

/-- The proxy that a worker stops is started again. -/
theorem alive_step (h : Step s (.worker k) t) (hs : Renewed s) (ha : Alive s) : Alive t := by
  cases h with
  | lock hw | check hw | recheck hw =>
    exact ha.imp_left fun hr => hr.move hw (fun _ _ => rfl) rfl rfl
  | stopSocksProxy hw hpc =>
    have hr := hs.covered _ _ hw (by simp [hpc, WorkerPc.restarting])
    exact .inl (hr.move hw (fun _ _ => rfl) rfl rfl)
  | checkFail hw hpc hseq | recheckFail hw hpc hseq =>
    exact ha.imp_left fun hr => hr.move hw (fun h => absurd h hseq) rfl rfl
  | startSocksProxy => exact .inr (Option.some_ne_none _)
  | startFail _ _ hp => exact .inr hp
  | finish hw hpc =>
    exact ha.imp_left fun hr => hr.move hw (fun _ h => by simp [hpc, WorkerPc.unstarted] at h) rfl rfl

/-- The start of a worker throws. -/
theorem Renewed.throw (hs : Renewed s) (hw : s.workers[k]? = some w) (hpc : w.pc = .starting) :
    Renewed (s.leave k w) :=
  have hin : w.pc.inside = true := by simp [hpc, WorkerPc.inside]
  hs.arrive (hs.exclusive.leave hw hin) hw hin rfl rfl

/-- A worker that is overtaken has left the start to another one. -/
theorem Renewed.throw_alive (hs : Renewed s) (hw : s.workers[k]? = some w) (hpc : w.pc = .starting)
    (hseq : w.seq ≠ s.currentSwitchSeq) : Alive (s.leave k w) := by
  have hr := hs.covered k w hw (by simp [hpc, WorkerPc.restarting])
  exact .inl (hr.move hw (fun h => absurd h hseq) rfl rfl)

end XTunnel.Service.HotSwitch

namespace XTunnel.TProxyService

open Service Profiles HotSwitch

variable {s t : State} {a : Action} {xs : List Action} {intent : Intent} {localPrefs : Preferences}
  {k : Nat}

/-- What is up where the main thread stands. -/
def Placed (s : State) : MainPc → Prop
  | .idle => s.tunFd = false → s.native = false ∧ s.switcher = HotSwitch.initial none
  | .establishing => s.tunFd = false ∧ s.native = false ∧ s.switcher = HotSwitch.initial none
  | .writingConfig | .startingTunnel =>
    s.tunFd = true ∧ s.native = false ∧ s.switcher = HotSwitch.initial none
  | .startingProxy => s.tunFd = true ∧ s.native = true ∧ s.switcher = HotSwitch.initial none
  | .enabling => s.tunFd = true ∧ s.native = true ∧ ∃ args, s.switcher = HotSwitch.initial (some args)

/-- What a proxy needs that a service without a disconnect ahead has. -/
def Supplied (s : State) : Prop :=
  s.enable = true ∧ s.native = true ∧ (Alive s.switcher ∨ ∃ intent, .switch intent ∈ s.pending)

/-- Without a disconnect ahead, an idle service is as the flag says, or gets there by the intents that
are pending. -/
structure Steady (s : State) : Prop where
  renewed : Renewed s.switcher
  placed : Placed s s.main
  down : s.main = .idle → s.tunFd = false → s.pending = [] → s.enable = false
  up : s.main = .idle → s.tunFd = true → .disconnect ∉ s.pending → Supplied s

/-- A disconnect that comes last has switched the flag off, and a service that is not being revoked
is steady. A revoked one exits, whatever its threads do until then. -/
structure Consistent (s : State) : Prop where
  off : s.pending.getLast? = some .disconnect → s.enable = false
  steady : s.revoking = none → Steady s

theorem off_toggle (hoff : s.pending.getLast? = some .disconnect → s.enable = false)
    (enabled hasServer : Bool) :
    (s.toggleConnection enabled hasServer).pending.getLast? = some .disconnect →
      (s.toggleConnection enabled hasServer).enable = false := by
  cases enabled with
  | true => exact fun _ => rfl
  | false =>
    cases hasServer with
    | false => exact hoff
    | true => exact fun h => by simp [State.pending, State.toggleConnection] at h

theorem Steady.toggleConnection (hs : Steady s) (hsend : s.sending = none)
    (enabled hasServer : Bool) : Steady (s.toggleConnection enabled hasServer) := by
  have hp : s.pending = s.intents := by simp [State.pending, hsend]
  cases enabled with
  | true =>
    refine ⟨hs.renewed, hs.placed, fun _ _ h => ?_, fun _ _ h => ?_⟩
    · simp [State.pending, State.toggleConnection] at h
    · simp [State.pending, State.toggleConnection] at h
  | false =>
    cases hasServer with
    | false => exact hs
    | true =>
      refine ⟨hs.renewed, hs.placed, fun _ _ h => ?_, fun hm ht h => ?_⟩
      · simp [State.pending, State.toggleConnection] at h
      · have hsup := hs.up hm ht (by rw [hp]; simpa [State.pending, State.toggleConnection] using h)
        refine ⟨rfl, hsup.2.1, hsup.2.2.imp_right ?_⟩
        rw [hp]
        rintro ⟨intent, hi⟩
        exact ⟨intent, List.mem_append_left _ hi⟩

theorem off_request (hoff : s.pending.getLast? = some .disconnect → s.enable = false)
    (hi : intent ≠ .disconnect)
    (h : (s.intents ++ [intent] ++ s.sending.toList).getLast? = some .disconnect) :
    s.enable = false := by
  refine hoff ?_
  cases hsend : s.sending with
  | none =>
    simp only [hsend, Option.toList_none, List.append_nil, List.getLast?_concat,
      Option.some.injEq] at h
    exact absurd h hi
  | some i => simpa [State.pending, hsend] using h

theorem Steady.request (hs : Steady s) :
    Steady { s with intents := s.intents ++ [intent] } := by
  have hmem : ∀ i ∈ s.pending, i ∈ s.intents ++ [intent] ++ s.sending.toList := by
    intro i hi
    simp only [State.pending, List.mem_append] at hi ⊢
    exact hi.imp_left .inl
  refine ⟨hs.renewed, hs.placed, fun _ _ h => ?_, fun hm ht h => ?_⟩
  · simp [State.pending] at h
  · have hsup := hs.up hm ht fun hd => h (hmem _ hd)
    exact ⟨hsup.1, hsup.2.1, hsup.2.2.imp_right fun ⟨i, hi⟩ => ⟨i, hmem _ hi⟩⟩

theorem pending_send (hsend : s.sending = some intent) :
    State.pending { s with sending := none, intents := s.intents ++ [intent] } = s.pending := by
  simp [State.pending, hsend]

theorem Steady.send (hs : Steady s) (hsend : s.sending = some intent) :
    Steady { s with sending := none, intents := s.intents ++ [intent] } := by
  have hp := pending_send hsend
  refine ⟨hs.renewed, hs.placed, fun hm ht h => hs.down hm ht (hp ▸ h), fun hm ht h => ?_⟩
  have hsup := hs.up hm ht (hp ▸ h)
  exact ⟨hsup.1, hsup.2.1, hsup.2.2.imp_right fun ⟨i, hi⟩ => ⟨i, hp ▸ hi⟩⟩

/-- The process has exited, with intents left that the flag fits to. -/
theorem steady_exit (hdown : s.pending = [] → s.enable = false) : Steady s.stopService where
  renewed := renewed_initial
  placed _ := ⟨rfl, rfl⟩
  down _ _ h := hdown h
  up _ h := absurd h Bool.false_ne_true

theorem pending_deliver {intents : List Intent} (hi : s.intents = intent :: intents) :
    s.pending = intent :: (intents ++ s.sending.toList) := by
  simp [State.pending, hi]

theorem off_deliver {intents : List Intent}
    (hoff : s.pending.getLast? = some .disconnect → s.enable = false)
    (hi : s.intents = intent :: intents)
    (h : (intents ++ s.sending.toList).getLast? = some .disconnect) : s.enable = false := by
  refine hoff ?_
  rw [pending_deliver hi, List.getLast?_cons, h]
  rfl

/-- Serving an intent changes neither the flag nor what is pending behind it. -/
theorem onStartCommand_enable_pending (s : State) (localPrefs : Preferences) (intent : Intent) :
    (s.onStartCommand localPrefs intent).enable = s.enable ∧
      (s.onStartCommand localPrefs intent).pending = s.pending := by
  cases intent with
  | disconnect => exact ⟨rfl, rfl⟩
  | connect | «switch» =>
    unfold State.onStartCommand State.startService
    by_cases ht : s.tunFd = true
    · simp [ht, State.pending]
    · simp [ht, State.pending]

/-- The main thread takes its next intent. -/
theorem Consistent.deliver {intents : List Intent} (hs : Consistent s) (hm : s.main = .idle)
    (hi : s.intents = intent :: intents)
    (hr : (State.onStartCommand { s with intents := intents } localPrefs intent).revoking = none) :
    Steady (State.onStartCommand { s with intents := intents } localPrefs intent) := by
  have hp := pending_deliver hi
  have hidle : Steady s → s.tunFd = false → s.native = false ∧
      s.switcher = HotSwitch.initial none := by
    intro hst
    have hplaced := hst.placed
    rw [hm] at hplaced
    exact hplaced
  have hstart : Steady s → ¬ s.tunFd = true →
      Steady { s with intents := intents, main := .establishing } := by
    intro hst ht
    have ht : s.tunFd = false := Bool.eq_false_iff.mpr ht
    exact ⟨hst.renewed, ⟨ht, hidle hst ht⟩, nofun, nofun⟩
  have hup : Steady s → s.tunFd = true → intent ≠ .disconnect →
      .disconnect ∉ intents ++ s.sending.toList → Supplied s := by
    intro hst ht hne hd
    refine hst.up hm ht ?_
    rw [hp, List.mem_cons, not_or]
    exact ⟨hne.symm, hd⟩
  cases intent with
  | disconnect =>
    refine steady_exit fun h => hs.off ?_
    rw [hp, show intents ++ s.sending.toList = [] from h]
    rfl
  | connect =>
    by_cases ht : s.tunFd = true
    · rw [State.onStartCommand, if_pos ht] at hr ⊢
      have hst := hs.steady hr
      refine ⟨hst.renewed, hst.placed, fun _ h => ?_, fun _ _ h => ?_⟩
      · exact absurd (ht.symm.trans h) nofun
      · obtain ⟨he, hn, ha⟩ := hup hst ht nofun h
        refine ⟨he, hn, ha.imp_right fun ⟨i, hsw⟩ => ⟨i, ?_⟩⟩
        rw [hp, List.mem_cons] at hsw
        exact hsw.resolve_left nofun
    · rw [State.onStartCommand, if_neg ht, State.startService, if_neg ht] at hr ⊢
      exact hstart (hs.steady hr) ht
  | «switch» intent =>
    by_cases ht : s.tunFd = true
    · rw [State.onStartCommand, if_pos ht] at hr ⊢
      have hst := hs.steady hr
      refine ⟨hst.renewed.switchProfile, ?_, fun _ h => ?_, fun _ _ h => ?_⟩
      · rw [hm]
        exact fun h => absurd (ht.symm.trans h) nofun
      · exact absurd (ht.symm.trans h) nofun
      · obtain ⟨he, hn, -⟩ := hup hst ht nofun h
        exact ⟨he, hn, .inl (.inl renewing_switchProfile)⟩
    · rw [State.onStartCommand, if_neg ht, State.startService, if_neg ht] at hr ⊢
      exact hstart (hs.steady hr) ht

/-- While a start is on its way, no worker runs. -/
theorem Placed.workers (h : Placed s s.main) (hm : s.main ≠ .idle) : s.switcher.workers = [] := by
  cases hpc : s.main with
  | idle => exact absurd hpc hm
  | establishing | writingConfig | startingTunnel | startingProxy =>
    rw [hpc] at h
    rw [h.2.2]
    rfl
  | enabling =>
    rw [hpc] at h
    obtain ⟨-, -, args, ha⟩ := h
    rw [ha]
    rfl

/-- A worker has moved, and a proxy is still to be expected if no disconnect comes. -/
theorem Steady.work {sw : HotSwitch.State} (hs : Steady s)
    (hw : s.switcher.workers ≠ []) (hr : Renewed sw)
    (ha : .disconnect ∉ s.pending → Alive s.switcher →
      Alive sw ∨ ∃ intent, .switch intent ∈ s.pending) :
    Steady { s with switcher := sw } := by
  have hm : s.main = .idle := by
    by_cases hm : s.main = .idle
    · exact hm
    · exact absurd (hs.placed.workers hm) hw
  have hplaced := hs.placed
  rw [hm] at hplaced
  refine ⟨hr, ?_, hs.down, fun hm ht hd => ?_⟩
  · rw [show ({ s with switcher := sw } : State).main = .idle from hm]
    intro ht
    have h := (hplaced ht).2
    rw [h] at hw
    exact absurd rfl hw
  · obtain ⟨he, hn, hal⟩ := hs.up hm ht hd
    exact ⟨he, hn, hal.elim (ha hd) .inr⟩

theorem Expected.down {enable : Bool} {pending : List Intent} (h : Expected enable pending)
    (hp : pending = []) : enable = false := by
  subst hp
  refine Bool.eq_false_iff.mpr fun he => ?_
  obtain ⟨intent, hl, -⟩ := h he
  cases hl

theorem Expected.off {enable : Bool} {pending : List Intent} (h : Expected enable pending)
    (hl : pending.getLast? = some .disconnect) : enable = false := by
  refine Bool.eq_false_iff.mpr fun he => ?_
  obtain ⟨intent, hl', hne⟩ := h he
  exact hne (Option.some.inj (hl'.symm.trans hl))

/-- No careful step puts a disconnect last while the flag is on. -/
theorem off_step (h : Guarded Step Careful s a t)
    (hoff : s.pending.getLast? = some .disconnect → s.enable = false) :
    t.pending.getLast? = some .disconnect → t.enable = false := by
  obtain ⟨hg, hst⟩ := h
  cases hst with
  | toggle enabled hasServer => exact off_toggle hoff enabled hasServer
  | send hsend =>
    rw [pending_send hsend]
    exact hoff
  | request hi => exact off_request hoff hi
  | deliver localPrefs hm hi =>
    rw [(onStartCommand_enable_pending _ _ _).1, (onStartCommand_enable_pending _ _ _).2]
    exact off_deliver (s := s) hoff hi
  | @revokeNext pc => cases pc <;> exact hoff
  | establishFails => exact hg.off
  | startProxyThrows closed =>
    cases closed with
    | true => exact hg.off
    | false => exact hg.2
  | setEnable => exact fun h => absurd h hg
  | _ => exact hoff

/-- A careful step into a state where no revocation is under way leads to a steady one. -/
theorem steady_step (h : Guarded Step Careful s a t) (hs : Consistent s) (hr : t.revoking = none) :
    Steady t := by
  obtain ⟨hg, hst⟩ := h
  cases hst with
  | toggle enabled hasServer hsend =>
    have hrs : s.revoking = none := by
      revert hr
      unfold State.toggleConnection
      split
      · exact id
      · split <;> exact id
    exact (hs.steady hrs).toggleConnection hsend enabled hasServer
  | send hsend => exact (hs.steady hr).send hsend
  | request => exact (hs.steady hr).request
  | deliver localPrefs hm hi => exact hs.deliver hm hi hr
  | revoke => cases hr
  | @revokeNext pc hpc =>
    cases pc with
    | exit => exact steady_exit (hg hpc).down
    | stopSocksProxy | stopTunnel | closeTunFd => cases hr
  | establish hm =>
    have hst := hs.steady hr
    have hplaced := hst.placed
    rw [hm] at hplaced
    exact ⟨hst.renewed, ⟨rfl, hplaced.2⟩, nofun, nofun⟩
  | establishFails hm =>
    have hst := hs.steady hr
    have hplaced := hst.placed
    rw [hm] at hplaced
    refine ⟨hst.renewed, fun _ => hplaced.2, fun _ _ => hg.down, fun _ ht => ?_⟩
    exact absurd (hplaced.1.symm.trans ht) nofun
  | writeConfig hm =>
    have hst := hs.steady hr
    have hplaced := hst.placed
    rw [hm] at hplaced
    exact ⟨hst.renewed, hplaced, nofun, nofun⟩
  | writeConfigFails hm =>
    have hst := hs.steady hr
    have hplaced := hst.placed
    rw [hm] at hplaced
    refine ⟨hst.renewed, fun _ => hplaced.2, fun _ ht => ?_, fun _ _ hd => absurd hg hd⟩
    exact absurd (hplaced.1.symm.trans ht) nofun
  | startTunnel hm =>
    have hst := hs.steady hr
    have hplaced := hst.placed
    rw [hm] at hplaced
    exact ⟨hst.renewed, ⟨hplaced.1, rfl, hplaced.2.2⟩, nofun, nofun⟩
  | startProxy args hm =>
    have hplaced := (hs.steady hr).placed
    rw [hm] at hplaced
    obtain ⟨ht, hn, hsw⟩ := hplaced
    have hsw' : ({ s.switcher with proxy := some args } : HotSwitch.State) =
        HotSwitch.initial (some args) := by
      rw [hsw]
      rfl
    exact ⟨hsw' ▸ renewed_initial, ⟨ht, hn, args, hsw'⟩, nofun, nofun⟩
  | startProxyThrows closed hm =>
    have hst := hs.steady hr
    have hplaced := hst.placed
    rw [hm] at hplaced
    cases closed with
    | true => exact ⟨hst.renewed, fun _ => ⟨rfl, hplaced.2.2⟩, fun _ _ => hg.down, nofun⟩
    | false =>
      exact ⟨hst.renewed, fun _ => ⟨rfl, hplaced.2.2⟩, nofun, fun _ _ hd => absurd hg.1 hd⟩
  | destroy hm =>
    have hst := hs.steady hr
    have hplaced := hst.placed
    rw [hm] at hplaced
    refine ⟨hst.renewed, ?_, fun _ _ => hst.down hm hg, nofun⟩
    rw [show ({ s with tunFd := false, stopping := false } : State).main = .idle from hm]
    exact fun _ => hplaced hg
  | setEnable hm =>
    have hst := hs.steady hr
    have hplaced := hst.placed
    rw [hm] at hplaced
    obtain ⟨ht, hn, args, hsw⟩ := hplaced
    refine ⟨hst.renewed, fun h => ?_, fun _ h => ?_, fun _ _ _ => ⟨rfl, hn, .inl ?_⟩⟩
    · exact absurd (ht.symm.trans h) nofun
    · exact absurd (ht.symm.trans h) nofun
    · rw [hsw]
      exact .inr nofun
  | worker hw =>
    have hst := hs.steady hr
    obtain ⟨w, pc, hk, -⟩ := worker_step hw
    exact hst.work (List.ne_nil_of_mem (List.mem_of_getElem? hk)) (renewed_step hw hst.renewed)
      fun _ ha => .inl (alive_step hw hst.renewed ha)
  | @workerThrows k w hk hpc =>
    have hst := hs.steady hr
    refine hst.work (List.ne_nil_of_mem (List.mem_of_getElem? hk)) (hst.renewed.throw hk hpc)
      fun hd _ => ?_
    rcases hg with ⟨w', hk', hseq⟩ | hsw | hdis
    · obtain rfl := Option.some.inj (hk.symm.trans hk')
      exact .inl (hst.renewed.throw_alive hk hpc hseq)
    · exact .inr hsw
    · exact absurd hdis hd

theorem consistent_step : Preserves (Guarded Step Careful) Consistent := fun _ _ _ h hs =>
  ⟨off_step h hs.off, steady_step h hs⟩

/-- The arguments of a start on blank preferences. -/
def blankArgs : StartArgs :=
  (switchRequest (HotSwitch.intentOfConn 1) HotSwitch.blankPrefs).startArgs

def connected : State :=
  ⟨true, none, [], .idle, true, true, HotSwitch.initial (some blankArgs), false, none⟩

/-- A service that is revoked while the flag is off writes the flag before its process exits. -/
theorem revoked_enable_left_on : ∃ xs s, Run Step initial xs s ∧ s.Quiescent ∧ s.enable = true ∧
    ¬ s.Up := by
  have hr : Run Step initial [.request .connect, .deliver HotSwitch.blankPrefs, .establish, .revoke,
      .writeConfig, .startTunnel, .startProxy blankArgs, .setEnable, .revokeNext, .revokeNext,
      .revokeNext, .revokeNext] { initial with enable := true } :=
    .stepL (.request nofun) <|
      .stepL (.deliver HotSwitch.blankPrefs rfl rfl) <|
      .stepL (.establish rfl) <|
      .stepL (.revoke (.inl rfl) rfl) <|
      .stepL (.writeConfig rfl) <|
      .stepL (.startTunnel rfl) <|
      .stepL (.startProxy blankArgs rfl) <|
      .stepL (.setEnable rfl) <|
      .stepL (.revokeNext rfl) <|
      .stepL (.revokeNext rfl) <|
      .stepL (.revokeNext rfl) <|
      .single (@Step.revokeNext _ .exit rfl)
  exact ⟨_, _, hr, ⟨rfl, rfl, rfl, nofun, rfl, rfl⟩, rfl, fun h => absurd h.1 nofun⟩

end XTunnel.TProxyService
