import XTunnel.Service.Invariant

/-! Whole calls, a start that succeeds and a stop, and whole attempts of a dial goroutine. -/
namespace XTunnel.Service

open Net Socks5

variable {parse : Text → Option Url} {G : State → Action → Prop} {s t : State} {a : Action}
  {args : StartArgs} {scheme : Scheme} {k i : Nat} {d : Dialer} {g : Globals} {p : ECHPool}
  {gen : Generation} {pc pc' : DialPc} {serverName : Text}

def Setting.all : List Setting :=
  [.connectionNum, .dnsServer, .defaultDnsServer, .echDomain, .defaultEchDomain, .token, .fallback,
   .insecure, .forceFallback, .ipStrategy, .udpBlockPorts]

/-- The globals after the assignments of a start. -/
def Globals.configured (g : Globals) (args : StartArgs) : Globals :=
  Setting.all.foldl (fun g setting => setting.write args g) g

/-- The pool of a start. -/
def StartArgs.pool (args : StartArgs) (uuid : Text) : ECHPool :=
  newECHPool args.wsServer args.connectionNum args.targetIPs uuid

namespace State

/-- The process after the assignments of a start. -/
def configured (s : State) (args : StartArgs) (c : Call) : State :=
  { s with globals := s.globals.configured args, serviceMu := some c }

/-- The process after a start that succeeds. -/
def launched (s : State) (args : StartArgs) (uuid : Text) (fetchers : List FetchPc) : State :=
  { s.startPool s.generations.length (args.pool uuid) with
    globals := { s.globals.configured args with
      clientID := uuid, proxyListener := some s.generations.length
      echPool := some s.generations.length }
    serviceMu := none
    fetchers := fetchers
    generations := s.generations ++ [⟨args, args.pool uuid, .accepting⟩] }

/-- The process after a stop. -/
def halted (s : State) : State :=
  (({ s with globals := { s.globals with proxyListener := none, echPool := none } }.closeListener
    s.globals.proxyListener).closePool s.globals.echPool).unlock

end State

/-- A step of a start other than an assignment. -/
def Action.launches : Action → Bool
  | .start _ | .prepareECH | .awaitECH | .newPool | .startPool | .listen | .publish | .serve => true
  | _ => false

/-- The assignments of a start, one after the other. -/
theorem run_configure (hc : s.crashed = false)
    (hm : s.serviceMu = some (.configure args scheme .connectionNum))
    (hG : ∀ u setting, u.dialers = s.dialers → G u (.configure args setting)) :
    Run (Guarded (Step parse) G) s (Setting.all.map (.configure args))
      (s.configured args (.prepareECH args scheme)) := by
  have step : ∀ (u : State) setting, u.serviceMu = some (.configure args scheme setting) →
      u.dialers = s.dialers → u.crashed = false →
      Guarded (Step parse) G u (.configure args setting) _ :=
    fun u setting hu hd hc => ⟨hG u setting hd, .call hc (.configure hu)⟩
  exact .stepL (step _ _ hm rfl hc) <| .stepL (step _ _ rfl rfl hc) <|
    .stepL (step _ _ rfl rfl hc) <| .stepL (step _ _ rfl rfl hc) <|
    .stepL (step _ _ rfl rfl hc) <| .stepL (step _ _ rfl rfl hc) <|
    .stepL (step _ _ rfl rfl hc) <| .stepL (step _ _ rfl rfl hc) <|
    .stepL (step _ _ rfl rfl hc) <| .stepL (step _ _ rfl rfl hc) <|
    .single (step _ _ rfl rfl hc)

/-- The call goes on to its pool, with the ECH list or without. -/
theorem run_prepareECH (hc : s.crashed = false) (hm : s.serviceMu = some (.prepareECH args scheme))
    (hG : ∀ u a, u.globals.echList = s.globals.echList → a.launches = true → G u a) :
    ∃ xs fetchers, xs ⊆ [.prepareECH, .awaitECH] ∧ Run (Guarded (Step parse) G) s xs
      { s with fetchers := fetchers, serviceMu := some (.newPool args) } := by
  by_cases hskip : scheme = .wss → s.globals.fallback = true
  · exact ⟨[.prepareECH], s.fetchers, by simp,
      .single ⟨hG _ _ rfl rfl, .call hc (.skipECH hm hskip)⟩⟩
  · simp only [Classical.not_imp, Bool.not_eq_true] at hskip
    obtain ⟨rfl, hf⟩ := hskip
    exact ⟨[.prepareECH, .awaitECH], s.fetchers ++ [.asking], by simp,
      .stepL ⟨hG _ _ rfl rfl, .call hc (.prepareECH hm hf)⟩
      (.single ⟨hG _ _ rfl rfl, .call hc (.awaitECH rfl)⟩)⟩

theorem modify_last {α : Type*} (l : List α) (x : α) (f : α → α) :
    (l ++ [x]).modify l.length f = l ++ [f x] := by
  induction l with
  | nil => rfl
  | cons y l ih => exact congrArg (y :: ·) ih

/-- The pool is made and started, and its listener published. -/
theorem run_serve (hc : s.crashed = false) (hm : s.serviceMu = some (.newPool args))
    (hn : s.globals.connectionNum = args.connectionNum) (uuid : Text)
    (hG : ∀ u a, u.globals.echList = s.globals.echList → a.launches = true → G u a) :
    Run (Guarded (Step parse) G) s [.newPool, .startPool, .listen, .publish, .serve]
      { s.startPool s.generations.length (args.pool uuid) with
        globals := { s.globals with
          clientID := uuid, proxyListener := some s.generations.length
          echPool := some s.generations.length }
        serviceMu := none
        generations := s.generations ++ [⟨args, args.pool uuid, .accepting⟩] } := by
  have hserve : s.generations ++ [⟨args, args.pool uuid, .accepting⟩] =
      ((s.generations ++ [(⟨args, args.pool uuid, .absent⟩ : Generation)]).modify
        s.generations.length fun g => { g with listener := .bound }).modify
        s.generations.length fun g => { g with listener := .accepting } := by
    rw [modify_last, modify_last]
  have hnew := @CallStep.newPool parse s args uuid hm
  rw [State.addGeneration, hn] at hnew
  rw [hserve]
  exact .stepL ⟨hG _ _ rfl rfl, .call hc hnew⟩ <|
    .stepL ⟨hG _ _ rfl rfl, .call hc (.startPool rfl List.getElem?_concat_length)⟩ <|
    .stepL ⟨hG _ _ rfl rfl, .call hc (.listen rfl)⟩ <|
    .stepL ⟨hG _ _ rfl rfl, .call hc (.publish rfl)⟩ <|
    .single ⟨hG _ _ rfl rfl, .call hc (.serve rfl)⟩

/-- The labels of a start between its first step and its last. -/
def launching (args : StartArgs) (xs : List Action) : List Action :=
  Setting.all.map (.configure args) ++ (xs ++ [.newPool, .startPool, .listen, .publish])

/-- A start of a stopped service can succeed, whatever earlier services left behind. -/
theorem run_startCall (hc : s.crashed = false) (hm : s.serviceMu = none) (hs : s.Stopped)
    (hargs : checkArgs parse args = .ok scheme) (uuid : Text)
    (hset : ∀ u setting, u.dialers = s.dialers → G u (.configure args setting))
    (hG : ∀ u a, u.globals.echList = s.globals.echList → a.launches = true → G u a) :
    ∃ xs fetchers, xs ⊆ [.prepareECH, .awaitECH] ∧ Run (Guarded (Step parse) G) s
      (.start args :: (launching args xs ++ [.serve])) (s.launched args uuid fetchers) := by
  have hconf : Run (Guarded (Step parse) G)
      (s.setCall (.configure args scheme .connectionNum)) _ _ := run_configure hc rfl hset
  obtain ⟨ys, fetchers, hys, hprep⟩ : ∃ ys fetchers, ys ⊆ [.prepareECH, .awaitECH] ∧
      Run (Guarded (Step parse) G) (s.configured args (.prepareECH args scheme)) ys
        { s.configured args (.newPool args) with fetchers := fetchers } :=
    run_prepareECH (s := s.configured args (.prepareECH args scheme)) hc rfl hG
  have hserve : Run (Guarded (Step parse) G)
      { s.configured args (.newPool args) with fetchers := fetchers } _
      (s.launched args uuid fetchers) :=
    run_serve (s := { s.configured args (.newPool args) with fetchers := fetchers }) hc rfl rfl
      uuid hG
  refine ⟨ys, fetchers, hys, ?_⟩
  have hall := hconf.append (hprep.append hserve)
  rw [launching, List.append_assoc, List.append_assoc]
  exact .stepL ⟨hG _ _ rfl rfl, .call hc (.start hm hargs hs.1 hs.2)⟩ hall

theorem run_start (hc : s.crashed = false) (hm : s.serviceMu = none) (hs : s.Stopped)
    (hargs : checkArgs parse args = .ok scheme) (uuid : Text)
    (hset : ∀ u setting, u.dialers = s.dialers → G u (.configure args setting))
    (hG : ∀ u a, u.globals.echList = s.globals.echList → a.launches = true → G u a) :
    ∃ xs fetchers, Run (Guarded (Step parse) G) s xs (s.launched args uuid fetchers) := by
  obtain ⟨xs, fetchers, -, hr⟩ := run_startCall hc hm hs hargs uuid hset hG
  exact ⟨_, fetchers, hr⟩

/-- A stop runs through. -/
theorem run_stop (hc : s.crashed = false) (hm : s.serviceMu = none)
    (hclear : ∀ u, u.handlers = s.handlers → G u .stopClear)
    (hG : ∀ u, G u .stop ∧ G u .stopListener ∧ G u .stopPool) :
    Run (Guarded (Step parse) G) s [.stop, .stopClear, .stopListener, .stopPool] s.halted := by
  have hlast : ∀ (u : State) l p, u.crashed = false → Run (Guarded (Step parse) G)
      (u.setCall (.stopListener l p)) [.stopListener, .stopPool]
      ((u.closeListener l).closePool p).unlock := by
    intro u l p hu
    have hclose : ∀ v : State, v.crashed = false → v.serviceMu = some (.stopPool p) →
        Run (Guarded (Step parse) G) v [.stopPool] (v.closePool p).unlock :=
      fun v hv hmu => .single ⟨(hG v).2.2, .call hv (.stopPool hmu)⟩
    cases l <;> cases p <;> exact .stepL ⟨(hG _).2.1, .call hu (.stopListener rfl)⟩
      (hclose (State.setCall _ _) hu rfl)
  exact .stepL ⟨(hG _).1, .call hc (.stop hm)⟩ (.stepL ⟨hclear _ rfl, .call hc (.stopClear rfl)⟩
    (hlast { s with globals := { s.globals with proxyListener := none, echPool := none } } _ _ hc))

theorem setDialer_get (hk : s.dialers[k]? = some d) :
    (s.setDialer k d pc).dialers[k]? = some { d with pc := pc } := by
  obtain ⟨hlt, -⟩ := List.getElem?_eq_some_iff.mp hk
  exact List.getElem?_set_self hlt

theorem setDialer_setDialer (s : State) (k : Nat) (d : Dialer) (pc pc' : DialPc) :
    (s.setDialer k d pc).setDialer k { d with pc := pc } pc' = s.setDialer k d pc' := by
  simp [State.setDialer]

/-- The steps of one goroutine, with the others at rest. -/
theorem run_dialer (hc : s.crashed = false) (hk : s.dialers[k]? = some d)
    (hg : s.generations[d.gen]? = some gen) (hG : ∀ u, G u (.dialer k))
    (h : Relation.TransGen (DialStep parse s.globals gen.pool) d.pc pc) :
    ∃ xs, Run (Guarded (Step parse) G) s xs (s.setDialer k d pc) := by
  induction h with
  | single h => exact ⟨_, .single ⟨hG s, .go hc (.dialer hk hg h)⟩⟩
  | tail _ h ih =>
    obtain ⟨xs, hr⟩ := ih
    rw [← setDialer_setDialer]
    exact ⟨_, hr.stepR ⟨hG _, .go hc (.dialer (setDialer_get hk) hg h)⟩⟩

def Globals.subprotocols (g : Globals) : List Text := if g.token = [] then [] else [g.token]

theorem newDialer_steps {tls : Option TLSConfig} :
    Relation.TransGen (DialStep parse g p) (.newDialer i tls) (.dialing i tls g.subprotocols) := by
  unfold Globals.subprotocols
  split
  · rename_i ht
    exact .single (.noToken ht)
  · rename_i ht
    exact .tail (.single (.token ht)) .subprotocol

/-- An attempt builds its TLS configuration and its dialer from the globals of that moment. -/
theorem attempt_steps (he : endpoint parse p.wsServerAddr = some (scheme, serverName))
    (hl : g.fallback = true ∨ g.echList ≠ []) :
    ∃ c, Relation.TransGen (DialStep parse g p) (.buildTLS i)
        (.dialing i (some c) g.subprotocols) ∧
      c.insecureSkipVerify = g.insecure ∧ c.rejectionVerify = !g.fallback := by
  cases hf : g.fallback with
  | true =>
    exact ⟨buildStandardTLSConfig g serverName,
      .trans (.tail (.single (.fallback hf)) (.standard he)) newDialer_steps, rfl, rfl⟩
  | false =>
    have hne : g.echList ≠ [] := hl.resolve_left (by simp [hf])
    exact ⟨_, .trans (.tail (.tail (.tail (.single (.noFallback hf)) (.listLock hf))
      (.listRead hne)) (.unified he)) newDialer_steps, rfl, rfl⟩

/-- The dial of a goroutine whose dialer is built. -/
theorem run_dial {tls : Option TLSConfig} {subprotocols : List Text} (hc : s.crashed = false)
    (hk : s.dialers[k]? = some d) (hg : s.generations[d.gen]? = some gen)
    (hpc : d.pc = .dialing i tls subprotocols)
    (he : endpoint parse gen.pool.wsServerAddr = some (scheme, serverName))
    (hG : G s (.dial k)) : Run (Guarded (Step parse) G) s [.dial k]
      ((s.addDial ⟨d.gen, gen.pool.wsServerAddr, d.ip, gen.pool.clientID, d.idx + 1, scheme,
        subprotocols, tls⟩).setDialer k d (.dialed i scheme)) :=
  .single ⟨hG, .go hc (.dial hk hg hpc he)⟩

/-- An attempt runs through to its dial. -/
theorem run_attempt (hc : s.crashed = false) (hk : s.dialers[k]? = some d)
    (hg : s.generations[d.gen]? = some gen) (hpc : d.pc = .buildTLS i)
    (he : endpoint parse gen.pool.wsServerAddr = some (.wss, serverName))
    (hl : s.globals.fallback = true ∨ s.globals.echList ≠ [])
    (hG : ∀ u, G u (.dialer k) ∧ G u (.dial k)) :
    ∃ xs c, Run (Guarded (Step parse) G) s xs
        ((s.addDial ⟨d.gen, gen.pool.wsServerAddr, d.ip, gen.pool.clientID, d.idx + 1, .wss,
          s.globals.subprotocols, some c⟩).setDialer k d (.dialed i .wss)) ∧
      c.insecureSkipVerify = s.globals.insecure ∧ c.rejectionVerify = !s.globals.fallback := by
  obtain ⟨c, hsteps, hc'⟩ := attempt_steps (i := i) he hl
  obtain ⟨xs, hr⟩ := run_dialer hc hk hg (fun u => (hG u).1) (hpc ▸ hsteps)
  have hd := run_dial (s := s.setDialer k d (.dialing i (some c) s.globals.subprotocols))
    (d := { d with pc := .dialing i (some c) s.globals.subprotocols }) hc (setDialer_get hk) hg rfl
    he (hG _).2
  refine ⟨xs ++ [.dial k], c, ?_, hc'⟩
  rw [← setDialer_setDialer _ _ _ (.dialing i (some c) s.globals.subprotocols)]
  exact hr.append hd

/-- A goroutine of a running pool connects. -/
theorem run_connect (hc : s.crashed = false) (hk : s.dialers[k]? = some d)
    (hg : s.generations[d.gen]? = some gen) (hpc : d.pc = .top)
    (hlive : gen.pool.cancelled = false)
    (he : endpoint parse gen.pool.wsServerAddr = some (.wss, serverName))
    (hl : s.globals.fallback = true ∨ s.globals.echList ≠ [])
    (hG : ∀ u, G u (.dialer k) ∧ G u (.dial k)) :
    ∃ xs x, Run (Guarded (Step parse) G) s xs ((s.addDial x).setDialer k d .serving) ∧
      x.subprotocols = s.globals.subprotocols := by
  have hsecure : Relation.TransGen (DialStep parse s.globals gen.pool) d.pc (.buildTLS 1) :=
    hpc ▸ .single (.secure hlive he)
  obtain ⟨xs, hr⟩ := run_dialer hc hk hg (fun u => (hG u).1) hsecure
  obtain ⟨ys, c, hr', -⟩ := run_attempt (s := s.setDialer k d (.buildTLS 1))
    (d := { d with pc := .buildTLS 1 }) hc (setDialer_get hk) hg rfl he hl hG
  have hserve := hr'.stepR ⟨(hG _).1, .go hc (.dialer (setDialer_get (setDialer_get hk)) hg
    .connected)⟩
  have hsame : ∀ x : Dial, (((s.setDialer k d (.buildTLS 1)).addDial x).setDialer k
      { d with pc := .buildTLS 1 } (.dialed 1 .wss)).setDialer k { d with pc := .dialed 1 .wss }
      .serving = (s.addDial x).setDialer k d .serving := by
    intro x
    simp [State.setDialer, State.addDial]
  exact ⟨_, _, hsame _ ▸ hr.append hserve, rfl⟩

/-- No condition on the steps. -/
def Unguarded (_ : State) (_ : Action) : Prop := True

/-- `url.Parse` on an address of the form `scheme://name/`. -/
def parsePlain (s : Text) : Option Url :=
  (cutFirst colon s).bind fun (scheme, rest) =>
    match rest with
    | 47 :: 47 :: rest => (cutFirst 47 rest).map fun (hostname, _) => ⟨scheme, hostname⟩
    | _ => none

/-- `wss://a.example/`, without ECH. -/
def nodeA : StartArgs :=
  { host := [58, 49], wsServer := [119, 115, 115, 58, 47, 47, 97, 46, 101, 120, 97, 109, 112, 108, 101, 47]
    n := 1, udpBlockPortsStr := [], dns := [], ech := [], ip := [], tkn := [97], fb := true
    ipsPref := [], insecureFlag := false }

/-- `wss://b.example/`, without ECH. -/
def nodeB : StartArgs :=
  { nodeA with
    wsServer := [119, 115, 115, 58, 47, 47, 98, 46, 101, 120, 97, 109, 112, 108, 101, 47]
    tkn := [98] }

/-- Node A, freshly started. -/
def servingA (fetchers : List FetchPc) : State := initial.launched nodeA [1] fetchers

theorem run_servingA {G : State → Action → Prop}
    (hset : ∀ u setting, u.dialers = [] → G u (.configure nodeA setting))
    (hG : ∀ u a, a.launches = true → G u a) :
    ∃ xs fetchers, Run (Guarded (Step parsePlain) G) initial xs (servingA fetchers) :=
  run_start rfl rfl ⟨rfl, rfl⟩ rfl [1] hset fun u a _ => hG u a

end XTunnel.Service
