import XTunnel.Copy

/-! `proxyConnStream`: the two copies between a client connection and a tunnel stream, and the
closing of both ends that the first of them to return sets off. -/
namespace XTunnel.Service.ProxyConn

open Copy (Ends)

/-- The next statement of `proxyConnStream`, after it has started the two goroutines. -/
inductive Pc
  | firstDone
  | streamClose
  | connClose
  | secondDone
  | returned
deriving DecidableEq

/-- `up` is `io.Copy(stream, c)`, `down` is `io.Copy(c, stream)`. A goroutine that is done has sent
its value, for the channel has room for both. -/
structure State where
  up : Copy UInt8
  down : Copy UInt8
  pc : Pc

def State.streamClosed (s : State) : Bool :=
  match s.pc with
  | .firstDone | .streamClose => false
  | .connClose | .secondDone | .returned => true

def State.connClosed (s : State) : Bool :=
  match s.pc with
  | .firstDone | .streamClose | .connClose => false
  | .secondDone | .returned => true

/-- A write to the stream may fail at any time. -/
def State.upEnds (s : State) : Ends where
  delivers := !s.connClosed
  breaks := s.connClosed
  accepts := !s.streamClosed
  refuses := true

/-- The client takes what is written while the connection is open. A closed stream may still hand
out what it has received, or fail. -/
def State.downEnds (s : State) : Ends where
  delivers := true
  breaks := s.streamClosed
  accepts := !s.connClosed
  refuses := s.connClosed

inductive Action
  | up (a : Copy.Action)
  | down (a : Copy.Action)
  | main
deriving DecidableEq

inductive Step : State → Action → State → Prop
  | up {s : State} {a : Copy.Action} {c : Copy UInt8} :
      Copy.Step s.upEnds s.up a c → Step s (.up a) { s with up := c }
  | down {s : State} {a : Copy.Action} {c : Copy UInt8} :
      Copy.Step s.downEnds s.down a c → Step s (.down a) { s with down := c }
  | firstDone {s : State} : s.pc = .firstDone → s.up.done = true ∨ s.down.done = true →
      Step s .main { s with pc := .streamClose }
  | streamClose {s : State} : s.pc = .streamClose → Step s .main { s with pc := .connClose }
  | connClose {s : State} : s.pc = .connClose → Step s .main { s with pc := .secondDone }
  | secondDone {s : State} : s.pc = .secondDone → s.up.done = true → s.down.done = true →
      Step s .main { s with pc := .returned }

/-- The client sends `request` before its side ends, the stream `response`. -/
def initial (request response : List UInt8) : State where
  up := { unread := request }
  down := { unread := response }
  pc := .firstDone

/-- The upload ends only when no response data is left to write. -/
def UploadEndsLast (s : State) : Action → Prop
  | .up a => a.ends = true → s.down.left = []
  | .down _ | .main => True

variable {request response : List UInt8} {s t : State} {a : Copy.Action} {xs : List Action}

/-- What every run keeps, whichever side ends first. -/
structure Carried (response : List UInt8) (s : State) : Prop where
  conserved : s.down.written ++ s.down.left = response
  ahead : s.up.done = false → s.down.done = true ∨ s.pc ≠ .firstDone → s.down.left = []
  joined : s.pc = .returned → s.down.done = true

theorem carried_initial : Carried response (initial request response) where
  conserved := rfl
  ahead := by
    rintro - (h | h)
    · cases h
    · exact absurd rfl h
  joined := by
    intro h
    cases h

theorem closed_of_pc (h : s.pc = .firstDone) : s.streamClosed = false ∧ s.connClosed = false := by
  constructor
  · rw [State.streamClosed, h]
  · rw [State.connClosed, h]

/-- The download stops early only after the closing has begun. -/
theorem down_stopped {c : Copy UInt8} (h : Copy.Step s.downEnds s.down a c) (hd : c.done = true)
    (hne : c.left ≠ []) : s.pc ≠ .firstDone := by
  intro hpc
  obtain ⟨hstream, hconn⟩ := closed_of_pc hpc
  rcases h.stopped hd hne with hx | ⟨hx, -⟩
  · exact absurd (hx.symm.trans hstream) (by decide)
  · exact absurd (hx.symm.trans hconn) (by decide)

/-- Past the first `<-done` the function only moves on. -/
theorem Carried.past {pc : Pc} (h : Carried response s) (hpc : s.pc ≠ .firstDone)
    (hret : pc = .returned → s.down.done = true) : Carried response { s with pc := pc } where
  conserved := h.conserved
  ahead hup _ := h.ahead hup (.inr hpc)
  joined := hret

theorem carried_step : Preserves Step (Carried response) := by
  intro s x t h hs
  cases h with
  | up hc =>
    constructor
    · exact hs.conserved
    · exact fun _ => hs.ahead hc.running
    · exact hs.joined
  | @down _ c hc =>
    constructor
    · exact hc.conserved.trans hs.conserved
    · intro hup hend
      by_cases hleft : c.left = []
      · exact hleft
      · have hpc : s.pc ≠ .firstDone := by
          rcases hend with hd | hpc
          · exact down_stopped hc hd hleft
          · exact hpc
        exact hc.left_nil (hs.ahead hup (.inr hpc))
    · intro hret
      have hd := hs.joined hret
      rw [hc.running] at hd
      cases hd
  | firstDone hpc hor =>
    constructor
    · exact hs.conserved
    · intro hup _
      rcases hor with hd | hd
      · rw [hup] at hd
        cases hd
      · exact hs.ahead hup (.inl hd)
    · intro hret
      cases hret
  | streamClose hpc =>
    refine hs.past (by simp [hpc]) ?_
    intro hret
    cases hret
  | connClose hpc =>
    refine hs.past (by simp [hpc]) ?_
    intro hret
    cases hret
  | secondDone hpc _ hd => exact hs.past (by simp [hpc]) fun _ => hd

theorem Carried.written_eq (h : Carried response s) (hleft : s.down.left = []) :
    s.down.written = response := by
  have hw := h.conserved
  rwa [hleft, List.append_nil] at hw

/-- When everything is written, it stays so. -/
theorem left_nil_step : Preserves Step fun s => s.down.left = [] := by
  intro s x t h hs
  cases h with
  | down hc => exact hc.left_nil hs
  | up _ => exact hs
  | firstDone _ _ => exact hs
  | streamClose _ => exact hs
  | connClose _ => exact hs
  | secondDone _ _ _ => exact hs

/-- Nothing is left when the upload is over. -/
def Drained (s : State) : Prop := s.up.done = true → s.down.left = []

theorem drained_step : Preserves (Guarded Step UploadEndsLast) Drained := by
  rintro s x t ⟨hg, h⟩ hs
  cases h with
  | up hc => exact fun hd => hg (hc.done_iff.mp hd)
  | down hc => exact fun hd => hc.left_nil (hs hd)
  | firstDone _ _ => exact hs
  | streamClose _ => exact hs
  | connClose _ => exact hs
  | secondDone _ _ _ => exact hs

/-- The download by itself is a guarded run. -/
theorem run_down {ys : List Copy.Action} {c d : Copy UInt8} {e : Ends}
    (h : Run (Copy.Step e) c ys d) (he : e = s.downEnds) :
    Run (Guarded Step UploadEndsLast) { s with down := c } (ys.map .down) { s with down := d } := by
  induction h with
  | refl => exact .refl
  | @stepL c f d a ys hs _ ih =>
    subst he
    have hstep : Step { s with down := c } (.down a) { s with down := f } :=
      .down (s := { s with down := c }) hs
    exact .stepL ⟨trivial, hstep⟩ ih

/-- When the upload ends last, the response arrives: nothing is lost on the way, all of it is
written when the download or the function is over, and until then the download alone writes it. -/
theorem proxyConnStream_delivers
    (h : Run (Guarded Step UploadEndsLast) (initial request response) xs s) :
    s.down.written ++ s.down.left = response ∧
      (s.down.done = true ∨ s.pc = .returned → s.down.written = response) ∧
      ∃ (ys : List Copy.Action) (t : State),
        Run (Guarded Step UploadEndsLast) s (ys.map .down) t ∧ t.down.written = response := by
  have hc : Carried response s := h.of_guarded.invariant carried_step carried_initial
  have hd : Drained s := by
    refine h.invariant drained_step ?_
    intro hup
    cases hup
  refine ⟨hc.conserved, ?_, ?_⟩
  · intro hend
    have hdone : s.down.done = true := by
      rcases hend with hdone | hret
      · exact hdone
      · exact hc.joined hret
    cases hup : s.up.done with
    | true => exact hc.written_eq (hd hup)
    | false => exact hc.written_eq (hc.ahead hup (.inl hdone))
  · by_cases hleft : s.down.left = []
    · exact ⟨[], s, .refl, hc.written_eq hleft⟩
    · have hup : s.up.done = false := Bool.eq_false_iff.mpr (mt hd hleft)
      have hahead : ¬ (s.down.done = true ∨ s.pc ≠ .firstDone) := mt (hc.ahead hup) hleft
      obtain ⟨hdown, hpc⟩ := not_or.mp hahead
      obtain ⟨-, hconn⟩ := closed_of_pc (Classical.not_not.mp hpc)
      have haccepts : s.downEnds.accepts = true := by rw [State.downEnds, hconn]; rfl
      obtain ⟨ys, d, hrun, hw⟩ :=
        Copy.drains (e := s.downEnds) rfl haccepts (Bool.eq_false_iff.mpr hdown)
      exact ⟨ys, { s with down := d }, run_down hrun rfl, hw.trans hc.conserved⟩

/-- The state after a response of one byte has been copied and both sides have ended. -/
def oneByteCopied : State where
  up := { unread := [], done := true }
  down := { unread := [], written := [0x61], done := true }
  pc := .returned

/-- The response is copied, then the client ends its side. -/
theorem one_byte_run : Run (Guarded Step UploadEndsLast) (initial [] [0x61])
    [.down .read, .down .write, .up .eof, .main, .main, .main, .down .eof, .main] oneByteCopied :=
  .stepL ⟨trivial, .down (.read rfl rfl rfl (List.append_nil _).symm (List.cons_ne_nil _ _))⟩ <|
  .stepL ⟨trivial, .down (.write rfl rfl (List.append_nil _).symm (List.cons_ne_nil _ _))⟩ <|
  .stepL ⟨fun _ => rfl, .up (.eof rfl rfl rfl)⟩ <|
  .stepL ⟨trivial, .firstDone rfl (.inl rfl)⟩ <|
  .stepL ⟨trivial, .streamClose rfl⟩ <|
  .stepL ⟨trivial, .connClose rfl⟩ <|
  .stepL ⟨trivial, .down (.eof rfl rfl rfl)⟩ <|
  .stepL ⟨trivial, .secondDone rfl rfl rfl⟩ .refl

theorem proxyConnStream_delivers_byte :
    oneByteCopied.down.written ++ oneByteCopied.down.left = [0x61] ∧
      (oneByteCopied.down.done = true ∨ oneByteCopied.pc = .returned →
        oneByteCopied.down.written = [0x61]) ∧
      ∃ (ys : List Copy.Action) (t : State),
        Run (Guarded Step UploadEndsLast) oneByteCopied (ys.map .down) t ∧
          t.down.written = [0x61] :=
  proxyConnStream_delivers one_byte_run

/-- After both ends are closed the function can return with the response unwritten. -/
theorem exists_returned (hup : s.up.done = true) (hdown : s.down.done = false)
    (hpc : s.pc = .firstDone) :
    ∃ ys u, Run Step s ys u ∧ u.pc = .returned ∧ u.down.written = s.down.written := by
  obtain ⟨up, down, pc⟩ := s
  cases hpc
  obtain ⟨a, ha⟩ := Copy.exists_stopped (e := State.downEnds ⟨up, down, .secondDone⟩) rfl rfl hdown
  refine ⟨[.main, .main, .main, .down a, .main], ⟨up, { down with done := true }, .returned⟩, ?_,
    rfl, rfl⟩
  exact .stepL (.firstDone rfl (.inl hup)) <| .stepL (.streamClose rfl) <|
    .stepL (.connClose rfl) <| .stepL (.down ha) <| .stepL (.secondDone rfl hup rfl) .refl

/-- The moment the upload ends decides: every continuation writes the whole response exactly when
nothing of it is left. -/
theorem upload_end_iff (h : Run Step (initial request response) xs s)
    (hs : Step s (.up a) t) (ha : a.ends = true) :
    (∀ ys u, Run Step t ys u → u.pc = .returned → u.down.written = response) ↔
      s.down.left = [] := by
  have hc : Carried response s := h.invariant carried_step carried_initial
  cases hs with
  | @up _ c hcopy =>
    have hup : s.up.done = false := hcopy.running
    constructor
    · intro hall
      by_cases hleft : s.down.left = []
      · exact hleft
      · obtain ⟨hdown, hpc⟩ := not_or.mp (mt (hc.ahead hup) hleft)
        obtain ⟨ys, u, hrun, hret, hw⟩ :=
          exists_returned (s := { s with up := c }) (hcopy.done_iff.mpr ha)
            (Bool.eq_false_iff.mpr hdown) (Classical.not_not.mp hpc)
        have hshort : s.down.written = response := hw.symm.trans (hall ys u hrun hret)
        have hw' := hc.conserved
        rw [hshort] at hw'
        exact List.append_right_eq_self.mp hw'
    · intro hleft ys u hrun _
      have hct : Carried response { s with up := c } := carried_step s _ _ (.up hcopy) hc
      have hcu : Carried response u := hrun.invariant carried_step hct
      have hlu := hrun.invariant left_nil_step hleft
      exact hcu.written_eq hlu

/-- A client that ends its side at once gets nothing of the response. -/
theorem half_close_loses_response : ¬ ∀ request response xs s,
    Run Step (initial request response) xs s → s.pc = .returned → s.down.written = response := by
  intro h
  have hend : Step (initial [] [0x61]) (.up .eof) _ := .up (.eof rfl rfl rfl)
  let ended : State := { initial [] [0x61] with up := { unread := [], done := true } }
  obtain ⟨ys, u, hrun, hret, hw⟩ := exists_returned (s := ended) rfl rfl rfl
  have hall := h [] [0x61] (.up .eof :: ys) u (.stepL hend hrun) hret
  rw [hw] at hall
  cases hall

end XTunnel.Service.ProxyConn
