import BrowsercoreHttp2.Connection.Keeps
import BrowsercoreHttp2.Library.Runs

/-!
# Two ways to close

`close()` says goodbye with a GOAWAY, tears down and closes the transport. `handleFatal` only tears down, and
since both begin by asking whether the connection is closed, what it leaves open stays open.
-/

namespace BrowsercoreHttp2

namespace Http2Connection

variable {c c' c'' : Http2Connection}

/-! ### Steady changes -/

/-- The transport and the pings are left alone. -/
structure Steady (c c' : Http2Connection) : Prop where
  pingHandlers : c'.pingHandlers = c.pingHandlers
  effects : ∃ new, c'.effects = c.effects ++ new ∧ .closeTransport ∉ new

theorem steady_iff : Steady c c' ↔ Keeps (·.pingHandlers) (· ≠ .closeTransport) c c' := by
  constructor
  · rintro ⟨hhandlers, new, heffects, hnew⟩
    exact ⟨hhandlers, new, heffects, fun effect hmem hclose => hnew (hclose ▸ hmem)⟩
  · rintro ⟨hhandlers, new, heffects, hnew⟩
    exact ⟨hhandlers, new, heffects, fun hmem => hnew _ hmem rfl⟩

theorem overlooks_pingHandlers : Overlooks (·.pingHandlers) := fun _ _ _ _ _ _ _ _ _ _ => rfl

namespace Steady

theorem same (hhandlers : c'.pingHandlers = c.pingHandlers) (heffects : c'.effects = c.effects) : Steady c c' :=
  steady_iff.mpr (.same hhandlers heffects)

theorem refl (c : Http2Connection) : Steady c c := same rfl rfl

theorem trans (h : Steady c c') (h' : Steady c' c'') : Steady c c'' :=
  steady_iff.mpr ((steady_iff.mp h).trans (steady_iff.mp h'))

theorem perform (c : Http2Connection) {effect : ConnectionEffect} (heffect : effect ≠ .closeTransport) :
    Steady c (c.perform effect) :=
  steady_iff.mpr (.perform overlooks_pingHandlers c heffect)

theorem onEvent (c : Http2Connection) {event : Event} (hevent : ∀ data, event ≠ .pingAck data) :
    Steady c (c.onEvent event) := by
  by_cases hsettings : event = .settingsAck
  · subst hsettings
    simp only [Http2Connection.onEvent, onSettingsAck]
    split
    · exact refl c
    · exact ⟨rfl, _, rfl, by simp⟩
  · exact steady_iff.mpr (.onEvent overlooks_pingHandlers c hevent hsettings)

theorem manage (c : Http2Connection) {op : ManagerOp} (hop : ∀ data, op.announces ≠ some (.pingAck data)) :
    Steady c (c.manage op) := by
  apply steady_iff.mpr
  apply Keeps.manage overlooks_pingHandlers
  · exact fun effect => ConnectionEffect.noConfusion
  · intro event hannounces c'
    apply steady_iff.mp
    apply onEvent
    rintro data rfl
    exact hop data hannounces

end Steady

theorem acquireSlot_steady (c : Http2Connection) (call : RequestCall) : Steady c (c.acquireSlot call) :=
  steady_iff.mpr (.acquireSlot overlooks_pingHandlers c call)

theorem resume_steady (c : Http2Connection) (call : RequestCall) : Steady c (c.resume call) := by
  apply steady_iff.mpr
  apply Keeps.resume overlooks_pingHandlers
  · exact fun effect => ConnectionEffect.noConfusion
  · exact fun frame => ConnectionEffect.noConfusion
  · exact fun error => ConnectionEffect.noConfusion

theorem tearDown_steady (c : Http2Connection) (err : JsError) : Steady c (c.tearDown err) := by
  apply steady_iff.mpr
  apply Keeps.tearDown overlooks_pingHandlers
  exact fun effect => ConnectionEffect.noConfusion

theorem handleFatal_steady (c : Http2Connection) (err : JsError) : Steady c (c.handleFatal err) := by
  rw [handleFatal]
  split
  · exact .refl c
  · have hclosing : Steady c { c with closing := true } := .same rfl rfl
    dsimp only
    split
    · have hforgotten : Steady c { c with closing := true, settingsAckReject := none } := .same rfl rfl
      exact (hforgotten.trans (.perform _ (by simp))).trans (tearDown_steady _ err)
    · exact hclosing.trans (tearDown_steady _ err)

/-! ### One step -/

/-- The read loop takes a PING that comes back, with this data. -/
def acked (c : Http2Connection) : ConnectionStep → Option Nat
  | .receiveFrame (.ping frame) => if c.reading && frame.ack then some frame.opaqueData else none
  | _ => none

/-- A step that is to tear down a connection which is still open. -/
def Closes (c : Http2Connection) : ConnectionStep → Prop
  | .close => True
  | .receiveFrame frame => c.reading = true ∧ (c.manager.dispatch frame).2 ≠ none
  | .readError _ => c.reading = true
  | _ => False

theorem receiveFrame_steady (c : Http2Connection) {frame : Frame} (hacked : c.acked (.receiveFrame frame) = none) :
    Steady c (c.receiveFrame frame) := by
  rcases c.receiveFrame_cases frame with ⟨-, hsame⟩ | ⟨hreading, hcases⟩
  · rw [hsame]
    exact .refl c
  · have hmanaged : Steady c (c.manage (.dispatch frame)) := by
      apply Steady.manage
      intro data hannounces
      cases frame with
      | ping frame =>
          simp only [ManagerOp.announces] at hannounces
          split at hannounces
          · rename_i hack
            simp [acked, hreading, hack] at hacked
          · exact absurd hannounces.symm (Option.some_ne_none _)
      | settings frame =>
          simp only [ManagerOp.announces] at hannounces
          split at hannounces <;> exact absurd hannounces (by simp)
      | _ => exact absurd hannounces (by simp [ManagerOp.announces])
    rcases hcases with ⟨reading, hread⟩ | ⟨e, -, hfatal⟩
    · rw [hread]
      exact hmanaged.trans (.same rfl rfl)
    · rw [hfatal]
      exact (hmanaged.trans (handleFatal_steady _ e)).trans (.same rfl rfl)

/-- A PING that comes back resolves the pings with its data, and no others. -/
theorem receiveFrame_acked {frame : Frame} {data : Nat} (hacked : c.acked (.receiveFrame frame) = some data) :
    (c.receiveFrame frame).closed = c.closed ∧
      (c.receiveFrame frame).pingHandlers = (c.pingHandlers.filter fun handler => handler.data ≠ data) ∧
      (c.receiveFrame frame).effects = c.effects ++ .manager (.emitEvent (.pingAck data)) ::
        (c.pingHandlers.filter fun handler => handler.data = data).map fun handler => .resolvePing handler.promise data := by
  cases frame with
  | ping frame =>
      simp only [acked, Bool.and_eq_true, Option.ite_none_right_eq_some, Option.some_inj] at hacked
      obtain ⟨⟨hreading, hack⟩, rfl⟩ := hacked
      have hping : c.manager.dispatch (.ping frame) = (c.manager.emitEvent (.pingAck frame.opaqueData), none) := by
        simp only [Manager.dispatch, Manager.handlePing, if_pos hack]
      have hheard : c.managed (c.manager.emitEvent (.pingAck frame.opaqueData)) =
          { c with manager := c.manager.emitEvent (.pingAck frame.opaqueData) }.onEffect (.emitEvent (.pingAck frame.opaqueData)) := by
        rw [managed, Manager.emitEvent, Manager.perform, List.drop_left, List.foldl_cons, List.foldl_nil]
      rw [receiveFrame, if_pos hreading, hping]
      dsimp only
      rw [hheard]
      exact ⟨rfl, rfl, List.append_assoc _ _ _⟩
  | _ => exact absurd hacked.symm (Option.some_ne_none data)

theorem Steady.transport (h : Steady c c') : .closeTransport ∈ c'.effects ↔ .closeTransport ∈ c.effects := by
  obtain ⟨new, heffects, hnew⟩ := h.effects
  rw [heffects, List.mem_append, or_iff_left hnew]

theorem step_steady {s : ConnectionStep} (hclose : s ≠ .close) (hping : ∀ promise data, s ≠ .ping promise data)
    (hacked : c.acked s = none) :
    Steady c (c.step s) := by
  cases s with
  | request call =>
      simp only [step, request]
      split
      · exact .perform c (by simp)
      · exact c.acquireSlot_steady call
  | wake call =>
      simp only [step, wake]
      split
      · have hwoken : Steady c { c with woken := c.woken.erase call } := .same rfl rfl
        exact hwoken.trans (acquireSlot_steady _ call)
      · exact .refl c
  | resume call => exact c.resume_steady call
  | goaway lastStreamId errorCode debugData =>
      have hclosing : Steady c { c with closing := true } := .same rfl rfl
      exact hclosing.trans (.perform _ (by simp))
  | close => exact absurd rfl hclose
  | ping promise data => exact absurd rfl (hping promise data)
  | waitForSettingsAck promise timeoutMs => exact .same rfl rfl
  | settingsAckTimeout wait =>
      simp only [step, settingsAckTimeout]
      split
      · have hforgotten : Steady c { c with settingsAckReject := none, settingsAckWaits := c.settingsAckWaits.erase wait } :=
          .same rfl rfl
        exact hforgotten.trans (.perform _ (by simp))
      · exact .refl c
  | receiveFrame frame => exact c.receiveFrame_steady hacked
  | readError err =>
      simp only [step, readError]
      split
      · exact (c.handleFatal_steady err).trans (.same rfl rfl)
      · exact .refl c

theorem close_eq (hopen : c.closed = false) :
    c.close = ((c.goaway 0 0 []).tearDown (.http2 .connectionClosed)).perform .closeTransport := by
  rw [close, if_neg (Bool.eq_false_iff.mp hopen)]

/-- The transport is closed by `close()`, the first time it is called on an open connection. -/
theorem step_transport (c : Http2Connection) (s : ConnectionStep) :
    .closeTransport ∈ (c.step s).effects ↔ .closeTransport ∈ c.effects ∨ s = .close ∧ c.closed = false := by
  by_cases hclose : s = .close
  · subst hclose
    simp only [step, true_and]
    cases hclosed : c.closed with
    | true => rw [close_of_closed hclosed, or_iff_left (by decide)]
    | false =>
        rw [close_eq hclosed]
        exact iff_of_true (List.mem_append_right _ List.mem_cons_self) (.inr rfl)
  rw [or_iff_left fun h => hclose h.1]
  cases hacked : c.acked s with
  | some data =>
      cases s with
      | receiveFrame frame =>
          simp only [step]
          rw [(receiveFrame_acked hacked).2.2]
          simp
      | _ => exact absurd hacked.symm (Option.some_ne_none data)
  | none =>
      by_cases hping : ∃ promise data, s = .ping promise data
      · obtain ⟨promise, data, rfl⟩ := hping
        simp only [step, ping]
        split <;> simp [perform, sendFrame]
      · exact (step_steady hclose (fun promise data h => hping ⟨promise, data, h⟩) hacked).transport

theorem acquireSlot_closed (c : Http2Connection) (call : RequestCall) : (c.acquireSlot call).closed = c.closed := by
  rw [acquireSlot]
  split <;> rfl

theorem executeRequest_closed (c : Http2Connection) (streamId : StreamId) (call : RequestCall) :
    (c.executeRequest streamId call).closed = c.closed := by
  apply executeRequest_induction (motive := fun c' => c'.closed = c.closed) c streamId call
  · intro _
    rw [releaseSlot]
    split <;> rfl
  · exact fun _ => (c.managed_hears _).closed
  · exact fun c' effect _ hbefore => hbefore
  · exact fun c' data hbefore => (c'.managed_hears _).closed.trans hbefore

theorem resume_closed (c : Http2Connection) (call : RequestCall) : (c.resume call).closed = c.closed := by
  rw [resume]
  split
  · rw [executeRequest_closed, openRequestStream_eq]
  · rfl

theorem handleFatal_closed (c : Http2Connection) (err : JsError) : (c.handleFatal err).closed = true := by
  cases hclosed : c.closed with
  | true => rw [handleFatal_of_closed hclosed, hclosed]
  | false => exact (handleFatal_tornDown hclosed err).closed

/-- What closes a connection. -/
theorem step_closed (c : Http2Connection) (s : ConnectionStep) : (c.step s).closed = true ↔ c.closed = true ∨ c.Closes s := by
  have hsame : ∀ {c' : Http2Connection}, c'.closed = c.closed → (c'.closed = true ↔ c.closed = true ∨ False) := by
    intro c' h
    rw [h, or_false]
  cases s with
  | request call =>
      simp only [step, request, Closes]
      split
      · exact hsame rfl
      · exact hsame (c.acquireSlot_closed call)
  | wake call =>
      simp only [step, wake, Closes]
      split
      · exact hsame (acquireSlot_closed _ call)
      · exact hsame rfl
  | resume call => exact hsame (c.resume_closed call)
  | goaway lastStreamId errorCode debugData => exact hsame rfl
  | close =>
      simp only [step, Closes, or_true, iff_true]
      cases hclosed : c.closed with
      | true => rw [close_of_closed hclosed, hclosed]
      | false => exact (close_tornDown hclosed).closed
  | ping promise data =>
      simp only [step, ping, Closes]
      split <;> exact hsame rfl
  | waitForSettingsAck promise timeoutMs => exact hsame rfl
  | settingsAckTimeout wait =>
      simp only [step, settingsAckTimeout, Closes]
      split <;> exact hsame rfl
  | receiveFrame frame =>
      simp only [step, receiveFrame, Closes]
      split
      · rename_i hreading
        split
        · rename_i m hdispatch
          simp only [hdispatch, ne_eq, not_true_eq_false, and_false]
          exact hsame (c.managed_hears m).closed
        · rename_i m e hdispatch
          simp only [hreading, hdispatch, ne_eq, reduceCtorEq, not_false_eq_true, and_self, or_true, iff_true]
          exact handleFatal_closed _ e
      · rename_i hreading
        rw [or_iff_left fun h => hreading h.1]
  | readError err =>
      simp only [step, readError, Closes]
      split
      · rename_i hreading
        simp only [hreading, or_true, iff_true]
        exact c.handleFatal_closed err
      · rename_i hreading
        rw [or_iff_left hreading]

/-! ### Whole runs -/

theorem steps_concat (c : Http2Connection) (s : List ConnectionStep) (a : ConnectionStep) :
    c.steps (s ++ [a]) = (c.steps s).step a :=
  List.foldl_append

theorem steps_closed (hclosed : c.closed = true) (s : List ConnectionStep) : (c.steps s).closed = true := by
  induction s using List.reverseRecOn with
  | nil => exact hclosed
  | append_singleton s a ih =>
      rw [steps_concat]
      exact ((c.steps s).step_closed a).mpr (.inl ih)

theorem steps_transport (hclosed : c.closed = true) (s : List ConnectionStep) :
    .closeTransport ∈ (c.steps s).effects ↔ .closeTransport ∈ c.effects := by
  induction s using List.reverseRecOn with
  | nil => rfl
  | append_singleton s a ih =>
      rw [steps_concat, step_transport, steps_closed hclosed, ih]
      simp

theorem run_transport_of_open (options : Http2Options) (s : List ConnectionStep) (hopen : (run options s).closed = false) :
    .closeTransport ∉ (run options s).effects := by
  induction s using List.reverseRecOn with
  | nil => exact List.not_mem_nil
  | append_singleton s a ih =>
      rw [run_concat] at hopen ⊢
      obtain ⟨hbefore, hcloses⟩ := not_or.mp (mt (step_closed _ a).mpr (Bool.eq_false_iff.mp hopen))
      rw [step_transport, not_or]
      refine ⟨ih (Bool.eq_false_iff.mpr hbefore), ?_⟩
      rintro ⟨rfl, -⟩
      exact hcloses trivial

/-- A closed connection has sent a GOAWAY, and its transport has been closed or some later `close()` closes it. -/
def FullyClosed (c : Http2Connection) : Prop :=
  c.closed = true → (∃ frame, .sendFrame (.goaway frame) ∈ c.effects) ∧
    (.closeTransport ∈ c.effects ∨ ∃ later, .closeTransport ∈ ((c.steps later).step .close).effects)

/-- What closes an open connection is `close()`. -/
def ClosedByCall (c : Http2Connection) (s : ConnectionStep) : Prop := c.closed = false → c.Closes s → s = .close

/-- The connection has sent a GOAWAY and closed the transport if it is closed. -/
def SaidGoodbye (c : Http2Connection) : Prop :=
  c.closed = true → (∃ frame, .sendFrame (.goaway frame) ∈ c.effects) ∧ .closeTransport ∈ c.effects

theorem SaidGoodbye.step (h : c.SaidGoodbye) {s : ConnectionStep} (hcall : c.ClosedByCall s) : (c.step s).SaidGoodbye := by
  intro hclosed
  have hgrows := (c.step_advances s).effects
  cases hbefore : c.closed with
  | true =>
      obtain ⟨⟨frame, hgoaway⟩, htransport⟩ := h hbefore
      exact ⟨⟨frame, hgrows.subset hgoaway⟩, hgrows.subset htransport⟩
  | false =>
      obtain rfl := hcall hbefore (((c.step_closed s).mp hclosed).resolve_left (Bool.eq_false_iff.mp hbefore))
      refine ⟨?_, (c.step_transport .close).mpr (.inr ⟨rfl, hbefore⟩)⟩
      obtain ⟨new, heffects, -⟩ := ((c.goaway 0 0 []).tearDown_steady (.http2 .connectionClosed)).effects
      simp only [Http2Connection.step]
      rw [close_eq hbefore, perform, heffects]
      refine ⟨_, List.mem_append_left _ (List.mem_append_left _ (List.mem_append_right _ List.mem_cons_self))⟩

/-- A connection that a failure tears down before its transport is closed is never fully closed. -/
theorem not_fullyClosed_of_failure (htransport : .closeTransport ∉ c.effects) {s : ConnectionStep} (hcloses : c.Closes s)
    (hfailure : s ≠ .close) : ¬ (c.step s).FullyClosed := by
  intro hfull
  have hclosed : (c.step s).closed = true := (c.step_closed s).mpr (.inr hcloses)
  have hleft : .closeTransport ∉ (c.step s).effects := by
    rw [step_transport, not_or]
    exact ⟨htransport, fun h => hfailure h.1⟩
  rcases (hfull hclosed).2 with hnow | ⟨later, hlater⟩
  · exact hleft hnow
  · rw [← steps_concat, steps_transport hclosed] at hlater
    exact hleft hlater

end Http2Connection

open Http2Connection in
/-- Every state of a run is fully closed if it is closed exactly when no failure of dispatching or reading
reaches a connection that is still open. -/
theorem fully_closed_iff (options : Http2Options) (s : List ConnectionStep) :
    (∀ before after, s = before ++ after → (run options before).FullyClosed) ↔ Throughout step ClosedByCall { options } s := by
  constructor
  · intro h
    refine throughout_of_reached h fun before a hfull hopen hcloses => ?_
    by_contra hfailure
    rw [run_concat] at hfull
    exact not_fullyClosed_of_failure (run_transport_of_open options before hopen) hcloses hfailure hfull
  · rintro h before after rfl hclosed
    have hgoodbye := (throughout_append.mp h).1.invariant (I := SaidGoodbye) (fun _ _ hbefore hcall => hbefore.step hcall)
      fun hclosed => absurd hclosed (by simp)
    obtain ⟨hgoaway, htransport⟩ := hgoodbye hclosed
    exact ⟨hgoaway, .inl htransport⟩

/-- A PUSH_PROMISE whose header block names index 0. -/
def malformedPush : ConnectionStep := .receiveFrame (.pushPromise ⟨0x4, 1, true, false, 2, [0x80]⟩)

open Http2Connection in
/-- A block that cannot be decoded closes the connection without a GOAWAY, and closing it again does nothing. -/
theorem malformed_push_leaves_transport :
    ¬ (run {} [malformedPush]).FullyClosed ∧ (run {} [malformedPush]).closed = true ∧
      (run {} [malformedPush, .close, .close]).effects = [.manager (.emitEvent (.streamClosed 2))] := by
  have hclosed : (run {} [malformedPush]).closed = true := by decide +kernel
  have heffects : (run {} [malformedPush]).effects = [.manager (.emitEvent (.streamClosed 2))] := by decide +kernel
  refine ⟨fun hfull => ?_, hclosed, by decide +kernel⟩
  obtain ⟨frame, hgoaway⟩ := (hfull hclosed).1
  rw [heffects] at hgoaway
  exact absurd hgoaway (by simp)

end BrowsercoreHttp2
