import BrowsercoreHttp2.Connection.CallAccounts
import BrowsercoreHttp2.Connection.SettingsAcks
import BrowsercoreHttp2.Stream.Noninterference

/-!
# What becomes of a promise

The promise of a request is settled by the manager, or rejected by the connection itself before the manager has it.
As long as no other call has a promise of its name, what becomes of it after its stream was opened is what the manager
makes of it.
-/

namespace BrowsercoreHttp2

/-- How an effect settles the promise of a request, if it does. -/
def ConnectionEffect.outcome (promise : Callback) : ConnectionEffect → Option (Except JsError Http2Response)
  | .manager (.resolve callback response) => if callback = promise then some (.ok response) else none
  | .manager (.reject callback error) => if callback = promise then some (.error error) else none
  | .reject callback error => if callback = promise then some (.error error) else none
  | _ => none

theorem ConnectionEffect.outcome_reject {promise callback : Callback} (h : callback ≠ promise) (error : JsError) :
    outcome promise (.reject callback error) = none := if_neg h

namespace Http2Connection

variable {c c' : Http2Connection} {promise : Callback}

/-- What has become of the promise of a request. -/
def outcome (c : Http2Connection) (promise : Callback) : List (Except JsError Http2Response) :=
  c.effects.filterMap (ConnectionEffect.outcome promise)

/-! ### What the connection leaves to the manager -/

/-- Only the manager has settled the promise. -/
def Entrusts (c : Http2Connection) (promise : Callback) : Prop :=
  c.outcome promise = c.manager.effects.filterMap fun effect => ConnectionEffect.outcome promise (.manager effect)

theorem Entrusts.append (h : c.Entrusts promise) (hmanager : c'.manager = c.manager) {new : List ConnectionEffect}
    (heffects : c'.effects = c.effects ++ new) (hnew : ∀ effect ∈ new, effect.outcome promise = none) : c'.Entrusts promise := by
  rw [Entrusts, outcome, heffects, hmanager, List.filterMap_append, List.filterMap_eq_nil_iff.mpr hnew, List.append_nil]
  exact h

theorem Entrusts.same (h : c.Entrusts promise) (hmanager : c'.manager = c.manager) (heffects : c'.effects = c.effects) :
    c'.Entrusts promise :=
  h.append hmanager (heffects.trans (List.append_nil _).symm) fun _ hmem => absurd hmem List.not_mem_nil

theorem Entrusts.perform (h : c.Entrusts promise) {effect : ConnectionEffect} (heffect : effect.outcome promise = none) :
    (c.perform effect).Entrusts promise := by
  refine h.append rfl rfl fun other hmem => ?_
  rw [List.mem_singleton.mp hmem]
  exact heffect

theorem onEvent_outcome (c : Http2Connection) (event : Event) : (c.onEvent event).outcome promise = c.outcome promise := by
  have hquiet : ∀ {c' : Http2Connection} {new : List ConnectionEffect}, c'.effects = c.effects ++ new →
      (∀ effect ∈ new, effect.outcome promise = none) → c'.outcome promise = c.outcome promise := by
    intro c' new heffects hnew
    rw [outcome, heffects, List.filterMap_append, List.filterMap_eq_nil_iff.mpr hnew, List.append_nil, outcome]
  cases event with
  | streamClosed id =>
      simp only [onEvent, onStreamClosed]
      split
      · rw [releaseSlot]
        split <;> rfl
      · rfl
  | pingAck data =>
      refine hquiet rfl fun effect hmem => ?_
      obtain ⟨handler, -, hresolved⟩ := List.mem_map.mp hmem
      rw [← hresolved]
      rfl
  | settingsAck =>
      obtain ⟨-, -, -, heffects⟩ := c.onSettingsAck_ends
      refine hquiet heffects fun effect hmem => ?_
      obtain ⟨wait, -, hresolved⟩ := List.mem_map.mp hmem
      rw [← hresolved]
      rfl
  | _ => rfl

theorem onEffect_outcome (c : Http2Connection) (effect : Effect) :
    (c.onEffect effect).outcome promise = c.outcome promise ++ (ConnectionEffect.outcome promise (.manager effect)).toList := by
  have hlogged : (c.perform (.manager effect)).outcome promise =
      c.outcome promise ++ (ConnectionEffect.outcome promise (.manager effect)).toList := by
    rw [outcome, perform, List.filterMap_append, ← outcome, List.filterMap_cons, List.filterMap_nil]
    cases ConnectionEffect.outcome promise (.manager effect) <;> rfl
  unfold onEffect
  dsimp only
  split
  · exact (onEvent_outcome _ _).trans hlogged
  · exact hlogged

theorem foldl_onEffect_outcome (c : Http2Connection) (effects : List Effect) :
    (effects.foldl onEffect c).outcome promise =
      c.outcome promise ++ effects.filterMap fun effect => ConnectionEffect.outcome promise (.manager effect) := by
  induction effects generalizing c with
  | nil => exact (List.append_nil _).symm
  | cons effect effects ih =>
      rw [List.foldl_cons, ih, onEffect_outcome, List.filterMap_cons, List.append_assoc]
      cases ConnectionEffect.outcome promise (.manager effect) <;> rfl

theorem Entrusts.manage (h : c.Entrusts promise) (op : ManagerOp) : (c.manage op).Entrusts promise := by
  have hnew := c.manager.step_effects_eq op
  rw [Entrusts, Http2Connection.manage, managed_manager, managed, foldl_onEffect_outcome, hnew, List.drop_left, List.filterMap_append]
  exact congrArg (· ++ _) h

/-! ### One step -/

/-- If the step rejects a promise it is another one. -/
def Spares (c : Http2Connection) (promise : Callback) : ConnectionStep → Prop
  | .request call => c.closing = true → call.promise ≠ promise
  | .resume call => call ∈ c.granted → call.promise ≠ promise
  | .settingsAckTimeout wait => wait ∈ c.settingsAckWaits → wait.promise ≠ promise
  | _ => True

theorem Entrusts.acquireSlot (h : c.Entrusts promise) (call : RequestCall) : (c.acquireSlot call).Entrusts promise := by
  rw [Http2Connection.acquireSlot]
  split <;> exact h.same rfl rfl

theorem Entrusts.executeRequest (h : c.Entrusts promise) (streamId : StreamId) {call : RequestCall}
    (hcall : call.promise ≠ promise ∨ (c.closing || c.closed) = false ∧ ∃ payload, c.requestBlock call.req = .ok payload) :
    (c.executeRequest streamId call).Entrusts promise := by
  have hexpected := h.manage (.expectResponse streamId call.promise call.promise)
  rw [executeRequest_eq]
  split
  · rename_i hshut
    have hother : call.promise ≠ promise := hcall.resolve_right fun hgoes => Bool.false_ne_true (hgoes.1.symm.trans hshut)
    have hturned : ({ c with activeClientStreams := c.activeClientStreams.delete streamId }.releaseSlot).Entrusts promise := by
      rw [releaseSlot]
      split <;> exact h.same rfl rfl
    exact hturned.perform (ConnectionEffect.outcome_reject hother _)
  · cases hblock : c.requestBlock call.req with
    | error e =>
        have hother : call.promise ≠ promise := by
          refine hcall.resolve_right fun hencodes => ?_
          obtain ⟨payload, hpayload⟩ := hencodes.2
          exact absurd (hblock.symm.trans hpayload) (by simp)
        exact hexpected.perform (ConnectionEffect.outcome_reject hother _)
    | ok payload =>
        have hsent : ((c.manage (.expectResponse streamId call.promise call.promise)).sendFrame
            (.headers (requestHeadersFrame streamId (bodiless call.req) payload))).Entrusts promise := hexpected.perform rfl
        dsimp only
        split
        · exact hsent
        · exact hsent.manage _

theorem Entrusts.resume (h : c.Entrusts promise) {call : RequestCall}
    (hcall : call ∈ c.granted → call.promise ≠ promise ∨ (c.closing || c.closed) = false ∧ ∃ payload, c.requestBlock call.req = .ok payload) :
    (c.resume call).Entrusts promise := by
  rw [Http2Connection.resume]
  split
  · rename_i hgranted
    have hgranted' : ({ c with granted := c.granted.erase call } : Http2Connection).Entrusts promise := h.same rfl rfl
    have hopened : ({ c with granted := c.granted.erase call } : Http2Connection).openRequestStream.Entrusts promise :=
      (hgranted'.manage .openStream).same rfl rfl
    refine hopened.executeRequest _ ?_
    rw [openRequestStream_eq]
    exact hcall hgranted
  · exact h

/-- As long as the connection is open, it rejects no promise of a request that has a stream. -/
theorem Entrusts.step (h : c.Entrusts promise) {s : ConnectionStep} (hspares : c.Spares promise s) (hopen : (c.step s).closed = false) :
    (c.step s).Entrusts promise := by
  have hkept : ¬ (c.closed = true ∨ c.Closes s) := fun hshut => Bool.false_ne_true (hopen.symm.trans ((c.step_closed s).mpr hshut))
  obtain ⟨hclosed, hcloses⟩ := not_or.mp hkept
  cases s with
  | request call =>
      simp only [Http2Connection.step, request]
      split
      · rename_i hclosing
        exact h.perform (ConnectionEffect.outcome_reject (hspares ((Bool.or_eq_true_iff.mp hclosing).resolve_right hclosed)) _)
      · exact h.acquireSlot call
  | wake call =>
      simp only [Http2Connection.step, wake]
      split
      · have hwoken : ({ c with woken := c.woken.erase call } : Http2Connection).Entrusts promise := h.same rfl rfl
        exact hwoken.acquireSlot call
      · exact h
  | resume call => exact h.resume fun hgranted => .inl (hspares hgranted)
  | goaway lastStreamId errorCode debugData =>
      have hclosing : ({ c with closing := true } : Http2Connection).Entrusts promise := h.same rfl rfl
      exact hclosing.perform rfl
  | close => exact absurd trivial hcloses
  | ping p data =>
      simp only [Http2Connection.step, ping, if_neg hclosed]
      have hlistens : ({ c with pingHandlers := c.pingHandlers ++ [⟨p, data⟩] } : Http2Connection).Entrusts promise := h.same rfl rfl
      exact hlistens.perform rfl
  | waitForSettingsAck p timeoutMs => exact h.same rfl rfl
  | settingsAckTimeout wait =>
      simp only [Http2Connection.step, settingsAckTimeout]
      split
      · rename_i hwait
        refine h.append rfl rfl fun effect hmem => ?_
        rw [List.mem_singleton.mp hmem]
        exact ConnectionEffect.outcome_reject (hspares hwait) _
      · exact h
  | receiveFrame frame =>
      rcases c.receiveFrame_cases frame with ⟨-, hsame⟩ | ⟨hreading, ⟨reading, hread⟩ | ⟨e, hthrown, -⟩⟩
      · rw [Http2Connection.step, hsame]
        exact h
      · rw [Http2Connection.step, hread]
        exact (h.manage (.dispatch frame)).same rfl rfl
      · exact absurd ⟨hreading, fun hnone => Option.some_ne_none e (hthrown.symm.trans hnone)⟩ hcloses
  | readError err =>
      have hidle : c.reading = false := Bool.eq_false_iff.mpr hcloses
      rw [Http2Connection.step, readError, hidle, if_neg Bool.false_ne_true]
      exact h

theorem open_of_steps {s : List ConnectionStep} (hopen : (c.steps s).closed = false) : c.closed = false := by
  cases hclosed : c.closed with
  | false => rfl
  | true => exact absurd (hopen.symm.trans (steps_closed hclosed s)) Bool.false_ne_true

theorem Entrusts.steps (h : c.Entrusts promise) {s : List ConnectionStep}
    (hspares : Throughout Http2Connection.step (fun c a => c.Spares promise a) c s) (hopen : (c.steps s).closed = false) :
    (c.steps s).Entrusts promise := by
  induction s generalizing c with
  | nil => exact h
  | cons a s ih =>
      have hafter : (c.step a).closed = false := open_of_steps (s := s) hopen
      exact ih (h.step hspares.1 hafter) hspares.2 hopen

/-! ### Promises with names of their own -/

variable {options : Http2Options} {s : List ConnectionStep} {call : RequestCall}

end Http2Connection

end BrowsercoreHttp2
