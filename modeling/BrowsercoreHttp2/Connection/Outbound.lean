import BrowsercoreHttp2.Connection.EndStream

/-!
# What goes out

The connection and its manager send through one callback, so the peer sees the frames of both in one order.
A step sends the frames of its own first, then what its manager sends: chunks of what is queued, and the
answers to the frame that was received.
-/

namespace BrowsercoreHttp2

def ConnectionEffect.frame : ConnectionEffect → Option Frame
  | .manager effect => effect.frame
  | .sendFrame frame => some frame
  | _ => none

namespace Http2Connection

variable {c c' c'' : Http2Connection} {own new new' : List Frame}

/-- The frames that have gone out, in order. -/
def outbound (c : Http2Connection) : List Frame := c.effects.filterMap ConnectionEffect.frame

theorem outbound_perform (c : Http2Connection) (effect : ConnectionEffect) :
    (c.perform effect).outbound = c.outbound ++ effect.frame.toList := by
  rw [outbound, perform, List.filterMap_append, ← outbound, List.filterMap_cons, List.filterMap_nil]
  cases effect.frame <;> rfl

theorem outbound_perform_of_none {effect : ConnectionEffect} (h : effect.frame = none) (c : Http2Connection) :
    (c.perform effect).outbound = c.outbound := by
  rw [outbound_perform, h]
  exact List.append_nil _

theorem outbound_of_quiet {quiet : List ConnectionEffect} (heffects : c'.effects = c.effects ++ quiet)
    (hquiet : ∀ effect ∈ quiet, effect.frame = none) : c'.outbound = c.outbound := by
  rw [outbound, heffects, List.filterMap_append, List.filterMap_eq_nil_iff.mpr hquiet, List.append_nil, outbound]

/-! ### Listening -/

theorem onEvent_outbound (c : Http2Connection) (event : Event) : (c.onEvent event).outbound = c.outbound := by
  cases event with
  | streamClosed id =>
      simp only [onEvent, onStreamClosed]
      split
      · rw [releaseSlot]
        split <;> rfl
      · rfl
  | pingAck data =>
      refine outbound_of_quiet rfl fun effect hmem => ?_
      obtain ⟨handler, -, hresolved⟩ := List.mem_map.mp hmem
      rw [← hresolved]
      rfl
  | settingsAck =>
      simp only [onEvent, onSettingsAck]
      split
      · rfl
      · refine outbound_of_quiet rfl fun effect hmem => ?_
        obtain ⟨wait, -, hresolved⟩ := List.mem_map.mp hmem
        rw [← hresolved]
        rfl
  | _ => rfl

theorem onEffect_outbound (c : Http2Connection) (effect : Effect) :
    (c.onEffect effect).outbound = c.outbound ++ effect.frame.toList := by
  have hlogged := c.outbound_perform (.manager effect)
  unfold onEffect
  dsimp only
  split
  · exact (onEvent_outbound _ _).trans hlogged
  · exact hlogged

theorem foldl_onEffect_outbound (c : Http2Connection) (effects : List Effect) :
    (effects.foldl onEffect c).outbound = c.outbound ++ effects.filterMap Effect.frame := by
  induction effects generalizing c with
  | nil => exact (List.append_nil _).symm
  | cons effect effects ih =>
      rw [List.foldl_cons, ih, onEffect_outbound, List.filterMap_cons, List.append_assoc]
      cases effect.frame <;> rfl

/-! ### One step -/

/-- The connection has sent frames of its own, and after them its manager has sent some. -/
structure Emits (c : Http2Connection) (own new : List Frame) (c' : Http2Connection) : Prop where
  manager : c'.manager.sent = c.manager.sent ++ new
  outbound : c'.outbound = c.outbound ++ own ++ new

namespace Emits

theorem same (hmanager : c'.manager.sent = c.manager.sent) (houtbound : c'.outbound = c.outbound) : Emits c [] [] c' where
  manager := hmanager.trans (List.append_nil _).symm
  outbound := by rw [houtbound, List.append_nil, List.append_nil]

theorem trans (h : Emits c own new c') (h' : Emits c' [] new' c'') : Emits c own (new ++ new') c'' where
  manager := by rw [h'.manager, h.manager, List.append_assoc]
  outbound := by rw [h'.outbound, h.outbound, List.append_nil, List.append_assoc]

theorem after_quiet (h : Emits c [] [] c') (h' : Emits c' own new c'') : Emits c own new c'' where
  manager := by rw [h'.manager, h.manager, List.append_nil]
  outbound := by rw [h'.outbound, h.outbound, List.append_nil, List.append_nil]

theorem perform (h : Emits c own new c') {effect : ConnectionEffect} (heffect : effect.frame = none) :
    Emits c own new (c'.perform effect) where
  manager := h.manager
  outbound := (outbound_perform_of_none heffect c').trans h.outbound

theorem sendFrame (c : Http2Connection) (frame : Frame) : Emits c [frame] [] (c.sendFrame frame) where
  manager := (List.append_nil _).symm
  outbound := (outbound_perform c _).trans (List.append_nil _).symm

theorem managed (c : Http2Connection) {m : Manager} (hkept : c.manager.effects <+: m.effects)
    (hsent : m.sent = c.manager.sent ++ new) : Emits c [] new (c.managed m) where
  manager := by rw [managed_manager, hsent]
  outbound := by
    obtain ⟨effects, heffects⟩ := hkept
    have hnew : effects.filterMap Effect.frame = new := by
      rw [Manager.sent, ← heffects, List.filterMap_append] at hsent
      exact List.append_cancel_left hsent
    rw [Http2Connection.managed, foldl_onEffect_outbound, ← heffects, List.drop_left, hnew, List.append_nil]
    rfl

theorem manage (c : Http2Connection) {op : ManagerOp} (hsent : (c.manager.step op).sent = c.manager.sent ++ new) :
    Emits c [] new (c.manage op) :=
  managed c ⟨_, (c.manager.step_effects_eq op).symm⟩ hsent

theorem tearDown (c : Http2Connection) (err : JsError) : Emits c [] [] (c.tearDown err) := by
  have haborted : (c.manager.step (.abortAll err)).sent = c.manager.sent ++ [] :=
    (c.manager.sent_abortAll err).trans (List.append_nil _).symm
  have hmanaged := manage c haborted
  exact ⟨hmanaged.manager, hmanaged.outbound⟩

theorem handleFatal (c : Http2Connection) (err : JsError) : Emits c [] [] (c.handleFatal err) := by
  rw [Http2Connection.handleFatal]
  split
  · exact same rfl rfl
  · dsimp only
    split
    · rename_i promise hreject
      have hrejected : Emits c [] [] { c with closing := true, settingsAckReject := none } := same rfl rfl
      exact (hrejected.perform rfl).after_quiet (tearDown _ err)
    · have hclosing : Emits c [] [] { c with closing := true } := same rfl rfl
      exact hclosing.after_quiet (tearDown _ err)

theorem goaway (c : Http2Connection) (lastStreamId : StreamId) (errorCode : Nat) (debugData : Bytes) :
    Emits c [goawayFrame lastStreamId errorCode debugData] [] (c.goaway lastStreamId errorCode debugData) := by
  have hclosing : Emits c [] [] { c with closing := true } := same rfl rfl
  exact hclosing.after_quiet (.sendFrame _ _)

end Emits

/-- The answers to the frame a step receives. -/
def answersTo (c : Http2Connection) : ConnectionStep → List Frame
  | .receiveFrame frame => if c.reading then c.manager.answers frame else []
  | _ => []

/-- Chunks of streams that the manager has, or that the step opens. -/
def ChunksOf (c : Http2Connection) (s : ConnectionStep) (chunks : List (StreamId × Bytes × Bool)) : Prop :=
  ∀ chunk ∈ chunks, (chunk.1 ∈ c.manager.streams.keys ∨ c.Opens s ∧ chunk.1 = c.manager.nextStreamId) ∧ chunk.2.1 ≠ []

/-- What a step sends. -/
def Sends (c : Http2Connection) (s : ConnectionStep) (c' : Http2Connection) : Prop :=
  ∃ chunks, c.ChunksOf s chunks ∧
    Emits c (c.sends s) (chunks.map (fun chunk => dataFrame chunk.1 chunk.2) ++ c.answersTo s) c'

theorem Sends.quiet {s : ConnectionStep} (hanswers : c.answersTo s = []) (h : Emits c (c.sends s) [] c') : Sends c s c' := by
  refine ⟨[], fun _ hmem => absurd hmem List.not_mem_nil, ?_⟩
  rw [hanswers]
  exact h

theorem acquireSlot_outbound (c : Http2Connection) (call : RequestCall) : (c.acquireSlot call).outbound = c.outbound := by
  rw [acquireSlot]
  split <;> rfl

/-- What the executor of a request sends: the HEADERS, and chunks of the body. -/
theorem executeRequest_emits (c : Http2Connection) (streamId : StreamId) (call : RequestCall) :
    ∃ chunks : List (StreamId × Bytes × Bool), (∀ chunk ∈ chunks, chunk.1 ∈ c.manager.streams.keys ∧ chunk.2.1 ≠ []) ∧
      Emits c (c.executorSends streamId call) (chunks.map fun chunk => dataFrame chunk.1 chunk.2) (c.executeRequest streamId call) := by
  have hexpected : Emits c [] [] (c.manage (.expectResponse streamId call.promise call.promise)) :=
    .manage c ((Manager.sent_expectResponse _ _ _ _).trans (List.append_nil _).symm)
  have hkeys : (c.manage (.expectResponse streamId call.promise call.promise)).manager.streams.keys = c.manager.streams.keys := by
    rw [manage, managed_manager]
    exact Manager.keys_expectResponse _ _ _ _
  have hnone : ∀ chunk ∈ ([] : List (StreamId × Bytes × Bool)), chunk.1 ∈ c.manager.streams.keys ∧ chunk.2.1 ≠ [] :=
    fun _ hmem => absurd hmem List.not_mem_nil
  rw [executeRequest_eq, executorSends]
  split
  · have hturned : Emits c [] [] { c with activeClientStreams := c.activeClientStreams.delete streamId }.releaseSlot := by
      rw [releaseSlot]
      split <;> exact .same rfl rfl
    exact ⟨[], hnone, hturned.perform rfl⟩
  · cases c.requestBlock call.req with
    | error e => exact ⟨[], hnone, hexpected.perform rfl⟩
    | ok payload =>
        have hsent := hexpected.after_quiet
          (.sendFrame _ (.headers (requestHeadersFrame streamId (bodiless call.req) payload)))
        dsimp only
        split
        · exact ⟨[], hnone, hsent⟩
        · obtain ⟨chunks, hnew, hchunks, -⟩ := Manager.step_sent
            (c.manage (.expectResponse streamId call.promise call.promise)).manager (.sendData streamId (call.req.body.getD []) true)
          rw [hkeys] at hchunks
          have hreplies : Manager.replies (c.manage (.expectResponse streamId call.promise call.promise)).manager
              (.sendData streamId (call.req.body.getD []) true) = [] := rfl
          rw [hreplies, List.append_nil] at hnew
          have hqueued := hsent.trans (.manage _ hnew)
          exact ⟨chunks, hchunks, hqueued⟩

theorem openRequestStream_keys (c : Http2Connection) {id : StreamId} (hid : id ∈ c.openRequestStream.manager.streams.keys) :
    id ∈ c.manager.streams.keys ∨ id = c.manager.nextStreamId := by
  rw [openRequestStream_eq] at hid
  obtain ⟨st, hst, hkey⟩ := List.mem_map.mp hid
  rw [← hkey]
  rcases Table.mem_set hst with heq | ⟨hold, -⟩
  · exact .inr (congrArg ManagedStream.id heq)
  · exact .inl (List.mem_map_of_mem hold)

theorem resume_sends (c : Http2Connection) {call : RequestCall} (hgranted : call ∈ c.granted) :
    Sends c (.resume call) (c.resume call) := by
  obtain ⟨chunks, hchunks, hemits⟩ := executeRequest_emits
    ({ c with granted := c.granted.erase call } : Http2Connection).openRequestStream c.manager.nextStreamId call
  have hopened : Emits c [] [] { c with granted := c.granted.erase call }.openRequestStream := by
    rw [openRequestStream_eq]
    exact .same rfl rfl
  have hsends : c.sends (.resume call) = Http2Connection.executorSends
      ({ c with granted := c.granted.erase call } : Http2Connection).openRequestStream c.manager.nextStreamId call := by
    rw [sends, if_pos hgranted, openRequestStream_eq]
    rfl
  have hanswers : c.answersTo (.resume call) = [] := rfl
  refine ⟨chunks, fun chunk hmem => ⟨?_, (hchunks chunk hmem).2⟩, ?_⟩
  · exact (openRequestStream_keys _ (hchunks chunk hmem).1).imp_right fun hid => ⟨⟨call, rfl, hgranted⟩, hid⟩
  · rw [hsends, hanswers, List.append_nil, resume, if_pos hgranted]
    exact hopened.after_quiet hemits

theorem step_sends (c : Http2Connection) (s : ConnectionStep) : Sends c s (c.step s) := by
  cases s with
  | request call =>
      refine .quiet rfl ?_
      simp only [step, request]
      split
      · exact (Emits.same rfl rfl).perform rfl
      · exact .same (congrArg Manager.sent (c.acquireSlot_manager call)) (c.acquireSlot_outbound call)
  | wake call =>
      refine .quiet rfl ?_
      simp only [step, wake]
      split
      · exact .same (congrArg Manager.sent (acquireSlot_manager _ call)) (acquireSlot_outbound _ call)
      · exact .same rfl rfl
  | resume call =>
      by_cases hgranted : call ∈ c.granted
      · exact c.resume_sends hgranted
      · refine .quiet rfl ?_
        simp only [step, resume, sends, if_neg hgranted]
        exact .same rfl rfl
  | goaway lastStreamId errorCode debugData =>
      exact .quiet rfl (.goaway c lastStreamId errorCode debugData)
  | close =>
      refine .quiet rfl ?_
      simp only [step, close, sends]
      split
      · exact .same rfl rfl
      · have htorn := (Emits.goaway c 0 0 []).trans (.tearDown _ (.http2 .connectionClosed))
        exact htorn.perform rfl
  | ping promise data =>
      refine .quiet rfl ?_
      simp only [step, ping, sends]
      split
      · exact (Emits.same rfl rfl).perform rfl
      · have hnoted : Emits c [] [] { c with pingHandlers := c.pingHandlers ++ [({ promise, data } : PingHandler)] } := .same rfl rfl
        exact hnoted.after_quiet (.sendFrame _ _)
  | waitForSettingsAck promise timeoutMs => exact .quiet rfl (.same rfl rfl)
  | settingsAckTimeout wait =>
      refine .quiet rfl ?_
      simp only [step, settingsAckTimeout]
      split
      · have hended : Emits c [] [] { c with settingsAckReject := none, settingsAckWaits := c.settingsAckWaits.erase wait } :=
          .same rfl rfl
        exact hended.perform rfl
      · exact .same rfl rfl
  | receiveFrame frame =>
      rcases c.receiveFrame_cases frame with ⟨hreading, hsame⟩ | ⟨hreading, hread⟩
      · refine .quiet (if_neg (Bool.eq_false_iff.mp hreading)) ?_
        rw [step, hsame]
        exact .same rfl rfl
      · obtain ⟨chunks, hnew, hchunks, -⟩ := c.manager.step_sent (.dispatch frame)
        have hanswers : c.answersTo (.receiveFrame frame) = c.manager.answers frame := if_pos hreading
        refine ⟨chunks, fun chunk hmem => ⟨.inl (hchunks chunk hmem).1, (hchunks chunk hmem).2⟩, ?_⟩
        rw [hanswers]
        have hmanaged : Emits c [] (chunks.map (fun chunk => dataFrame chunk.1 chunk.2) ++ c.manager.answers frame)
            (c.manage (.dispatch frame)) := .manage c (hnew.trans (List.append_assoc _ _ _))
        rcases hread with ⟨reading, hread⟩ | ⟨e, -, hfatal⟩
        · rw [step, hread]
          exact ⟨hmanaged.manager, hmanaged.outbound⟩
        · have htorn := hmanaged.trans (.handleFatal _ e)
          rw [List.append_nil] at htorn
          rw [step, hfatal]
          exact ⟨htorn.manager, htorn.outbound⟩
  | readError err =>
      refine .quiet rfl ?_
      simp only [step, readError]
      split
      · have hfatal := Emits.handleFatal c err
        exact ⟨hfatal.manager, hfatal.outbound⟩
      · exact .same rfl rfl

end Http2Connection

end BrowsercoreHttp2
