import BrowsercoreHttp2.Connection.Steps

/-!
# What a step asks for

A step of the connection asks its manager for a few operations and sends a few frames of its own. Both are
read off the step and the state it is taken in, so a run of the connection is a run of the manager whose
operations are known.
-/

namespace BrowsercoreHttp2

namespace Http2Connection

variable {c c' : Http2Connection}

/-- The header block of a request. -/
def requestBlock (c : Http2Connection) (req : Http2Request) : Except HpackError Bytes :=
  encodeHeaders (buildRequestHeaders c.options req)
    { indexing := c.options.hpackIndexing, useHuffman := c.options.hpackHuffman, maxTableSize := c.options.hpackMaxTableSize }

/-- The request has no body to send. -/
def bodiless (req : Http2Request) : Bool := req.body.all (·.length = 0)

theorem executeRequest_eq (c : Http2Connection) (streamId : StreamId) (call : RequestCall) :
    c.executeRequest streamId call =
      if c.closing || c.closed then
        ({ c with activeClientStreams := c.activeClientStreams.delete streamId }.releaseSlot).perform (.reject call.promise c.closingError)
      else
        match c.requestBlock call.req with
        | .error e => (c.manage (.expectResponse streamId call.promise call.promise)).perform (.reject call.promise (.hpack e))
        | .ok payload =>
            let sent := (c.manage (.expectResponse streamId call.promise call.promise)).sendFrame
              (.headers (requestHeadersFrame streamId (bodiless call.req) payload))
            if bodiless call.req then sent else sent.manage (.sendData streamId (call.req.body.getD []) true) := by
  have hoptions : (c.manage (.expectResponse streamId call.promise call.promise)).options = c.options :=
    (c.managed_hears _).options
  rw [executeRequest]
  dsimp only
  split
  · rw [releaseSlot]
    split <;> rfl
  · rw [sendHeaders, hoptions, requestBlock]
    cases encodeHeaders (buildRequestHeaders c.options call.req) _ with
    | error e => rfl
    | ok payload => rfl

/-! ### Operations of the manager -/

/-- The operations the executor of a request asks for. -/
def executorAsks (c : Http2Connection) (streamId : StreamId) (call : RequestCall) : List ManagerOp :=
  if c.closing || c.closed then []
  else
    .expectResponse streamId call.promise call.promise ::
      match c.requestBlock call.req with
      | .error _ => []
      | .ok _ => if bodiless call.req then [] else [.sendData streamId (call.req.body.getD []) true]

/-- The operations of the manager a step asks for. -/
def asks (c : Http2Connection) : ConnectionStep → List ManagerOp
  | .resume call => if call ∈ c.granted then .openStream :: c.executorAsks c.manager.nextStreamId call else []
  | .close => if c.closed then [] else [.abortAll (.http2 .connectionClosed)]
  | .receiveFrame frame =>
      if c.reading then
        .dispatch frame ::
          match (c.manager.dispatch frame).2 with
          | some err => if c.closed then [] else [.abortAll err]
          | none => []
      else []
  | .readError err => if c.reading && !c.closed then [.abortAll err] else []
  | _ => []

/-- The step opens a stream. -/
def Opens (c : Http2Connection) (s : ConnectionStep) : Prop := ∃ call, s = .resume call ∧ call ∈ c.granted

theorem executorAsks_cases {streamId : StreamId} {call : RequestCall} {op : ManagerOp} (h : op ∈ c.executorAsks streamId call) :
    op = .expectResponse streamId call.promise call.promise ∨ op = .sendData streamId (call.req.body.getD []) true := by
  rw [executorAsks] at h
  split at h
  · exact absurd h List.not_mem_nil
  · rcases List.mem_cons.mp h with h | h
    · exact .inl h
    · split at h
      · exact absurd h List.not_mem_nil
      · split at h
        · exact absurd h List.not_mem_nil
        · exact .inr (List.mem_singleton.mp h)

/-- What a step may ask for: to handle a frame, to abort, and for a request what carries it out. -/
theorem asks_cases {s : ConnectionStep} {op : ManagerOp} (h : op ∈ c.asks s) :
    (∃ frame, s = .receiveFrame frame ∧ op = .dispatch frame) ∨ (∃ err, op = .abortAll err) ∨
      c.Opens s ∧ (op = .openStream ∨ ∃ call, op ∈ c.executorAsks c.manager.nextStreamId call) := by
  cases s with
  | resume call =>
      simp only [asks] at h
      split at h
      · rename_i hgranted
        exact .inr (.inr ⟨⟨call, rfl, hgranted⟩, (List.mem_cons.mp h).imp_right fun h => ⟨call, h⟩⟩)
      · exact absurd h List.not_mem_nil
  | close =>
      simp only [asks] at h
      split at h
      · exact absurd h List.not_mem_nil
      · exact .inr (.inl ⟨_, List.mem_singleton.mp h⟩)
  | receiveFrame frame =>
      simp only [asks] at h
      split at h
      · rcases List.mem_cons.mp h with h | h
        · exact .inl ⟨frame, rfl, h⟩
        · split at h
          · split at h
            · exact absurd h List.not_mem_nil
            · exact .inr (.inl ⟨_, List.mem_singleton.mp h⟩)
          · exact absurd h List.not_mem_nil
      · exact absurd h List.not_mem_nil
  | readError err =>
      simp only [asks] at h
      split at h
      · exact .inr (.inl ⟨_, List.mem_singleton.mp h⟩)
      · exact absurd h List.not_mem_nil
  | _ => exact absurd h List.not_mem_nil

theorem asks_openStream {s : ConnectionStep} (h : .openStream ∈ c.asks s) : c.Opens s := by
  rcases asks_cases h with ⟨frame, -, hop⟩ | ⟨err, hop⟩ | ⟨hopens, -⟩
  · exact absurd hop (by simp)
  · exact absurd hop (by simp)
  · exact hopens

theorem acquireSlot_manager (c : Http2Connection) (call : RequestCall) : (c.acquireSlot call).manager = c.manager := by
  rw [acquireSlot]
  split <;> rfl

theorem executeRequest_manager (c : Http2Connection) (streamId : StreamId) (call : RequestCall) :
    (c.executeRequest streamId call).manager = c.manager.steps (c.executorAsks streamId call) := by
  have hexpected : (c.manage (.expectResponse streamId call.promise call.promise)).manager =
      c.manager.step (.expectResponse streamId call.promise call.promise) := managed_manager c _
  rw [executeRequest_eq, executorAsks]
  split
  · exact (Hears.releaseSlot _).manager
  · cases c.requestBlock call.req with
    | error e => exact hexpected
    | ok payload =>
        dsimp only
        split
        · exact hexpected
        · rw [manage, managed_manager]
          exact congrArg (Manager.step · _) hexpected

theorem handleFatal_manager (c : Http2Connection) (err : JsError) :
    (c.handleFatal err).manager = c.manager.steps (if c.closed then [] else [.abortAll err]) := by
  cases hclosed : c.closed with
  | true => rw [handleFatal_of_closed hclosed]; rfl
  | false => exact (handleFatal_tornDown hclosed err).manager

/-- What a step makes of the manager is what the operations it asks for make of it. -/
theorem step_manager (c : Http2Connection) (s : ConnectionStep) : (c.step s).manager = c.manager.steps (c.asks s) := by
  cases s with
  | request call =>
      simp only [step, request]
      split
      · rfl
      · exact c.acquireSlot_manager call
  | wake call =>
      simp only [step, wake]
      split
      · exact acquireSlot_manager _ call
      · rfl
  | resume call =>
      simp only [step, resume, asks]
      split
      · rw [executeRequest_manager, openRequestStream_eq]
        rfl
      · rfl
  | close =>
      simp only [step, asks]
      cases hclosed : c.closed with
      | true => rw [close_of_closed hclosed]; rfl
      | false => exact (close_tornDown hclosed).manager
  | ping promise data =>
      simp only [step, ping]
      split <;> rfl
  | settingsAckTimeout wait =>
      simp only [step, settingsAckTimeout]
      split <;> rfl
  | receiveFrame frame =>
      simp only [step, receiveFrame, asks]
      split
      · split
        · rename_i m hdispatch
          rw [hdispatch]
          exact (managed_manager c m).trans (congrArg Prod.fst hdispatch).symm
        · rename_i m err hdispatch
          have hclosed : (c.managed m).closed = c.closed := (c.managed_hears m).closed
          have hm : (c.managed m).manager = c.manager.step (.dispatch frame) :=
            (managed_manager c m).trans (congrArg Prod.fst hdispatch).symm
          rw [hdispatch]
          dsimp only
          rw [handleFatal_manager, hclosed, hm]
          rfl
      · rfl
  | readError err =>
      simp only [step, readError, asks]
      cases hreading : c.reading with
      | true =>
          rw [if_pos rfl, Bool.true_and]
          dsimp only
          rw [handleFatal_manager]
          cases c.closed <;> rfl
      | false => rfl
  | _ => rfl

/-! ### Frames of its own -/

/-- The frames the connection has sent itself, not through its manager. -/
def ownFrames (c : Http2Connection) : List Frame := c.effects.filterMap fun
  | .sendFrame frame => some frame
  | _ => none

@[simp] theorem sendFrame_ownFrames (c : Http2Connection) (frame : Frame) :
    (c.sendFrame frame).ownFrames = c.ownFrames ++ [frame] :=
  List.filterMap_append

theorem ownFrames_of_quiet {new : List ConnectionEffect} (heffects : c'.effects = c.effects ++ new)
    (hquiet : ∀ frame, .sendFrame frame ∉ new) : c'.ownFrames = c.ownFrames := by
  have hnone : new.filterMap (fun | .sendFrame frame => some frame | _ => none) = ([] : List Frame) := by
    apply List.filterMap_eq_nil_iff.mpr
    intro effect heffect
    cases effect with
    | sendFrame frame => exact absurd heffect (hquiet frame)
    | _ => rfl
  rw [ownFrames, heffects, List.filterMap_append, hnone, List.append_nil, ownFrames]

theorem perform_ownFrames {effect : ConnectionEffect} (heffect : ∀ frame, effect ≠ .sendFrame frame) :
    (c.perform effect).ownFrames = c.ownFrames :=
  ownFrames_of_quiet rfl fun frame hmem => heffect frame (List.mem_singleton.mp hmem).symm

theorem releaseSlot_ownFrames (c : Http2Connection) : c.releaseSlot.ownFrames = c.ownFrames := by
  rw [releaseSlot]
  split <;> rfl

theorem acquireSlot_ownFrames (c : Http2Connection) (call : RequestCall) : (c.acquireSlot call).ownFrames = c.ownFrames := by
  rw [acquireSlot]
  split <;> rfl

theorem onEvent_ownFrames (c : Http2Connection) (event : Event) : (c.onEvent event).ownFrames = c.ownFrames := by
  cases event with
  | streamClosed id =>
      simp only [onEvent, onStreamClosed]
      split
      · exact releaseSlot_ownFrames _
      · rfl
  | pingAck data => exact ownFrames_of_quiet rfl (by simp)
  | settingsAck =>
      simp only [onEvent, onSettingsAck]
      split
      · rfl
      · exact ownFrames_of_quiet rfl (by simp)
  | _ => rfl

theorem managed_ownFrames (c : Http2Connection) (m : Manager) : (c.managed m).ownFrames = c.ownFrames := by
  refine @managed_induction (fun c' => c'.ownFrames = c.ownFrames) c m rfl fun c' effect _ hbefore => ?_
  have hlogged : (c'.perform (.manager effect)).ownFrames = c'.ownFrames := perform_ownFrames (by simp)
  unfold onEffect
  dsimp only
  split
  · exact ((onEvent_ownFrames _ _).trans hlogged).trans hbefore
  · exact hlogged.trans hbefore

theorem tearDown_ownFrames (c : Http2Connection) (err : JsError) : (c.tearDown err).ownFrames = c.ownFrames :=
  managed_ownFrames c _

theorem handleFatal_ownFrames (c : Http2Connection) (err : JsError) : (c.handleFatal err).ownFrames = c.ownFrames := by
  rw [handleFatal]
  split
  · rfl
  · dsimp only
    split
    · rw [tearDown_ownFrames]
      exact perform_ownFrames (by simp)
    · exact tearDown_ownFrames _ err

/-- The HEADERS the executor of a request sends. -/
def executorSends (c : Http2Connection) (streamId : StreamId) (call : RequestCall) : List Frame :=
  if c.closing || c.closed then []
  else
    match c.requestBlock call.req with
    | .error _ => []
    | .ok payload => [.headers (requestHeadersFrame streamId (bodiless call.req) payload)]

/-- The frames of its own that a step sends. -/
def sends (c : Http2Connection) : ConnectionStep → List Frame
  | .resume call => if call ∈ c.granted then c.executorSends c.manager.nextStreamId call else []
  | .goaway lastStreamId errorCode debugData => [goawayFrame lastStreamId errorCode debugData]
  | .close => if c.closed then [] else [goawayFrame 0 0 []]
  | .ping _ data => if c.closed then [] else [.ping { flags := 0, streamId := 0, ack := false, opaqueData := data }]
  | _ => []

theorem executeRequest_ownFrames (c : Http2Connection) (streamId : StreamId) (call : RequestCall) :
    (c.executeRequest streamId call).ownFrames = c.ownFrames ++ c.executorSends streamId call := by
  rw [executeRequest_eq, executorSends]
  split
  · rw [List.append_nil, perform_ownFrames (by simp), releaseSlot_ownFrames]
    rfl
  · have hexpected : (c.manage (.expectResponse streamId call.promise call.promise)).ownFrames = c.ownFrames :=
      managed_ownFrames c _
    cases c.requestBlock call.req with
    | error e =>
        rw [List.append_nil, ← hexpected]
        exact perform_ownFrames (by simp)
    | ok payload =>
        dsimp only
        split
        · rw [sendFrame_ownFrames, hexpected]
        · rw [manage, managed_ownFrames, sendFrame_ownFrames, hexpected]

theorem step_ownFrames (c : Http2Connection) (s : ConnectionStep) : (c.step s).ownFrames = c.ownFrames ++ c.sends s := by
  cases s with
  | request call =>
      simp only [step, request, sends, List.append_nil]
      split
      · exact perform_ownFrames (by simp)
      · exact c.acquireSlot_ownFrames call
  | wake call =>
      simp only [step, wake, sends, List.append_nil]
      split
      · exact acquireSlot_ownFrames _ call
      · rfl
  | resume call =>
      simp only [step, resume, sends]
      split
      · rw [executeRequest_ownFrames, openRequestStream_eq]
        rfl
      · exact (List.append_nil _).symm
  | goaway lastStreamId errorCode debugData => exact sendFrame_ownFrames _ _
  | close =>
      simp only [step, close, sends]
      split
      · exact (List.append_nil _).symm
      · rw [perform_ownFrames (by simp), tearDown_ownFrames]
        exact sendFrame_ownFrames _ _
  | ping promise data =>
      simp only [step, ping, sends]
      split
      · rw [List.append_nil, perform_ownFrames (by simp)]
      · exact sendFrame_ownFrames _ _
  | waitForSettingsAck promise timeoutMs => exact (List.append_nil _).symm
  | settingsAckTimeout wait =>
      simp only [step, settingsAckTimeout, sends, List.append_nil]
      split
      · exact perform_ownFrames (by simp)
      · rfl
  | receiveFrame frame =>
      simp only [step, receiveFrame, sends, List.append_nil]
      split
      · split
        · exact managed_ownFrames c _
        · exact (handleFatal_ownFrames _ _).trans (managed_ownFrames c _)
      · rfl
  | readError err =>
      simp only [step, readError, sends, List.append_nil]
      split
      · exact c.handleFatal_ownFrames err
      · rfl

end Http2Connection

end BrowsercoreHttp2
