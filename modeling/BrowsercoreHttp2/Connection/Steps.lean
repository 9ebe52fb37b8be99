import BrowsercoreHttp2.Connection.Listeners

/-!
# What a step leaves

Steps come in few shapes. Most leave the connection open or closing as it is, receiving a frame moves the
manager, and a failure, like `close()`, tears the connection down. Nothing that was done is undone, closing
is for good, and a closed connection is a closing one. The manager goes through a run of its own operations,
so that every property of such runs holds of it.
-/

namespace BrowsercoreHttp2

namespace Http2Connection

variable {c c' c'' : Http2Connection}

/-! ### New effects -/

def newEffects (c c' : Http2Connection) : List ConnectionEffect := c'.effects.drop c.effects.length

theorem newEffects_of_eq {c' : Http2Connection} (h : c'.effects = c.effects) : c.newEffects c' = [] := by
  rw [newEffects, h, List.drop_length]

theorem mem_newEffects {c' : Http2Connection} {effect : ConnectionEffect} (h : c.effects ++ [effect] <+: c'.effects) :
    effect ∈ c.newEffects c' := by
  obtain ⟨more, hmore⟩ := h
  rw [newEffects, ← hmore, List.append_assoc, List.drop_left]
  exact List.mem_append_left _ (List.mem_singleton.mpr rfl)

theorem newEffects_subset_left (h : c.effects <+: c'.effects) (c'' : Http2Connection) : c'.newEffects c'' ⊆ c.newEffects c'' :=
  List.drop_subset_drop_left c''.effects h.length_le

/-! ### Opening a stream -/

theorem openRequestStream_eq (c : Http2Connection) :
    c.openRequestStream =
      { c with
        manager := c.manager.openStream.1
        activeClientStreams := c.activeClientStreams.set c.manager.nextStreamId } := by
  have hquiet : c.manage .openStream = { c with manager := c.manager.openStream.1 } := c.managed_of_effects_eq rfl
  rw [openRequestStream, hquiet]

theorem openStream_get (m : Manager) : m.openStream.1.streams.get m.nextStreamId = some m.newClientStream :=
  Table.get_set_self m.streams m.newClientStream

theorem manage_expectResponse_eq {st : ManagedStream} (hget : c.manager.streams.get st.id = some st) (promise : Callback) :
    c.manage (.expectResponse st.id promise promise) =
      { c with manager := c.manager.setStream { st with resolve := some promise, reject := some promise } } := by
  have hstep : c.manager.step (.expectResponse st.id promise promise) =
      c.manager.setStream { st with resolve := some promise, reject := some promise } := by
    simp only [Manager.step, Manager.expectResponse, hget]
  rw [manage, hstep]
  exact c.managed_of_effects_eq rfl

/-! ### Tearing down -/

/-- What tearing a connection down makes of it. -/
structure TornDown (c c' : Http2Connection) (err : JsError) : Prop where
  manager : c'.manager = c.manager.step (.abortAll err)
  closing : c'.closing = true
  closed : c'.closed = true
  active : c'.activeClientStreams = .empty
  slotWaiters : c'.slotWaiters = []
  woken : c'.woken = c.woken ++ c.slotWaiters
  granted : c'.granted = c.granted
  effects : c.effects <+: c'.effects

theorem tearDown_tornDown (hclosing : c.closing = true) (err : JsError) : TornDown c (c.tearDown err) err := by
  have hhears := c.managed_hears (c.manager.step (.abortAll err))
  obtain ⟨freed, hwaiters, hwoken⟩ := hhears.waiters
  have hwaiters : c.slotWaiters = freed ++ (c.manage (.abortAll err)).slotWaiters := hwaiters
  have hwoken : (c.manage (.abortAll err)).woken = c.woken ++ freed := hwoken
  refine ⟨managed_manager c _, hhears.closing hclosing, rfl, rfl, rfl, ?_, hhears.granted, hhears.effects⟩
  show (c.manage (.abortAll err)).woken ++ (c.manage (.abortAll err)).slotWaiters = c.woken ++ c.slotWaiters
  rw [hwaiters, hwoken, List.append_assoc]

theorem handleFatal_tornDown (hopen : c.closed = false) (err : JsError) : TornDown c (c.handleFatal err) err := by
  rw [handleFatal, if_neg (Bool.eq_false_iff.mp hopen)]
  dsimp only
  split
  · rename_i promise hreject
    have htorn := tearDown_tornDown
      (c := { c with closing := true, settingsAckReject := none }.perform (.reject promise err)) rfl err
    exact { htorn with effects := (List.prefix_append _ _).trans htorn.effects }
  · have htorn := tearDown_tornDown (c := { c with closing := true }) rfl err
    exact { htorn with }

theorem close_tornDown (hopen : c.closed = false) : TornDown c c.close (.http2 .connectionClosed) := by
  rw [close, if_neg (Bool.eq_false_iff.mp hopen)]
  have htorn := tearDown_tornDown (c := c.goaway 0 0 []) rfl (.http2 .connectionClosed)
  exact { htorn with effects := ((List.prefix_append _ _).trans htorn.effects).trans (List.prefix_append _ _) }

theorem handleFatal_of_closed (hclosed : c.closed = true) (err : JsError) : c.handleFatal err = c := by
  rw [handleFatal, hclosed, if_pos rfl]

theorem close_of_closed (hclosed : c.closed = true) : c.close = c := by
  rw [close, hclosed, if_pos rfl]

/-! ### The shapes of a step -/

/-- Only pings, settings waits, the read loop and the log have moved. -/
structure Aside (c c' : Http2Connection) : Prop where
  manager : c'.manager = c.manager
  active : c'.activeClientStreams = c.activeClientStreams
  slotWaiters : c'.slotWaiters = c.slotWaiters
  woken : c'.woken = c.woken
  granted : c'.granted = c.granted
  closing : c'.closing = c.closing
  closed : c'.closed = c.closed
  effects : c.effects <+: c'.effects

theorem Aside.refl (c : Http2Connection) : Aside c c := ⟨rfl, rfl, rfl, rfl, rfl, rfl, rfl, List.prefix_rfl⟩

theorem Aside.perform (c : Http2Connection) (effect : ConnectionEffect) : Aside c (c.perform effect) :=
  { Aside.refl c with effects := List.prefix_append _ _ }

/-- What a step makes of a connection. -/
inductive Moves (c : Http2Connection) : ConnectionStep → Http2Connection → Prop where
  | aside {s : ConnectionStep} {c' : Http2Connection} (h : Aside c c') : Moves c s c'
  | requested (call : RequestCall) (hopen : (c.closing || c.closed) = false) : Moves c (.request call) (c.acquireSlot call)
  | woke (call : RequestCall) (hcall : call ∈ c.woken) :
      Moves c (.wake call) ({ c with woken := c.woken.erase call }.acquireSlot call)
  | resumed (call : RequestCall) (hcall : call ∈ c.granted) : Moves c (.resume call) (c.resume call)
  | leaving (lastStreamId : StreamId) (errorCode : Nat) (debugData : Bytes) :
      Moves c (.goaway lastStreamId errorCode debugData) (c.goaway lastStreamId errorCode debugData)
  | tornDown {s : ConnectionStep} {c' : Http2Connection} {err : JsError} (hopen : c.closed = false) (h : TornDown c c' err) : Moves c s c'
  | received (frame : Frame) {c' : Http2Connection} (hreading : c.reading = true) (h : Aside (c.manage (.dispatch frame)) c') :
      Moves c (.receiveFrame frame) c'
  | failed (frame : Frame) {c' : Http2Connection} {err : JsError} (hreading : c.reading = true) (hopen : c.closed = false)
      (h : TornDown (c.manage (.dispatch frame)) c' err) : Moves c (.receiveFrame frame) c'

theorem receiveFrame_moves (c : Http2Connection) (frame : Frame) : Moves c (.receiveFrame frame) (c.receiveFrame frame) := by
  have hclosed : (c.manage (.dispatch frame)).closed = c.closed := (c.managed_hears _).closed
  rcases c.receiveFrame_cases frame with ⟨-, hsame⟩ | ⟨hreading, ⟨reading, hread⟩ | ⟨e, -, hfatal⟩⟩
  · exact .aside (hsame.symm ▸ .refl c)
  · rw [hread]
    exact .received frame hreading { Aside.refl (c.manage (.dispatch frame)) with }
  · rw [hfatal]
    cases hshut : c.closed with
    | true =>
        rw [handleFatal_of_closed (hclosed.trans hshut)]
        exact .received frame hreading { Aside.refl (c.manage (.dispatch frame)) with }
    | false => exact .failed frame hreading hshut { handleFatal_tornDown (hclosed.trans hshut) e with }

theorem step_moves (c : Http2Connection) (s : ConnectionStep) : Moves c s (c.step s) := by
  cases s with
  | request call =>
      simp only [step, request]
      split
      · exact .aside (.perform c _)
      · rename_i hopen
        exact .requested call (Bool.not_eq_true _ |>.mp hopen)
  | wake call =>
      simp only [step, wake]
      split
      · rename_i hcall
        exact .woke call hcall
      · exact .aside (.refl c)
  | resume call =>
      by_cases hcall : call ∈ c.granted
      · exact .resumed call hcall
      · simp only [step, resume, if_neg hcall]
        exact .aside (.refl c)
  | goaway lastStreamId errorCode debugData => exact .leaving lastStreamId errorCode debugData
  | close =>
      cases hclosed : c.closed with
      | true =>
          simp only [step, close_of_closed hclosed]
          exact .aside (.refl c)
      | false => exact .tornDown hclosed (close_tornDown hclosed)
  | ping promise data =>
      simp only [step, ping]
      split <;> exact .aside { Aside.refl c with effects := List.prefix_append _ _ }
  | waitForSettingsAck promise timeoutMs => exact .aside { Aside.refl c with }
  | settingsAckTimeout wait =>
      simp only [step, settingsAckTimeout]
      split
      · exact .aside { Aside.refl c with effects := List.prefix_append _ _ }
      · exact .aside (.refl c)
  | receiveFrame frame => exact c.receiveFrame_moves frame
  | readError err =>
      simp only [step, readError]
      split
      · cases hclosed : c.closed with
        | true =>
            rw [handleFatal_of_closed hclosed]
            exact .aside { Aside.refl c with }
        | false => exact .tornDown hclosed { handleFatal_tornDown hclosed err with }
      · exact .aside (.refl c)

/-! ### What never goes back -/

/-- A step that goes back on nothing: the manager has gone through operations of its own. -/
structure Advances (c c' : Http2Connection) : Prop where
  closing : c.closing = true → c'.closing = true
  closed : c'.closed = c.closed ∨ c'.closing = true
  effects : c.effects <+: c'.effects
  manager : ∃ ops, c'.manager = c.manager.steps ops

namespace Advances

theorem refl (c : Http2Connection) : Advances c c := ⟨id, .inl rfl, List.prefix_rfl, [], rfl⟩

theorem trans (h : Advances c c') (h' : Advances c' c'') : Advances c c'' where
  closing hclosing := h'.closing (h.closing hclosing)
  closed := by
    rcases h'.closed with hsame | hclosing
    · rw [hsame]
      exact h.closed.imp_right h'.closing
    · exact .inr hclosing
  effects := h.effects.trans h'.effects
  manager := by
    obtain ⟨ops, hops⟩ := h.manager
    obtain ⟨ops', hops'⟩ := h'.manager
    exact ⟨ops ++ ops', by rw [hops', hops, Manager.steps_append]⟩

theorem perform (h : Advances c c') (effect : ConnectionEffect) : Advances c (c'.perform effect) :=
  h.trans ⟨id, .inl rfl, List.prefix_append _ _, [], rfl⟩

theorem same (hclosing : c'.closing = c.closing) (hclosed : c'.closed = c.closed) (heffects : c'.effects = c.effects)
    (hmanager : c'.manager = c.manager) : Advances c c' :=
  ⟨fun h => hclosing.trans h, .inl hclosed, heffects ▸ List.prefix_rfl, [], hmanager⟩

theorem nextStreamId_le (h : Advances c c') : c.manager.nextStreamId ≤ c'.manager.nextStreamId := by
  obtain ⟨ops, hops⟩ := h.manager
  exact hops.symm ▸ Manager.steps_nextStreamId_le c.manager ops

end Advances

theorem Hears.advances (h : Hears c c') : Advances c c' := ⟨h.closing, .inl h.closed, h.effects, [], h.manager⟩

theorem Aside.advances (h : Aside c c') : Advances c c' :=
  ⟨fun hclosing => h.closing.trans hclosing, .inl h.closed, h.effects, [], h.manager⟩

theorem TornDown.advances {err : JsError} (h : TornDown c c' err) : Advances c c' :=
  ⟨fun _ => h.closing, .inr h.closing, h.effects, [.abortAll err], h.manager⟩

theorem manage_advances (c : Http2Connection) (op : ManagerOp) : Advances c (c.manage op) := by
  have hmoved : Advances c { c with manager := c.manager.step op } := ⟨id, .inl rfl, List.prefix_rfl, [op], rfl⟩
  exact hmoved.trans (c.managed_hears (c.manager.step op)).advances

theorem acquireSlot_advances (c : Http2Connection) (call : RequestCall) : Advances c (c.acquireSlot call) := by
  rw [acquireSlot]
  split <;> exact .same rfl rfl rfl rfl

theorem executeRequest_advances (c : Http2Connection) (streamId : StreamId) (call : RequestCall) :
    Advances c (c.executeRequest streamId call) := by
  apply executeRequest_induction c streamId call
  · exact fun _ => ((Hears.delete c streamId).trans (.releaseSlot _)).advances
  · exact fun _ => c.manage_advances _
  · exact fun c' effect _ hbefore => hbefore.perform effect
  · exact fun c' data hbefore => hbefore.trans (c'.manage_advances _)

theorem openRequestStream_advances (c : Http2Connection) : Advances c c.openRequestStream :=
  (c.manage_advances _).trans (.same rfl rfl rfl rfl)

theorem Moves.advances {s : ConnectionStep} (h : Moves c s c') : Advances c c' := by
  cases h with
  | aside h => exact h.advances
  | requested call hopen => exact c.acquireSlot_advances call
  | woke call hcall =>
      have hwoken : Advances c { c with woken := c.woken.erase call } := .same rfl rfl rfl rfl
      exact hwoken.trans (acquireSlot_advances _ call)
  | resumed call hcall =>
      rw [resume, if_pos hcall]
      have hgranted : Advances c { c with granted := c.granted.erase call } := .same rfl rfl rfl rfl
      exact (hgranted.trans (openRequestStream_advances _)).trans (executeRequest_advances _ _ call)
  | leaving lastStreamId errorCode debugData => exact ⟨fun _ => rfl, .inl rfl, List.prefix_append _ _, [], rfl⟩
  | tornDown hopen h => exact h.advances
  | received frame hreading h => exact (c.manage_advances _).trans h.advances
  | failed frame hreading hopen h => exact (c.manage_advances _).trans h.advances

theorem step_advances (c : Http2Connection) (s : ConnectionStep) : Advances c (c.step s) := (c.step_moves s).advances

@[simp] theorem run_nil (options : Http2Options) : run options [] = { options } := rfl

theorem run_append (options : Http2Options) (s s' : List ConnectionStep) : run options (s ++ s') = (run options s).steps s' :=
  List.foldl_append

theorem run_concat (options : Http2Options) (s : List ConnectionStep) (a : ConnectionStep) :
    run options (s ++ [a]) = (run options s).step a :=
  run_append options s [a]

theorem steps_advances (c : Http2Connection) (s : List ConnectionStep) : Advances c (c.steps s) := by
  induction s generalizing c with
  | nil => exact .refl c
  | cons s rest ih => exact (c.step_advances s).trans (ih _)

theorem run_closing_of_closed (options : Http2Options) (s : List ConnectionStep) (h : (run options s).closed = true) :
    (run options s).closing = true := by
  rcases (steps_advances { options } s).closed with hsame | hclosing
  · rw [run, hsame] at h
    exact absurd h (by simp)
  · exact hclosing

/-! ### The manager of a connection -/

/-- The manager has come about by its own operations. -/
def Managed (c : Http2Connection) : Prop := ∃ ops, c.manager = Manager.run ops

/-- What holds of every run of a manager holds of the manager in every run of a connection. -/
theorem run_managed (options : Http2Options) (s : List ConnectionStep) : (run options s).Managed :=
  (steps_advances { options } s).manager

end Http2Connection

end BrowsercoreHttp2
