import BrowsercoreHttp2.Connection
import BrowsercoreHttp2.Stream.Changes

/-!
# Listening to the manager

The connection learns what its manager did by events. Hearing them frees slots, wakes waiters and may
begin closing, and it moves nothing else of the connection but pings and settings waits. What the executor of
a request and a frame do is an operation or two of the manager, heard so.
-/

namespace BrowsercoreHttp2

namespace Http2Connection

/-- Some of the waiters, from the first on, have been woken. -/
def Wakes (c c' : Http2Connection) : Prop := ∃ freed, c.slotWaiters = freed ++ c'.slotWaiters ∧ c'.woken = c.woken ++ freed

theorem Wakes.same {c c' : Http2Connection} (hwaiters : c'.slotWaiters = c.slotWaiters) (hwoken : c'.woken = c.woken) : Wakes c c' :=
  ⟨[], hwaiters.symm, hwoken.trans (List.append_nil _).symm⟩

theorem Wakes.trans {c c' c'' : Http2Connection} (h : Wakes c c') (h' : Wakes c' c'') : Wakes c c'' := by
  obtain ⟨freed, hwaiters, hwoken⟩ := h
  obtain ⟨freed', hwaiters', hwoken'⟩ := h'
  exact ⟨freed ++ freed', by rw [hwaiters, hwaiters', List.append_assoc], by rw [hwoken', hwoken, List.append_assoc]⟩

/-- What hearing the manager can change: slots are freed and waiters woken, and a GOAWAY begins closing. -/
structure Hears (c c' : Http2Connection) : Prop where
  options : c'.options = c.options
  manager : c'.manager = c.manager
  granted : c'.granted = c.granted
  closed : c'.closed = c.closed
  closing : c.closing = true → c'.closing = true
  active : c'.activeClientStreams.entries.Sublist c.activeClientStreams.entries
  effects : c.effects <+: c'.effects
  waiters : Wakes c c'

namespace Hears

variable {c c' c'' : Http2Connection}

theorem refl (c : Http2Connection) : Hears c c := ⟨rfl, rfl, rfl, rfl, id, .refl _, List.prefix_rfl, .same rfl rfl⟩

theorem trans (h : Hears c c') (h' : Hears c' c'') : Hears c c'' where
  options := h'.options.trans h.options
  manager := h'.manager.trans h.manager
  granted := h'.granted.trans h.granted
  closed := h'.closed.trans h.closed
  closing hclosing := h'.closing (h.closing hclosing)
  active := h'.active.trans h.active
  effects := h.effects.trans h'.effects
  waiters := h.waiters.trans h'.waiters

theorem releaseSlot (c : Http2Connection) : Hears c c.releaseSlot := by
  rw [Http2Connection.releaseSlot]
  split
  · exact refl c
  · rename_i waiter slotWaiters hwaiters
    exact ⟨rfl, rfl, rfl, rfl, id, .refl _, List.prefix_rfl, [waiter], hwaiters, rfl⟩

theorem delete (c : Http2Connection) (streamId : StreamId) :
    Hears c { c with activeClientStreams := c.activeClientStreams.delete streamId } :=
  ⟨rfl, rfl, rfl, rfl, id, List.filter_sublist, List.prefix_rfl, .same rfl rfl⟩

theorem onStreamClosed (c : Http2Connection) (streamId : StreamId) : Hears c (c.onStreamClosed streamId) := by
  rw [Http2Connection.onStreamClosed]
  split
  · exact (delete c streamId).trans (releaseSlot _)
  · exact refl c

theorem onEvent (c : Http2Connection) (event : Event) : Hears c (c.onEvent event) := by
  cases event with
  | goaway lastStreamId errorCode debugData => exact ⟨rfl, rfl, rfl, rfl, fun _ => rfl, .refl _, List.prefix_rfl, .same rfl rfl⟩
  | streamClosed streamId => exact onStreamClosed c streamId
  | pingAck opaqueData => exact ⟨rfl, rfl, rfl, rfl, id, .refl _, List.prefix_append _ _, .same rfl rfl⟩
  | settingsAck =>
      simp only [Http2Connection.onEvent, onSettingsAck]
      split
      · exact refl c
      · exact ⟨rfl, rfl, rfl, rfl, id, .refl _, List.prefix_append _ _, .same rfl rfl⟩
  | push streamId headers => exact refl c
  | pushResponse streamId response => exact refl c

theorem onEffect (c : Http2Connection) (effect : Effect) : Hears c (c.onEffect effect) := by
  have hlogged : Hears c (c.perform (.manager effect)) := ⟨rfl, rfl, rfl, rfl, id, .refl _, List.prefix_append _ _, .same rfl rfl⟩
  unfold Http2Connection.onEffect
  dsimp only
  split
  · exact hlogged.trans (onEvent _ _)
  · exact hlogged

theorem foldl_onEffect (c : Http2Connection) (effects : List Effect) : Hears c (effects.foldl Http2Connection.onEffect c) := by
  induction effects generalizing c with
  | nil => exact refl c
  | cons effect effects ih => exact (onEffect c effect).trans (ih _)

end Hears

theorem managed_induction {motive : Http2Connection → Prop} (c : Http2Connection) {m : Manager} (hstart : motive { c with manager := m })
    (hheard : ∀ c' effect, effect ∈ m.effects.drop c.manager.effects.length → motive c' → motive (c'.onEffect effect)) :
    motive (c.managed m) :=
  List.foldlRecOn _ onEffect hstart fun c' hbefore effect hmem => hheard c' effect hmem hbefore

theorem managed_hears (c : Http2Connection) (m : Manager) : Hears { c with manager := m } (c.managed m) :=
  .foldl_onEffect _ _

@[simp] theorem managed_manager (c : Http2Connection) (m : Manager) : (c.managed m).manager = m := (c.managed_hears m).manager

theorem manage_effects (c : Http2Connection) (op : ManagerOp) : c.effects <+: (c.manage op).effects :=
  (c.managed_hears (c.manager.step op)).effects

theorem managed_of_dispatch {c : Http2Connection} {frame : Frame} {m : Manager} {thrown : Option JsError}
    (h : c.manager.dispatch frame = (m, thrown)) : c.managed m = c.manage (.dispatch frame) := by
  show c.managed m = c.managed (c.manager.dispatch frame).1
  rw [h]

theorem managed_of_effects_eq (c : Http2Connection) {m : Manager} (h : m.effects = c.manager.effects) :
    c.managed m = { c with manager := m } := by
  rw [managed, h, List.drop_length, List.foldl_nil]

/-! ### Where a request and a frame lead -/

/-- The executor of a request rejects it in a closing connection. Otherwise it registers the callbacks, and then
rejects or sends the HEADERS and the body. -/
theorem executeRequest_cases (c : Http2Connection) (streamId : StreamId) (call : RequestCall) :
    ((c.closing || c.closed) = true ∧ c.executeRequest streamId call =
        { c with activeClientStreams := c.activeClientStreams.delete streamId }.releaseSlot.perform (.reject call.promise c.closingError)) ∨
      (c.closing || c.closed) = false ∧
        ((∃ e, c.executeRequest streamId call =
            (c.manage (.expectResponse streamId call.promise call.promise)).perform (.reject call.promise e)) ∨
          ∃ frame, c.executeRequest streamId call =
              (c.manage (.expectResponse streamId call.promise call.promise)).sendFrame (.headers frame) ∨
            c.executeRequest streamId call =
              ((c.manage (.expectResponse streamId call.promise call.promise)).sendFrame (.headers frame)).manage
                (.sendData streamId (call.req.body.getD []) true)) := by
  rw [executeRequest]
  dsimp only
  split
  · rename_i hclosing
    refine .inl ⟨hclosing, ?_⟩
    rw [releaseSlot]
    split <;> rfl
  · rename_i hopen
    refine .inr ⟨Bool.not_eq_true _ |>.mp hopen, ?_⟩
    rw [sendHeaders]
    cases encodeHeaders (buildRequestHeaders (c.manage (.expectResponse streamId call.promise call.promise)).options call.req) _ with
    | error e => exact .inl ⟨.hpack e, rfl⟩
    | ok payload =>
        refine .inr ⟨requestHeadersFrame streamId (call.req.body.all (·.length = 0)) payload, ?_⟩
        dsimp only
        split
        · exact .inl rfl
        · exact .inr rfl

/-- What holds once a request is turned away or its response expected, and is kept by whatever the executor then
sends, rejects and hands in, holds after the executor. -/
theorem executeRequest_induction {motive : Http2Connection → Prop} (c : Http2Connection) (streamId : StreamId) (call : RequestCall)
    (hturned : (c.closing || c.closed) = true →
      motive { c with activeClientStreams := c.activeClientStreams.delete streamId }.releaseSlot)
    (hexpected : (c.closing || c.closed) = false → motive (c.manage (.expectResponse streamId call.promise call.promise)))
    (hperform : ∀ c' effect, effect ≠ .closeTransport → motive c' → motive (c'.perform effect))
    (hmanage : ∀ c' data, motive c' → motive (c'.manage (.sendData streamId data true))) :
    motive (c.executeRequest streamId call) := by
  rcases c.executeRequest_cases streamId call with ⟨hclosing, hsame⟩ | ⟨hopen, ⟨e, hsame⟩ | ⟨frame, hsame | hsame⟩⟩
  all_goals rw [hsame]
  · exact hperform _ _ (by simp) (hturned hclosing)
  · exact hperform _ _ (by simp) (hexpected hopen)
  · exact hperform _ _ (by simp) (hexpected hopen)
  · have hsent := hperform _ (.sendFrame (.headers frame)) (by simp) (hexpected hopen)
    exact hmanage _ _ hsent

/-- A frame that is received goes to the manager, and the connection reads on or is torn down. -/
theorem receiveFrame_cases (c : Http2Connection) (frame : Frame) :
    (c.reading = false ∧ c.receiveFrame frame = c) ∨
      c.reading = true ∧ ((∃ reading, c.receiveFrame frame = { c.manage (.dispatch frame) with reading }) ∨
        ∃ e, (c.manager.dispatch frame).2 = some e ∧
          c.receiveFrame frame = { (c.manage (.dispatch frame)).handleFatal e with reading := false }) := by
  rw [receiveFrame]
  split
  · rename_i hreading
    refine .inr ⟨hreading, ?_⟩
    split
    · rename_i m hdispatch
      rw [managed_of_dispatch hdispatch]
      exact .inl ⟨_, rfl⟩
    · rename_i m e hdispatch
      rw [managed_of_dispatch hdispatch, hdispatch]
      exact .inr ⟨e, rfl, rfl⟩
  · rename_i hreading
    exact .inl ⟨Bool.not_eq_true _ |>.mp hreading, rfl⟩

end Http2Connection

end BrowsercoreHttp2
