import BrowsercoreHttp2.Connection.Steps
import BrowsercoreHttp2.Stream.Departures

/-!
# What bookkeeping keeps

Most of what a connection does goes on in its manager and in the lists of calls and streams. A view of the
connection that does not look at these, and at what is recorded of them, is kept by it.
-/

namespace BrowsercoreHttp2

namespace Http2Connection

variable {β : Type} {view : Http2Connection → β} {hidden : ConnectionEffect → Prop} {c c' c'' : Http2Connection}

/-- The view does not see the manager, the calls, the active streams, whether the connection closes and the log. -/
def Overlooks (view : Http2Connection → β) : Prop :=
  ∀ (c : Http2Connection) manager closing closed receivedGoaway activeClientStreams slotWaiters woken granted effects,
    view { c with manager, closing, closed, receivedGoaway, activeClientStreams, slotWaiters, woken, granted, effects } = view c

/-- The view is kept, and the new effects are all hidden ones. -/
structure Keeps (view : Http2Connection → β) (hidden : ConnectionEffect → Prop) (c c' : Http2Connection) : Prop where
  view : view c' = view c
  effects : ∃ new, c'.effects = c.effects ++ new ∧ ∀ effect ∈ new, hidden effect

namespace Keeps

theorem same (hsame : view c' = view c) (heffects : c'.effects = c.effects) : Keeps view hidden c c' :=
  ⟨hsame, [], heffects.trans (List.append_nil _).symm, fun _ hmem => absurd hmem List.not_mem_nil⟩

theorem refl (c : Http2Connection) : Keeps view hidden c c := same rfl rfl

theorem trans (h : Keeps view hidden c c') (h' : Keeps view hidden c' c'') : Keeps view hidden c c'' := by
  obtain ⟨new, heffects, hnew⟩ := h.effects
  obtain ⟨new', heffects', hnew'⟩ := h'.effects
  refine ⟨h'.view.trans h.view, new ++ new', by rw [heffects', heffects, List.append_assoc], ?_⟩
  exact fun effect hmem => (List.mem_append.mp hmem).elim (hnew effect) (hnew' effect)

theorem perform (hview : Overlooks view) (c : Http2Connection) {effect : ConnectionEffect} (heffect : hidden effect) :
    Keeps view hidden c (c.perform effect) := by
  refine ⟨hview c _ _ _ _ _ _ _ _ _, [effect], rfl, fun other hmem => ?_⟩
  rw [List.mem_singleton.mp hmem]
  exact heffect

/-! ### Slots -/

theorem releaseSlot (hview : Overlooks view) (c : Http2Connection) : Keeps view hidden c c.releaseSlot := by
  rw [Http2Connection.releaseSlot]
  split
  · exact refl c
  · exact same (hview c _ _ _ _ _ _ _ _ _) rfl

theorem deactivate (hview : Overlooks view) (c : Http2Connection) (streamId : StreamId) :
    Keeps view hidden c { c with activeClientStreams := c.activeClientStreams.delete streamId }.releaseSlot := by
  have hdeleted : Keeps view hidden c { c with activeClientStreams := c.activeClientStreams.delete streamId } :=
    same (hview c _ _ _ _ _ _ _ _ _) rfl
  exact hdeleted.trans (releaseSlot hview _)

theorem acquireSlot (hview : Overlooks view) (c : Http2Connection) (call : RequestCall) :
    Keeps view hidden c (c.acquireSlot call) := by
  rw [Http2Connection.acquireSlot]
  split <;> exact same (hview c _ _ _ _ _ _ _ _ _) rfl

/-! ### The manager -/

theorem onEvent (hview : Overlooks view) (c : Http2Connection) {event : Event} (hping : ∀ data, event ≠ .pingAck data)
    (hsettings : event ≠ .settingsAck) : Keeps view hidden c (c.onEvent event) := by
  cases event with
  | goaway lastStreamId errorCode debugData => exact same (hview c _ _ _ _ _ _ _ _ _) rfl
  | streamClosed streamId =>
      simp only [Http2Connection.onEvent, onStreamClosed]
      split
      · exact deactivate hview c streamId
      · exact refl c
  | pingAck data => exact absurd rfl (hping data)
  | settingsAck => exact absurd rfl hsettings
  | push streamId headers => exact refl c
  | pushResponse streamId response => exact refl c

/-- An operation of the manager, if the view is kept when the event is heard by which it announces itself. -/
theorem manage (hview : Overlooks view) (hmanager : ∀ effect, hidden (.manager effect)) (c : Http2Connection) {op : ManagerOp}
    (hop : ∀ event, op.announces = some event → ∀ c', Keeps view hidden c' (c'.onEvent event)) :
    Keeps view hidden c (c.manage op) := by
  have hstart : Keeps view hidden c { c with manager := c.manager.step op } := same (hview c _ _ _ _ _ _ _ _ _) rfl
  apply managed_induction c hstart
  intro c' effect hmem hbefore
  have hlogged : Keeps view hidden c (c'.perform (.manager effect)) := hbefore.trans (perform hview c' (hmanager effect))
  cases effect with
  | emitEvent event =>
      have hbesides := c.manager.newEffects_besides op _ hmem
      refine hlogged.trans ?_
      by_cases hannounced : op.announces = some event
      · exact hop event hannounced _
      · apply onEvent hview
        · rintro data rfl
          exact hbesides.elim (by simp [Effect.ending]) fun h => hannounced (of_decide_eq_true h)
        · rintro rfl
          exact hbesides.elim (by simp [Effect.ending]) fun h => hannounced (of_decide_eq_true h)
  | _ => exact hlogged

theorem manage_unannounced (hview : Overlooks view) (hmanager : ∀ effect, hidden (.manager effect)) (c : Http2Connection)
    {op : ManagerOp} (hop : op.announces = none) : Keeps view hidden c (c.manage op) :=
  manage hview hmanager c fun event hevent => absurd (hop.symm.trans hevent).symm (Option.some_ne_none event)

theorem executeRequest (hview : Overlooks view) (hmanager : ∀ effect, hidden (.manager effect)) (hframe : ∀ frame, hidden (.sendFrame frame))
    (c : Http2Connection) (streamId : StreamId) {call : RequestCall} (hreject : ∀ error, hidden (.reject call.promise error)) :
    Keeps view hidden c (c.executeRequest streamId call) := by
  have hexpected : Keeps view hidden c (c.manage (.expectResponse streamId call.promise call.promise)) :=
    manage_unannounced hview hmanager c rfl
  rcases c.executeRequest_cases streamId call with ⟨-, hturned⟩ | ⟨-, ⟨e, hfailed⟩ | ⟨frame, hsent | hbody⟩⟩
  · rw [hturned]
    exact (deactivate hview c streamId).trans (perform hview _ (hreject _))
  · rw [hfailed]
    exact hexpected.trans (perform hview _ (hreject e))
  · rw [hsent]
    exact hexpected.trans (perform hview _ (hframe _))
  · rw [hbody]
    exact (hexpected.trans (perform hview _ (hframe _))).trans (manage_unannounced hview hmanager _ rfl)

theorem resume (hview : Overlooks view) (hmanager : ∀ effect, hidden (.manager effect)) (hframe : ∀ frame, hidden (.sendFrame frame))
    (c : Http2Connection) {call : RequestCall} (hreject : ∀ error, hidden (.reject call.promise error)) :
    Keeps view hidden c (c.resume call) := by
  rw [Http2Connection.resume]
  split
  · rw [openRequestStream_eq]
    refine trans ?_ (executeRequest hview hmanager hframe _ _ hreject)
    exact same (hview c _ _ _ _ _ _ _ _ _) rfl
  · exact refl c

theorem tearDown (hview : Overlooks view) (hmanager : ∀ effect, hidden (.manager effect)) (c : Http2Connection) (err : JsError) :
    Keeps view hidden c (c.tearDown err) := by
  have haborted : Keeps view hidden c (c.manage (.abortAll err)) := manage_unannounced hview hmanager c rfl
  rw [Http2Connection.tearDown]
  generalize c.manage (.abortAll err) = aborted at haborted
  exact haborted.trans (same (hview aborted _ _ _ _ _ _ _ _ _) rfl)

end Keeps

end Http2Connection

end BrowsercoreHttp2
