import BrowsercoreHttp2.Stream.Departures

/-!
# Selective GOAWAY

A GOAWAY names the last stream the server will serve. `handleGoaway` rejects every stream above it, a
pushed stream as well as a request, while the number speaks of requests alone.
-/

namespace BrowsercoreHttp2

namespace Manager

/-- From one manager to the next some streams are rejected with an error, in table order after an event. The
others stay in the table as they are, and nothing they depend on moves. -/
structure RejectsExactly (doomed : ManagedStream → Prop) [DecidablePred doomed] (event : Event) (err : JsError)
    (m m' : Manager) : Prop where
  kept : m'.streams.entries = m.streams.entries.filter fun st => ¬doomed st
  effects : m'.effects = m.effects ++ .emitEvent event :: (m.streams.entries.filter fun st => doomed st).flatMap (rejection err)
  limits : SameLimits m m'
  pushes : m'.pendingPushContinuation = m.pendingPushContinuation

/-- The client-initiated streams above the last one a GOAWAY names. -/
def Unserved (frame : GoawayFrame) (st : ManagedStream) : Prop := frame.lastStreamId < st.id ∧ st.id % 2 = 1

instance (frame : GoawayFrame) : DecidablePred (Unserved frame) := fun st =>
  inferInstanceAs (Decidable (frame.lastStreamId < st.id ∧ st.id % 2 = 1))

/-- The rejections a GOAWAY is for. -/
def GoawaySelective (frame : GoawayFrame) : Manager → Manager → Prop :=
  RejectsExactly (Unserved frame) (.goaway frame.lastStreamId frame.errorCode frame.debugData)
    (.http2 (.goawayReceived frame.lastStreamId frame.errorCode frame.debugData))

/-- Dispatching a GOAWAY rejects the requests above its last stream and keeps everything else exactly when no
server stream above that one is in the table. -/
theorem goaway_selective_iff (ops : List ManagerOp) (frame : GoawayFrame) :
    GoawaySelective frame (run ops) ((run ops).dispatch (.goaway frame)).1 ↔
      ∀ st ∈ (run ops).streams.entries, frame.lastStreamId < st.id → st.id % 2 = 1 := by
  generalize run ops = m
  have hevolves := handleGoaway_evolves m frame
  obtain ⟨hkept, heffects⟩ := handleGoaway_rejects m frame
  constructor
  · intro hselective st hst hlt
    by_contra hodd
    have hmem : st ∈ (m.handleGoaway frame).streams.entries := by
      rw [show (m.handleGoaway frame).streams.entries = _ from hselective.kept]
      exact List.mem_filter.mpr ⟨hst, decide_eq_true fun h => hodd h.2⟩
    rw [hkept] at hmem
    exact absurd hlt (of_decide_eq_true (List.mem_filter.mp hmem).2)
  · intro hclient
    have hsame : ∀ st ∈ m.streams.entries, (frame.lastStreamId < st.id ↔ Unserved frame st) := fun st hst =>
      ⟨fun hlt => ⟨hlt, hclient st hst hlt⟩, fun h => h.1⟩
    refine ⟨?_, ?_, hevolves.limits (by decide), hevolves.pushes (by decide)⟩
    · exact hkept.trans (List.filter_congr fun st hst => decide_eq_decide.mpr (not_congr (hsame st hst)))
    · refine heffects.trans ?_
      rw [List.filter_congr fun st hst => decide_eq_decide.mpr (hsame st hst)]

/-- A pushed stream is rejected by a GOAWAY for the request that it was promised on. -/
theorem goaway_rejects_push :
    ((run [.openStream, .dispatch (.pushPromise ⟨0x4, 1, true, false, 2, []⟩)]).streams.get 2).isSome ∧
      .emitEvent (.streamClosed 2) ∈
        ((run [.openStream, .dispatch (.pushPromise ⟨0x4, 1, true, false, 2, []⟩)]).dispatch (.goaway ⟨0, 0, 1, 0, []⟩)).1.effects ∧
      ¬ GoawaySelective ⟨0, 0, 1, 0, []⟩ (run [.openStream, .dispatch (.pushPromise ⟨0x4, 1, true, false, 2, []⟩)])
        ((run [.openStream, .dispatch (.pushPromise ⟨0x4, 1, true, false, 2, []⟩)]).dispatch (.goaway ⟨0, 0, 1, 0, []⟩)).1 := by
  refine ⟨by decide +kernel, by decide +kernel, fun hselective => ?_⟩
  exact absurd hselective.kept (by decide +kernel)

end Manager

end BrowsercoreHttp2
