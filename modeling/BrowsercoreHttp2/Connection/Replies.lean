import BrowsercoreHttp2.Connection.RequestFrames

/-!
# Acknowledgements

SETTINGS and PING frames want an acknowledgement each, in the order in which they arrive. The read loop has
them answered as it dispatches them, also while the connection is closing, and nothing else acknowledges.
-/

namespace BrowsercoreHttp2

/-- A frame that acknowledges another. -/
def Frame.acknowledges : Frame → Bool
  | .settings frame => frame.ack
  | .ping frame => frame.ack
  | _ => false

/-- The acknowledgement a frame wants. -/
def Frame.acknowledgement : Frame → Option Frame
  | .settings frame => if frame.ack then none else some settingsAckFrame
  | .ping frame => if frame.ack then none else some (pingAckFrame frame.opaqueData)
  | _ => none

namespace Manager

theorem creditFrames_acknowledges (m : Manager) (frame : DataFrame) : (m.creditFrames frame).filter Frame.acknowledges = [] := by
  rw [creditFrames]
  split
  · rfl
  · split <;> rfl

theorem answers_acknowledges (m : Manager) (frame : Frame) :
    (m.answers frame).filter Frame.acknowledges = frame.acknowledgement.toList := by
  cases frame with
  | data frame => exact m.creditFrames_acknowledges frame
  | settings frame =>
      simp only [answers, Frame.acknowledgement]
      split <;> rfl
  | ping frame =>
      simp only [answers, Frame.acknowledgement]
      split <;> rfl
  | _ => rfl

end Manager

namespace Http2Connection

/-- The frame a step has the read loop dispatch. -/
def hears (c : Http2Connection) : ConnectionStep → Option Frame
  | .receiveFrame frame => if c.reading then some frame else none
  | _ => none

/-- The frames the read loop dispatches in the course of some steps. -/
def heard (c : Http2Connection) : List ConnectionStep → List Frame
  | [] => []
  | s :: rest => (c.hears s).toList ++ (c.step s).heard rest

theorem heard_append (c : Http2Connection) (s s' : List ConnectionStep) : c.heard (s ++ s') = c.heard s ++ (c.steps s).heard s' := by
  induction s generalizing c with
  | nil => rfl
  | cons a s ih =>
      rw [List.cons_append, heard, heard, ih, List.append_assoc]
      rfl

theorem sends_acknowledges (c : Http2Connection) (s : ConnectionStep) : (c.sends s).filter Frame.acknowledges = [] := by
  cases s with
  | resume call =>
      simp only [sends, executorSends]
      split
      · split
        · rfl
        · split <;> rfl
      · rfl
  | close =>
      simp only [sends]
      split <;> rfl
  | ping promise data =>
      simp only [sends]
      split <;> rfl
  | _ => rfl

theorem answersTo_acknowledges (c : Http2Connection) (s : ConnectionStep) :
    (c.answersTo s).filter Frame.acknowledges = ((c.hears s).toList).filterMap Frame.acknowledgement := by
  cases s with
  | receiveFrame frame =>
      simp only [answersTo, hears]
      split
      · rw [Manager.answers_acknowledges, Option.toList_some, List.filterMap_cons, List.filterMap_nil]
        cases frame.acknowledgement <;> rfl
      · rfl
  | _ => rfl

theorem chunks_acknowledge (chunks : List (StreamId × Bytes × Bool)) :
    (chunks.map fun chunk => dataFrame chunk.1 chunk.2).filter Frame.acknowledges = [] := by
  refine List.filter_eq_nil_iff.mpr fun frame hframe => ?_
  obtain ⟨chunk, -, hchunk⟩ := List.mem_map.mp hframe
  rw [← hchunk]
  exact Bool.false_ne_true

end Http2Connection

open Http2Connection in
/-- Every SETTINGS frame and every PING that is dispatched and is no acknowledgement itself is acknowledged once, the
PING with its data, in the order of their arrival, and no other acknowledgement is sent. -/
theorem acknowledgements_exact (options : Http2Options) (s : List ConnectionStep) :
    (run options s).outbound.filter Frame.acknowledges =
      (heard { options } s).filterMap Frame.acknowledgement := by
  induction s using List.reverseRecOn with
  | nil => rfl
  | append_singleton s a ih =>
      obtain ⟨chunks, -, hemits⟩ := (run options s).step_sends a
      have hheard : heard { options } (s ++ [a]) = heard { options } s ++ ((run options s).hears a).toList := by
        rw [heard_append, heard, heard, List.append_nil]
        rfl
      rw [run_concat, hemits.outbound, hheard, List.filterMap_append, List.filter_append, List.filter_append, List.filter_append,
        sends_acknowledges, chunks_acknowledge, answersTo_acknowledges, List.append_nil, List.nil_append, ih]

/-- Two PINGs and a SETTINGS frame, with an acknowledgement between them. -/
example : (Http2Connection.run {} [.receiveFrame (.ping ⟨0, 0, false, 7⟩), .receiveFrame (.settings ⟨1, 0, true, .empty, none, false⟩),
    .receiveFrame (.settings ⟨0, 0, false, .empty, none, false⟩), .receiveFrame (.ping ⟨0, 0, false, 8⟩)]).outbound =
    [pingAckFrame 7, settingsAckFrame, pingAckFrame 8] := by decide +kernel

end BrowsercoreHttp2
