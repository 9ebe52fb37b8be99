import BrowsercoreHttp2.Connection.Wire
import BrowsercoreHttp2.FrameRanges
import BrowsercoreHttp2.Stream.Holdings

/-!
# What a peer can make a connection hold

The octets of the transport pay for all that the connection keeps and delivers on behalf of its peer: those that wait for the
rest of their frame for themselves, those of a header for the frame, and those of a payload for what they become.
-/

namespace BrowsercoreHttp2

/-- A frame carries no more than its octets, less those of the header. -/
theorem parseFrame_carried {buf : Bytes} {frame : Frame} (h : parseFrame buf = .ok frame) :
    frameHeaderLength + frame.carried ≤ buf.length := by
  obtain ⟨header, -, hcomplete, hdecodes⟩ := parseFrame_decodes h
  have hlength := payload_length hcomplete
  have hcarried : frame.carried ≤ header.length := by
    rw [← hlength]
    generalize (buf.drop frameHeaderLength).take header.length = payload at hdecodes
    generalize validateFrameType header.type = readType at hdecodes
    cases hdecodes with
    | unknown => exact Nat.le_refl _
    | data => exact Nat.le_refl _
    | headers => exact Nat.le_refl _
    | continuation => exact Nat.le_refl _
    | pushPromise n hread =>
        have hlong : 4 ≤ payload.length := by
          by_contra hshort
          exact absurd ((getUint_range (by omega)).symm.trans hread) (by simp)
        rw [Frame.carried, List.length_drop]
        omega
    | _ => exact Nat.zero_le _
  omega

theorem records_carried {records : List Bytes} {frames : List Frame} (h : records.map parseFrame = frames.map .ok) :
    9 * frames.length + (frames.map Frame.carried).sum ≤ records.flatten.length := by
  induction records generalizing frames with
  | nil =>
      obtain rfl := List.map_eq_nil_iff.mp h.symm
      exact Nat.le_refl 0
  | cons record records ih =>
      cases frames with
      | nil => exact absurd h (by simp)
      | cons frame frames =>
          rw [List.map_cons, List.map_cons] at h
          obtain ⟨hframe, hrest⟩ := List.cons.inj h
          have hrecord := parseFrame_carried hframe
          have hrecords := ih hrest
          rw [frameHeaderLength] at hrecord
          rw [List.flatten_cons, List.length_append, List.length_cons, List.map_cons, List.sum_cons]
          omega

namespace Http2Connection

theorem executorAsks_carried (c : Http2Connection) (streamId : StreamId) (call : RequestCall) :
    ((c.executorAsks streamId call).map ManagerOp.carried).sum = 0 := by
  apply List.sum_eq_zero
  intro carried hcarried
  obtain ⟨op, hop, rfl⟩ := List.mem_map.mp hcarried
  rcases executorAsks_cases hop with hexpects | hsends
  · rw [hexpects]
    rfl
  · rw [hsends]
    rfl

/-- What a step asks for carries what the frame does that the step has dispatched. -/
theorem asks_carried (c : Http2Connection) (s : ConnectionStep) :
    ((c.asks s).map ManagerOp.carried).sum = ((c.hears s).toList.map Frame.carried).sum := by
  cases s with
  | resume call =>
      simp only [asks, hears]
      split
      · rw [List.map_cons, List.sum_cons, executorAsks_carried]
        rfl
      · rfl
  | close =>
      simp only [asks]
      split <;> rfl
  | receiveFrame frame =>
      simp only [asks, hears]
      split
      · rw [List.map_cons, List.sum_cons]
        split
        · split <;> rfl
        · rfl
      · rfl
  | readError err =>
      simp only [asks]
      split <;> rfl
  | _ => rfl

theorem steps_paid {c : Http2Connection} {octets : Nat} (h : c.manager.Paid octets) (s : List ConnectionStep) :
    (c.steps s).manager.Paid (octets + ((c.heard s).map Frame.carried).sum) := by
  induction s generalizing c octets with
  | nil => exact h
  | cons a s ih =>
      have hstep := h.steps (c.asks a)
      rw [← step_manager, asks_carried] at hstep
      rw [heard, List.map_append, List.sum_append, ← Nat.add_assoc]
      exact ih hstep

end Http2Connection

theorem WireConnection.Reads.carried {w : WireConnection} {stream : Bytes} {records : List Bytes} {frames : List Frame}
    (h : w.Reads stream records frames) :
    w.readBuffer.length + 9 * frames.length + (frames.map Frame.carried).sum ≤ stream.length := by
  have hrecords : 9 * frames.length + (frames.map Frame.carried).sum ≤ records.flatten.length := by
    rcases h.parsed with hparsed | ⟨-, e, hparsed⟩
    · exact records_carried hparsed
    · obtain ⟨before, last, rfl, hbefore, -⟩ := List.map_eq_append_iff.mp hparsed
      have hframes := records_carried hbefore
      rw [List.flatten_append, List.length_append]
      omega
  rw [← h.cuts.stream, List.length_append]
  omega

open WireConnection in
/-- In every run over a transport, whatever it carries: the octets that wait for the rest of their frame, nine for each frame
that has been dispatched, what the manager holds for its peer and what it has delivered in responses are no more than the
octets that have been read. No name and no value among it is longer than those octets can spell, or than 27 characters. -/
theorem footprint_within_octets (options : Http2Options) (s : List WireStep) :
    let w := WireConnection.run options s
    let octets := ((start options).taken s).length
    w.readBuffer.length + 9 * (Http2Connection.heard { options } ((start options).performed s)).length + w.connection.manager.held +
        (w.connection.manager.delivered.map Http2Response.size).sum ≤ octets ∧
      (∀ st ∈ w.connection.manager.streams.entries, HeaderMap.Within octets st.responseHeaders) ∧
      ∀ response ∈ w.connection.manager.delivered, HeaderMap.Within octets response.headers := by
  intro w octets
  let c : Http2Connection := { options }
  let frames := c.heard ((start options).performed s)
  have hpaid : w.connection.manager.Paid (0 + (frames.map Frame.carried).sum) := by
    have hconnection : w.connection = c.steps ((start options).performed s) := (start options).steps_connection s
    have hstart : c.manager.Paid 0 := Manager.create_paid
    rw [hconnection]
    exact Http2Connection.steps_paid hstart _
  obtain ⟨records, hreads⟩ := (Reads.start options).steps s
  have hread : w.readBuffer.length + 9 * frames.length + (frames.map Frame.carried).sum ≤ octets := hreads.carried
  have hpaid' : w.connection.manager.Paid octets := hpaid.mono (by omega)
  have hbalance := hpaid.balance
  refine ⟨?_, hpaid'.streams, hpaid'.delivered⟩
  show w.readBuffer.length + 9 * frames.length + _ + _ ≤ octets
  omega

end BrowsercoreHttp2
