import BrowsercoreHttp2.Stream.Changes

/-!
# Frames of unknown type

`decodeFrame` hands a frame of unknown type on under the DATA type, so the manager treats it as one: it
takes receive credit, sends window updates, buffers the payload as body and honours the END_STREAM bit.
Only a frame for a stream that is not in the table is ignored.
-/

namespace BrowsercoreHttp2

theorem decodeFrame_unknown {type : Nat} (flags : Nat) (streamId : StreamId) (payload : Bytes) (h : 0x9 < type) :
    decodeFrame type flags streamId payload = .ok (.data { flags, streamId, payload }) := by
  simp only [decodeFrame, validateFrameType_eq_none_iff.mpr h]

theorem parseFrame_complete {buf : Bytes} {header : FrameHeader} (hheader : parseFrameHeader buf = .ok header)
    (hcomplete : frameHeaderLength + header.length ≤ buf.length) :
    parseFrame buf =
      decodeFrame header.type header.flags header.streamId ((buf.drop frameHeaderLength).take header.length) := by
  have hlong : ¬ buf.length < frameHeaderLength + header.length := by omega
  simp only [parseFrame, hheader]
  exact if_neg hlong

namespace Manager

theorem perform_effects_length (m : Manager) (effect : Effect) :
    (m.perform effect).effects.length = m.effects.length + 1 := by
  simp [perform]

theorem handleData_unknown_stream {m : Manager} {frame : DataFrame} (h : m.streams.get frame.streamId = none) :
    m.handleData frame = m := by
  simp only [handleData, h]

/-- On a stream in the table a DATA frame always sends a window update. -/
theorem handleData_effects_length {m : Manager} (frame : DataFrame) {stream : ManagedStream}
    (h : m.streams.get frame.streamId = some stream) : m.effects.length < (m.handleData frame).effects.length := by
  have hupdates : ∀ m' : Manager, (m'.sendWindowUpdate 0 frame.payload.length).effects.length = m'.effects.length + 1 :=
    fun m' => perform_effects_length m' _
  simp only [handleData, h]
  split
  · refine lt_of_lt_of_le ?_ (maybeResolveResponse_effects_kept _ _).length_le
    split <;> simp [setStream, sendWindowUpdate, sendFrame, perform]
  · split <;> simp [setStream, sendWindowUpdate, sendFrame, perform]

end Manager

/-- In every manager state a complete frame of unknown type parses, and dispatching it leaves the manager
as it was exactly when no stream has the frame's id. -/
theorem unknownFrame_ignored_iff (m : Manager) (buf : Bytes) (header : FrameHeader)
    (hheader : parseFrameHeader buf = .ok header) (hcomplete : buf.length = frameHeaderLength + header.length)
    (hunknown : 0x9 < header.type) :
    ∃ frame, parseFrame buf = .ok frame ∧
      (m.dispatch frame = (m, none) ↔ m.streams.get header.streamId = none) := by
  refine ⟨_, (parseFrame_complete hheader hcomplete.ge).trans (decodeFrame_unknown _ _ _ hunknown), ?_⟩
  simp only [Manager.dispatch, Prod.mk.injEq, and_true]
  constructor
  · intro hsame
    cases hget : m.streams.get header.streamId with
    | none => rfl
    | some stream =>
        have hgrow := Manager.handleData_effects_length
          ⟨header.flags, header.streamId, (buf.drop frameHeaderLength).take header.length⟩ hget
        rw [hsame] at hgrow
        exact absurd hgrow (lt_irrefl _)
  · intro hget
    exact Manager.handleData_unknown_stream hget

/-- A frame of type 0xfa with one octet of payload. -/
def greaseFrameOn (streamId : UInt8) : Bytes := [0, 0, 1, 0xfa, 0, 0, 0, 0, streamId, 0x61]

def greaseFrame : Bytes := greaseFrameOn 1

/-- With stream 1 open, the frame is ignored on stream 3 and not on stream 1. -/
theorem unknownFrame_ignored_iff_grease :
    (∃ frame, parseFrame greaseFrame = .ok frame ∧
      (Manager.run [.openStream]).dispatch frame ≠ (Manager.run [.openStream], none)) ∧
    ∃ frame, parseFrame (greaseFrameOn 3) = .ok frame ∧
      (Manager.run [.openStream]).dispatch frame = (Manager.run [.openStream], none) := by
  constructor
  · obtain ⟨frame, hparse, hignored⟩ := unknownFrame_ignored_iff (Manager.run [.openStream]) greaseFrame ⟨0xfa, 0, 1, 1⟩ rfl rfl (by decide)
    exact ⟨frame, hparse, fun hsame => absurd (hignored.mp hsame) (by decide +kernel)⟩
  · obtain ⟨frame, hparse, hignored⟩ := unknownFrame_ignored_iff (Manager.run [.openStream]) (greaseFrameOn 3) ⟨0xfa, 0, 3, 1⟩ rfl rfl (by decide)
    exact ⟨frame, hparse, hignored.mpr (by decide +kernel)⟩

/-- After one `openStream` the frame's octet lands in the body of stream 1. -/
theorem greaseFrame_becomes_body :
    ∃ frame, parseFrame greaseFrame = .ok frame ∧
      (((Manager.run [.openStream]).dispatch frame).1.streams.get 1).map ManagedStream.responseChunks = some [[0x61]] ∧
      (Manager.run [.openStream]).dispatch frame ≠ (Manager.run [.openStream], none) :=
  ⟨.data ⟨0, 1, [0x61]⟩, rfl, by decide +kernel, by decide +kernel⟩

end BrowsercoreHttp2
