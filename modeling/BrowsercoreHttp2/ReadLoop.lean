import BrowsercoreHttp2.Library.Framing
import BrowsercoreHttp2.Stream.Manager

/-!
# The read loop

The loop takes frames off what `transport.read()` returns and dispatches them until a frame does not
parse, a dispatch throws, or no more comes. What `read()` returns in turn is a list of chunks.
-/

namespace BrowsercoreHttp2

/-- Read the next frame, first its header and then its payload, stashing the surplus in the read buffer.
Without enough chunks the read never returns. -/
def readOneFrame (readBuffer : Bytes) (chunks : List Bytes) : Option (Except JsError Frame × Bytes × List Bytes) :=
  match topUp frameHeaderLength readBuffer chunks with
  | none => none
  | some (headerBytes, chunks) =>
      match parseFrameHeader headerBytes with
      | .error e => some (.error e, readBuffer, chunks)
      | .ok header =>
          let total := frameHeaderLength + header.length
          match topUp total headerBytes chunks with
          | none => none
          | some (frameBytes, chunks) => some (parseFrame (frameBytes.take total), frameBytes.drop total, chunks)

/-! ### Frames as records -/

/-- The length of a frame, told by its header. -/
def frameTotal (buf : Bytes) : Nat :=
  frameHeaderLength + match parseFrameHeader buf with
    | .ok header => header.length
    | .error _ => 0

def frameFraming : Framing UInt8 where
  headerLength := frameHeaderLength
  total := frameTotal
  headerLength_pos := by decide
  headerLength_le_total _ := Nat.le_add_right _ _
  total_append buf rest h := by rw [frameTotal, parseFrameHeader_append rest h, frameTotal]

theorem readOneFrame_eq (readBuffer : Bytes) (chunks : List Bytes) :
    readOneFrame readBuffer chunks =
      (frameFraming.readRecord readBuffer chunks).map fun read => (parseFrame read.1, read.2.1, read.2.2) := by
  rw [readOneFrame, Framing.readRecord]
  rcases topUp_spec frameHeaderLength readBuffer chunks with ⟨hnone, -⟩ | ⟨extra, left, hsome, hheader, -⟩
  · rw [show topUp frameFraming.headerLength readBuffer chunks = none from hnone, hnone]
    rfl
  · obtain ⟨header, hparsed⟩ := parseFrameHeader_ok_iff.mpr hheader
    have htotal : frameFraming.total (readBuffer ++ extra) = frameHeaderLength + header.length := by
      show frameTotal _ = _
      rw [frameTotal, hparsed]
    rw [show topUp frameFraming.headerLength readBuffer chunks = _ from hsome, hsome]
    dsimp only
    rw [hparsed, htotal]
    dsimp only
    cases topUp (frameHeaderLength + header.length) (readBuffer ++ extra) left <;> rfl

theorem readOneFrame_next {readBuffer readBuffer' : Bytes} {chunks chunks' : List Bytes} {result : Except JsError Frame}
    (h : readOneFrame readBuffer chunks = some (result, readBuffer', chunks')) :
    ∃ record, frameFraming.next (readBuffer ++ chunks.flatten) = some (record, readBuffer' ++ chunks'.flatten) ∧
      result = parseFrame record := by
  rw [readOneFrame_eq] at h
  obtain ⟨⟨record, buffer, left⟩, hread, hresult⟩ := Option.map_eq_some_iff.mp h
  obtain ⟨rfl, rfl, rfl⟩ : parseFrame record = result ∧ buffer = readBuffer' ∧ left = chunks' := by simpa using hresult
  refine ⟨record, ?_, rfl⟩
  rw [← frameFraming.readRecord_eq_next, hread]
  rfl

theorem readOneFrame_none {readBuffer : Bytes} {chunks : List Bytes} (h : readOneFrame readBuffer chunks = none) :
    frameFraming.next (readBuffer ++ chunks.flatten) = none := by
  rw [readOneFrame_eq, Option.map_eq_none_iff] at h
  rw [← frameFraming.readRecord_eq_next, h]
  rfl

/-! ### The loop -/

/-- Why the loop is not going on. -/
inductive LoopEnding where
  | waiting
  | malformed (error : JsError)
  | dispatchThrew (error : JsError)
  deriving DecidableEq

structure LoopRun (σ : Type) where
  state : σ
  dispatched : List Frame
  ending : LoopEnding

/-- The loop over a dispatcher, which is `Manager.dispatch` in a connection. -/
def readLoop {σ : Type} (dispatch : σ → Frame → σ × Option JsError) (state : σ) (readBuffer : Bytes) (chunks : List Bytes) :
    LoopRun σ :=
  match _hread : readOneFrame readBuffer chunks with
  | none => ⟨state, [], .waiting⟩
  | some (.error e, _, _) => ⟨state, [], .malformed e⟩
  | some (.ok frame, readBuffer, chunks) =>
      match dispatch state frame with
      | (state, some e) => ⟨state, [frame], .dispatchThrew e⟩
      | (state, none) =>
          let rest := readLoop dispatch state readBuffer chunks
          { rest with dispatched := frame :: rest.dispatched }
termination_by (readBuffer ++ chunks.flatten).length
decreasing_by
  obtain ⟨record, hnext, -⟩ := readOneFrame_next _hread
  exact frameFraming.next_length hnext

/-- Parse and dispatch records one after the other, until one does not parse or its dispatch throws. -/
def dispatchRecords {σ : Type} (dispatch : σ → Frame → σ × Option JsError) (state : σ) : List Bytes → LoopRun σ
  | [] => ⟨state, [], .waiting⟩
  | record :: records =>
      match parseFrame record with
      | .error e => ⟨state, [], .malformed e⟩
      | .ok frame =>
          match dispatch state frame with
          | (state, some e) => ⟨state, [frame], .dispatchThrew e⟩
          | (state, none) =>
              let rest := dispatchRecords dispatch state records
              { rest with dispatched := frame :: rest.dispatched }

/-- The loop does to the frames of the stream what the stream says, whatever the chunks. -/
theorem readLoop_eq_dispatchRecords {σ : Type} (dispatch : σ → Frame → σ × Option JsError) (state : σ) (readBuffer : Bytes)
    (chunks : List Bytes) :
    readLoop dispatch state readBuffer chunks =
      dispatchRecords dispatch state (frameFraming.records (readBuffer ++ chunks.flatten)) := by
  fun_induction readLoop dispatch state readBuffer chunks with
  | case1 state readBuffer chunks hread =>
      rw [frameFraming.records_of_none (readOneFrame_none hread)]
      rfl
  | case2 state readBuffer chunks e _ _ hread =>
      obtain ⟨record, hnext, hparse⟩ := readOneFrame_next hread
      rw [frameFraming.records_of_some hnext, dispatchRecords, ← hparse]
  | case3 state readBuffer chunks frame readBuffer' chunks' hread state' e hdispatch =>
      obtain ⟨record, hnext, hparse⟩ := readOneFrame_next hread
      rw [frameFraming.records_of_some hnext, dispatchRecords, ← hparse]
      dsimp only
      rw [hdispatch]
  | case4 state readBuffer chunks frame readBuffer' chunks' hread state' hdispatch rest ih =>
      obtain ⟨record, hnext, hparse⟩ := readOneFrame_next hread
      rw [frameFraming.records_of_some hnext, dispatchRecords, ← hparse]
      dsimp only
      rw [hdispatch]
      dsimp only
      rw [← ih]

/-- Dispatch frames one after the other, until a dispatch throws. -/
def dispatchFrames {σ : Type} (dispatch : σ → Frame → σ × Option JsError) (state : σ) : List Frame → LoopRun σ
  | [] => ⟨state, [], .waiting⟩
  | frame :: frames =>
      match dispatch state frame with
      | (state, some e) => ⟨state, [frame], .dispatchThrew e⟩
      | (state, none) =>
          let rest := dispatchFrames dispatch state frames
          { rest with dispatched := frame :: rest.dispatched }

theorem dispatchRecords_of_parsed {σ : Type} (dispatch : σ → Frame → σ × Option JsError) (state : σ) {bufs : List Bytes}
    {frames : List Frame} (h : bufs.map parseFrame = frames.map .ok) :
    dispatchRecords dispatch state bufs = dispatchFrames dispatch state frames := by
  induction bufs generalizing state frames with
  | nil =>
      obtain rfl : frames = [] := List.map_eq_nil_iff.mp h.symm
      rfl
  | cons buf bufs ih =>
      cases frames with
      | nil => exact absurd h (List.cons_ne_nil _ _)
      | cons frame frames =>
          obtain ⟨hparse, hrest⟩ := List.cons.inj h
          rw [dispatchRecords, hparse, dispatchFrames]
          dsimp only
          cases hdispatch : dispatch state frame with
          | mk state' thrown =>
              cases thrown with
              | some e => rfl
              | none =>
                  dsimp only
                  rw [ih state' hrest]

theorem dispatchFrames_dispatched {σ : Type} (dispatch : σ → Frame → σ × Option JsError) (state : σ) {frames : List Frame}
    (h : ∀ frame ∈ frames, ∀ s, (dispatch s frame).2 = none) : (dispatchFrames dispatch state frames).dispatched = frames := by
  induction frames generalizing state with
  | nil => rfl
  | cons frame frames ih =>
      obtain ⟨hframe, hframes⟩ := List.forall_mem_cons.mp h
      rw [dispatchFrames]
      cases hdispatch : dispatch state frame with
      | mk state' thrown =>
          obtain rfl : thrown = none := by rw [← hframe state, hdispatch]
          exact congrArg (frame :: ·) (ih state' hframes)

/-- The octets of one frame: a header and as many octets as it says. -/
def CompleteFrame (buf : Bytes) : Prop :=
  ∃ header, parseFrameHeader buf = .ok header ∧ buf.length = frameHeaderLength + header.length

theorem CompleteFrame.isRecord {buf : Bytes} (h : CompleteFrame buf) : frameFraming.IsRecord buf := by
  obtain ⟨header, hparsed, hlen⟩ := h
  show buf.length = frameTotal buf
  rw [frameTotal, hparsed]
  exact hlen

/-- Two ways of cutting one stream into chunks make the loop do the same, up to and including how it ends.
If the stream is a concatenation of complete frames that parse, the loop dispatches just those, in order,
as long as no dispatch throws. -/
theorem readLoop_chunking {σ : Type} (dispatch : σ → Frame → σ × Option JsError) (state : σ) :
    (∀ chunks chunks' : List Bytes, chunks.flatten = chunks'.flatten →
      readLoop dispatch state [] chunks = readLoop dispatch state [] chunks') ∧
    ∀ (chunks bufs : List Bytes) (frames : List Frame), chunks.flatten = bufs.flatten → (∀ buf ∈ bufs, CompleteFrame buf) →
      bufs.map parseFrame = frames.map .ok →
      readLoop dispatch state [] chunks = dispatchFrames dispatch state frames ∧
        ((∀ frame ∈ frames, ∀ s, (dispatch s frame).2 = none) → (readLoop dispatch state [] chunks).dispatched = frames) := by
  refine ⟨fun chunks chunks' hsame => ?_, fun chunks bufs frames hstream hcomplete hparsed => ?_⟩
  · rw [readLoop_eq_dispatchRecords, readLoop_eq_dispatchRecords, hsame]
  · have hrun : readLoop dispatch state [] chunks = dispatchFrames dispatch state frames := by
      rw [readLoop_eq_dispatchRecords, List.nil_append, hstream,
        frameFraming.records_flatten fun buf hbuf => (hcomplete buf hbuf).isRecord]
      exact dispatchRecords_of_parsed dispatch state hparsed
    refine ⟨hrun, fun hquiet => ?_⟩
    rw [hrun]
    exact dispatchFrames_dispatched dispatch state hquiet

/-- A SETTINGS acknowledgement and a PING, cut inside both headers. -/
theorem readLoop_chunking_settings_ping :
    (readLoop Manager.dispatch .create []
      [[0, 0], [], [0, 4, 1, 0, 0, 0, 0, 0, 0, 8], [6, 0, 0, 0, 0, 0, 1, 2, 3], [4, 5, 6, 7, 8]]).dispatched =
      [.settings ⟨1, 0, true, .empty, none, false⟩, .ping ⟨0, 0, false, 0x0102030405060708⟩] := by
  refine ((readLoop_chunking Manager.dispatch .create).2
    [[0, 0], [], [0, 4, 1, 0, 0, 0, 0, 0, 0, 8], [6, 0, 0, 0, 0, 0, 1, 2, 3], [4, 5, 6, 7, 8]]
    [[0, 0, 0, 4, 1, 0, 0, 0, 0], [0, 0, 8, 6, 0, 0, 0, 0, 0, 1, 2, 3, 4, 5, 6, 7, 8]]
    [.settings ⟨1, 0, true, .empty, none, false⟩, .ping ⟨0, 0, false, 0x0102030405060708⟩] rfl ?_ rfl).2 ?_
  · exact List.forall_mem_cons.mpr ⟨⟨_, rfl, rfl⟩, List.forall_mem_singleton.mpr ⟨_, rfl, rfl⟩⟩
  · exact List.forall_mem_cons.mpr ⟨fun _ => rfl, List.forall_mem_singleton.mpr fun _ => rfl⟩

end BrowsercoreHttp2
