import BrowsercoreHttp2.ReadLoop
import BrowsercoreHttp2.Connection.Replies
import BrowsercoreHttp2.Connection.SettingsAcks

/-!
# The transport underneath

The read loop takes octets off the transport in chunks of any length and hands on a frame once all of it is there. Calls and
timers run while it waits, between two chunks of a frame as well as between two frames that came in one chunk. What the
connection does is what it does in a run in which whole frames arrive, and those are the frames of the octets, in order.
-/

namespace BrowsercoreHttp2

/-- A step in which the read loop has no part. -/
def ConnectionStep.isOwn : ConnectionStep → Bool
  | .receiveFrame _ | .readError _ => false
  | _ => true

abbrev OwnStep := { s : ConnectionStep // s.isOwn = true }

structure WireConnection where
  connection : Http2Connection
  /-- What `transport.read()` returned and has not been part of a frame. -/
  readBuffer : Bytes := []

inductive WireStep where
  | own (s : OwnStep)
  /-- `transport.read()` returns. -/
  | read (chunk : Bytes)
  /-- `transport.read()` rejects. -/
  | readRejected (err : JsError)
  /-- `readOneFrame` returns or throws, and the loop goes on. -/
  | proceed

namespace WireConnection

/-- The loop is in `transport.read()`. -/
def waiting (w : WireConnection) : Bool := w.connection.reading && (readOneFrame w.readBuffer []).isNone

/-- What the loop does with the octets it has: what it makes of the next frame, and what it keeps of the octets. -/
def proceeds (w : WireConnection) : Option (ConnectionStep × Bytes) :=
  if w.connection.reading then
    (readOneFrame w.readBuffer []).map fun read => match read with
      | (.ok frame, readBuffer, _) => (.receiveFrame frame, readBuffer)
      | (.error e, readBuffer, _) => (.readError e, readBuffer)
  else none

def step (w : WireConnection) : WireStep → WireConnection
  | .own s => { w with connection := w.connection.step s }
  | .read chunk => if w.waiting then { w with readBuffer := w.readBuffer ++ chunk } else w
  | .readRejected err => if w.waiting then { w with connection := w.connection.readError err } else w
  | .proceed =>
      match w.proceeds with
      | some (s, readBuffer) => ⟨w.connection.step s, readBuffer⟩
      | none => w

def steps (w : WireConnection) (s : List WireStep) : WireConnection := s.foldl step w

/-- The loop has been started and nothing has been read. -/
def start (options : Http2Options) : WireConnection := ⟨{ options }, []⟩

def run (options : Http2Options) (s : List WireStep) : WireConnection := (start options).steps s

/-! ### What a run is to the connection -/

/-- The octets a step takes off the transport. -/
def takes (w : WireConnection) : WireStep → Bytes
  | .read chunk => if w.waiting then chunk else []
  | _ => []

/-- What a step is to the connection. -/
def performs (w : WireConnection) : WireStep → List ConnectionStep
  | .own s => [s]
  | .read _ => []
  | .readRejected err => if w.waiting then [.readError err] else []
  | .proceed => (w.proceeds.map Prod.fst).toList

def taken (w : WireConnection) : List WireStep → Bytes
  | [] => []
  | s :: rest => w.takes s ++ (w.step s).taken rest

def performed (w : WireConnection) : List WireStep → List ConnectionStep
  | [] => []
  | s :: rest => w.performs s ++ (w.step s).performed rest

variable {w : WireConnection} {stream : Bytes} {records : List Bytes} {frames : List Frame}

/-! ### Reading -/

/-- The loop has cut records off the stream and dispatched their frames. If it has stopped, the last record may be one that
does not parse. -/
structure Reads (w : WireConnection) (stream : Bytes) (records : List Bytes) (frames : List Frame) : Prop where
  cuts : frameFraming.Cuts stream records w.readBuffer
  parsed : records.map parseFrame = frames.map .ok ∨
    w.connection.reading = false ∧ ∃ e, records.map parseFrame = frames.map .ok ++ [.error e]

theorem Reads.start (options : Http2Options) : (start options).Reads [] [] [] := ⟨.start, .inl rfl⟩

theorem Reads.arrive (h : w.Reads stream records frames) {c : Http2Connection} (hreading : c.reading = true → w.connection.reading = true)
    (chunk : Bytes) : Reads ⟨c, w.readBuffer ++ chunk⟩ (stream ++ chunk) records frames where
  cuts := h.cuts.arrive chunk
  parsed := by
    refine h.parsed.imp_right fun hstopped => ⟨?_, hstopped.2⟩
    exact Bool.eq_false_iff.mpr fun hreads => Bool.eq_false_iff.mp hstopped.1 (hreading hreads)

theorem Reads.quiet (h : w.Reads stream records frames) {c : Http2Connection} (hreading : c.reading = true → w.connection.reading = true) :
    Reads ⟨c, w.readBuffer⟩ stream records frames := by
  have harrived := h.arrive hreading []
  rwa [List.append_nil, List.append_nil] at harrived

theorem Reads.all_parsed (h : w.Reads stream records frames) (hreading : w.connection.reading = true) :
    records.map parseFrame = frames.map .ok :=
  h.parsed.resolve_right fun hstopped => absurd hreading (Bool.eq_false_iff.mp hstopped.1)

theorem step_reading (c : Http2Connection) (s : ConnectionStep) (h : (c.step s).reading = true) : c.reading = true :=
  (c.step_ackMoves s).reading h

theorem readError_stops (c : Http2Connection) (err : JsError) : (c.step (.readError err)).reading = false := by
  simp only [Http2Connection.step, Http2Connection.readError]
  split
  · rfl
  · rename_i hstopped
    exact Bool.eq_false_iff.mpr hstopped

theorem hears_own (c : Http2Connection) (s : OwnStep) : c.hears s = none := by
  obtain ⟨s, hown⟩ := s
  cases s with
  | receiveFrame frame => exact absurd hown Bool.false_ne_true
  | _ => rfl

theorem heard_one (c : Http2Connection) (s : ConnectionStep) : c.heard [s] = (c.hears s).toList := List.append_nil _

/-! ### Steps -/

/-- The loop waits until the octets it has make up a record. -/
theorem readOneFrame_buffered (readBuffer : Bytes) :
    readOneFrame readBuffer [] = (frameFraming.next readBuffer).map fun cut => (parseFrame cut.1, cut.2, []) := by
  rw [readOneFrame_eq, frameFraming.readRecord_nil, Option.map_map]
  rfl

/-- What the loop does next is to dispatch the frame of a record, or to stop because the record has none. -/
theorem proceeds_cases {s : ConnectionStep} {readBuffer : Bytes} (h : w.proceeds = some (s, readBuffer)) :
    w.connection.reading = true ∧ ∃ record, frameFraming.next w.readBuffer = some (record, readBuffer) ∧
      ((∃ frame, parseFrame record = .ok frame ∧ s = .receiveFrame frame) ∨ ∃ e, parseFrame record = .error e ∧ s = .readError e) := by
  rw [proceeds] at h
  split at h
  · rename_i hreading
    rw [readOneFrame_buffered, Option.map_map] at h
    obtain ⟨cut, hnext, hs⟩ := Option.map_eq_some_iff.mp h
    obtain ⟨record, rest⟩ := cut
    refine ⟨hreading, record, ?_⟩
    dsimp only [Function.comp_apply] at hs
    cases hparse : parseFrame record with
    | ok frame =>
        rw [hparse] at hs
        obtain ⟨hstep, hrest⟩ := Prod.mk.inj hs
        exact ⟨hrest ▸ hnext, .inl ⟨frame, rfl, hstep.symm⟩⟩
    | error e =>
        rw [hparse] at hs
        obtain ⟨hstep, hrest⟩ := Prod.mk.inj hs
        exact ⟨hrest ▸ hnext, .inr ⟨e, rfl, hstep.symm⟩⟩
  · exact absurd h (Option.some_ne_none _).symm

theorem step_connection (w : WireConnection) (s : WireStep) : (w.step s).connection = w.connection.steps (w.performs s) := by
  cases s with
  | own s => rfl
  | read chunk =>
      rw [step]
      split <;> rfl
  | readRejected err =>
      rw [step, performs]
      split <;> rfl
  | proceed =>
      rw [step, performs]
      cases w.proceeds <;> rfl

/-- A step leaves the records that were cut off and their frames, and may add one. -/
theorem Reads.step (h : w.Reads stream records frames) (s : WireStep) :
    ∃ new, (w.step s).Reads (stream ++ w.takes s) (records ++ new) (frames ++ w.connection.heard (w.performs s)) := by
  cases s with
  | own s =>
      have htakes : w.takes (.own s) = [] := rfl
      refine ⟨[], ?_⟩
      rw [htakes, performs, heard_one, hears_own, Option.toList_none, List.append_nil, List.append_nil, List.append_nil]
      exact h.quiet (step_reading _ _)
  | read chunk =>
      refine ⟨[], ?_⟩
      rw [WireConnection.step, takes, performs, Http2Connection.heard, List.append_nil, List.append_nil]
      split
      · exact h.arrive id chunk
      · rwa [List.append_nil]
  | readRejected err =>
      have htakes : w.takes (.readRejected err) = [] := rfl
      have hhears : w.connection.hears (.readError err) = none := rfl
      refine ⟨[], ?_⟩
      rw [WireConnection.step, htakes, performs, List.append_nil, List.append_nil]
      split
      · rw [heard_one, hhears, Option.toList_none, List.append_nil]
        exact h.quiet (step_reading w.connection (.readError err))
      · rwa [Http2Connection.heard, List.append_nil]
  | proceed =>
      have htakes : w.takes .proceed = [] := rfl
      rw [WireConnection.step, htakes, performs, List.append_nil]
      cases hproceeds : w.proceeds with
      | none => exact ⟨[], by rwa [Option.map_none, Option.toList_none, Http2Connection.heard, List.append_nil, List.append_nil]⟩
      | some next =>
          obtain ⟨s, readBuffer⟩ := next
          obtain ⟨hreading, record, hnext, hrecord⟩ := proceeds_cases hproceeds
          have hparsed := h.all_parsed hreading
          refine ⟨[record], h.cuts.take hnext, ?_⟩
          rw [Option.map_some, Option.toList_some, heard_one, List.map_append, hparsed, List.map_append]
          rcases hrecord with ⟨frame, hframe, hs⟩ | ⟨e, herror, hs⟩
          · refine .inl ?_
            rw [hs, Http2Connection.hears, if_pos hreading, List.map_singleton, hframe]
            rfl
          · refine .inr ⟨?_, e, ?_⟩
            · rw [hs]
              exact readError_stops _ _
            · have hhears : w.connection.hears (.readError e) = none := rfl
              rw [hs, hhears, Option.toList_none, List.map_nil, List.append_nil, List.map_singleton, herror]

/-! ### Runs -/

theorem steps_connection (w : WireConnection) (s : List WireStep) : (w.steps s).connection = w.connection.steps (w.performed s) := by
  induction s generalizing w with
  | nil => rfl
  | cons a s ih =>
      have hfirst := w.step_connection a
      rw [performed, Http2Connection.steps, List.foldl_append]
      show ((w.step a).steps s).connection = _
      rw [ih, hfirst]
      rfl

theorem Reads.steps (h : w.Reads stream records frames) (s : List WireStep) :
    ∃ new, (w.steps s).Reads (stream ++ w.taken s) (records ++ new) (frames ++ w.connection.heard (w.performed s)) := by
  induction s generalizing w stream records frames with
  | nil => exact ⟨[], by rwa [taken, performed, Http2Connection.heard, List.append_nil, List.append_nil, List.append_nil]⟩
  | cons a s ih =>
      obtain ⟨first, hfirst⟩ := h.step a
      obtain ⟨rest, hrest⟩ := ih hfirst
      refine ⟨first ++ rest, ?_⟩
      rw [taken, performed, Http2Connection.heard_append, ← step_connection, ← List.append_assoc, ← List.append_assoc, ← List.append_assoc]
      exact hrest

theorem completeFrame_of_isRecord {record : Bytes} (h : frameFraming.IsRecord record) : CompleteFrame record := by
  have hlength : record.length = frameTotal record := h
  have hheader : frameHeaderLength ≤ record.length := hlength ▸ frameFraming.headerLength_le_total record
  obtain ⟨header, hheader⟩ := parseFrameHeader_ok_iff.mpr hheader
  rw [frameTotal, hheader] at hlength
  exact ⟨header, hheader, hlength⟩

theorem Reads.all_cut (h : w.Reads stream records frames) (hwaiting : w.waiting = true) : frameFraming.records stream = records := by
  have hnone := Option.isNone_iff_eq_none.mp (Bool.and_eq_true_iff.mp hwaiting).2
  rw [readOneFrame_buffered, Option.map_eq_none_iff] at hnone
  rw [h.cuts.records_eq, frameFraming.records_of_none hnone, List.append_nil]

end WireConnection

open WireConnection in
/-- However the octets come in chunks and whatever else runs in between, the connection is the one of a run in which whole
frames arrive. The frames that it has dispatched are those of the first complete records of the octets, each once and in
order; nothing of the octets is lost, and when the loop waits for more there is no complete record left. -/
theorem wire_refines_frames (options : Http2Options) (s : List WireStep) :
    (WireConnection.run options s).connection = Http2Connection.run options ((start options).performed s) ∧
      ∃ records, (∀ record ∈ records, CompleteFrame record) ∧
        records.flatten ++ (WireConnection.run options s).readBuffer = (start options).taken s ∧
        (records.map parseFrame = (Http2Connection.heard { options } ((start options).performed s)).map .ok ∨
          (WireConnection.run options s).connection.reading = false ∧ ∃ e, records.map parseFrame =
            (Http2Connection.heard { options } ((start options).performed s)).map .ok ++ [.error e]) ∧
        records <+: frameFraming.records ((start options).taken s) ∧
        ((WireConnection.run options s).waiting = true → frameFraming.records ((start options).taken s) = records) := by
  obtain ⟨records, hreads⟩ := (Reads.start options).steps s
  refine ⟨(start options).steps_connection s, records, fun record hmem => ?_, hreads.cuts.stream, hreads.parsed, ?_, hreads.all_cut⟩
  · exact completeFrame_of_isRecord (hreads.cuts.records record hmem)
  · exact ⟨_, hreads.cuts.records_eq.symm⟩

end BrowsercoreHttp2
