import BrowsercoreHttp2.CanonicalFrames
import BrowsercoreHttp2.FrameRanges
import BrowsercoreHttp2.Stream.Ranges
import BrowsercoreHttp2.Connection.Wire

/-!
# What is written

`connectHttp2` writes the preface string, a SETTINGS frame and what else the options ask for, and the connection writes its
frames after these. As long as the caller's numbers and octets fit their fields and `settingsOrder` names no setting twice, a
peer that takes off the string and reads frames gets what was sent, in order and nothing else.
-/

namespace BrowsercoreHttp2

/-! ### Reading back frames -/

/-- The settings that the other side gets: with a GREASE setting, unless the id has a value of its own. -/
def SettingsFrame.advertised (nibble : Nat) (frame : SettingsFrame) : SettingsMap :=
  if frame.grease ∧ frame.settings.get (generateHttp2GreaseValue nibble) = none then
    frame.settings.set (generateHttp2GreaseValue nibble) 0
  else frame.settings

/-- The frame that the other side reads. -/
def Frame.asRead (nibble : Nat) : Frame → Frame
  | .settings frame => .settings { frame with settings := frame.advertised nibble, settingsOrder := none, grease := false }
  | frame => frame

/-- The octets of a frame are those of one record, which parses to the frame. -/
structure Readable (nibble : Nat) (frame : Frame) : Prop where
  complete : CompleteFrame (serializeFrame nibble frame)
  parsed : parseFrame (serializeFrame nibble frame) = .ok (frame.asRead nibble)

theorem readable_of_decoded (nibble : Nat) {frame : Frame} (hflags : frame.flags < 2 ^ 8) (hstream : frame.streamId < 2 ^ 31)
    (hlength : (serializePayload nibble frame).length < 2 ^ 24)
    (hdecoded : decodeFrame frame.type.value frame.flags frame.streamId (serializePayload nibble frame) = .ok (frame.asRead nibble)) :
    Readable nibble frame := by
  have hoctets := serializeFrame_eq nibble hflags hstream hlength
  have hheader := parseFrameHeader_frameOctets frame.type.value_lt hflags hstream hlength []
  have hparsed := parseFrame_frameOctets frame.type.value_lt hflags hstream hlength []
  rw [List.append_nil, ← hoctets] at hheader hparsed
  refine ⟨⟨_, hheader, ?_⟩, hparsed.trans hdecoded⟩
  rw [hoctets, frameOctets]
  simp only [List.length_append, octetsOf_length, frameHeaderLength]

theorem asRead_of_inRange (nibble : Nat) {frame : Frame} (hfields : frame.FieldsInRange) : frame.asRead nibble = frame.unordered := by
  cases frame with
  | settings frame =>
      have hgrease : frame.grease = false := hfields.2.2.2.1
      rw [Frame.asRead, SettingsFrame.advertised, hgrease, if_neg fun h => Bool.false_ne_true h.1, Frame.unordered, hgrease]
  | _ => rfl

theorem readable_of_inWireRange (nibble : Nat) {frame : Frame} (hrange : frame.InWireRange) : Readable nibble frame := by
  obtain ⟨hflags, hstream, hfields⟩ := hrange
  refine readable_of_decoded nibble hflags hstream (serializePayload_length nibble hfields) ?_
  rw [asRead_of_inRange nibble hfields]
  exact decodeFrame_serializePayload nibble hfields

/-- The loop dispatches what was written, however it comes. -/
theorem readLoop_written {σ : Type} (dispatch : σ → Frame → σ × Option JsError) (state : σ) {nibble : Nat} {frames : List Frame}
    (hreadable : ∀ frame ∈ frames, Readable nibble frame) {chunks : List Bytes}
    (hchunks : chunks.flatten = (frames.map (serializeFrame nibble)).flatten) :
    readLoop dispatch state [] chunks = dispatchFrames dispatch state (frames.map (Frame.asRead nibble)) := by
  have hrecords : ∀ record ∈ frames.map (serializeFrame nibble), frameFraming.IsRecord record := by
    intro record hrecord
    obtain ⟨frame, hframe, rfl⟩ := List.mem_map.mp hrecord
    exact (hreadable frame hframe).complete.isRecord
  have hparsed : (frames.map (serializeFrame nibble)).map parseFrame = (frames.map (Frame.asRead nibble)).map .ok := by
    rw [List.map_map, List.map_map]
    exact List.map_congr_left fun frame hframe => (hreadable frame hframe).parsed
  rw [readLoop_eq_dispatchRecords, List.nil_append, hchunks, frameFraming.records_flatten hrecords]
  exact dispatchRecords_of_parsed dispatch state hparsed

/-! ### The preface -/

structure PriorityFrameSpec where
  streamId : StreamId
  streamDependency : StreamId
  exclusive : Bool
  weight : Nat
  deriving DecidableEq

/-- The options that shape the connection preface, with those of request header blocks. -/
structure ConnectOptions extends Http2Options where
  initialSettings : Option SettingsMap := none
  settingsAckTimeoutMs : Option Nat := none
  settingsOrder : Option (List Nat) := none
  settingsGrease : Option Bool := none
  connectionWindowUpdate : Option Int := none
  priorityFrames : Option (List PriorityFrameSpec) := none
  deriving DecidableEq

def clientPreface : Bytes := "PRI * HTTP/2.0\r\n\r\nSM\r\n\r\n".toUTF8.toList

def defaultSettingsAckTimeoutMs : Nat := 5000

def settingsFrame (options : ConnectOptions) : SettingsFrame where
  flags := 0
  streamId := 0
  ack := false
  settings := options.initialSettings.getD .empty
  settingsOrder := options.settingsOrder
  grease := options.settingsGrease == some true

def connectionWindowUpdateFrame (increment : Int) : Frame := .windowUpdate { flags := 0, streamId := 0, windowSizeIncrement := increment }

def priorityFrame (spec : PriorityFrameSpec) : Frame :=
  .priority
    { flags := 0
      streamId := spec.streamId
      exclusive := spec.exclusive
      streamDependency := spec.streamDependency
      weight := spec.weight }

/-- The frames that `connectHttp2` sends, in order. -/
def prefaceFrames (options : ConnectOptions) : List Frame :=
  .settings (settingsFrame options) :: (options.connectionWindowUpdate.toList.map connectionWindowUpdateFrame ++
    (options.priorityFrames.getD []).map priorityFrame)

/-- The connection `connectHttp2` resolves with: its loop is started and it waits for the peer's acknowledgement. -/
def connectHttp2 (options : ConnectOptions) (settingsAck : Callback) : WireConnection where
  connection := ({ options := options.toHttp2Options } : Http2Connection).waitForSettingsAck settingsAck
    (options.settingsAckTimeoutMs.getD defaultSettingsAckTimeoutMs)

/-- What has been written to the transport. -/
def written (nibble : Nat) (options : ConnectOptions) (c : Http2Connection) : List Bytes :=
  clientPreface :: (prefaceFrames options ++ c.outbound).map (serializeFrame nibble)

/-! ### The preface is read back -/

/-- The numbers of the options fit the fields of the preface. -/
structure ConnectOptions.FitWire (options : ConnectOptions) : Prop where
  settings : ∀ entry ∈ (options.initialSettings.getD .empty).entries, entry.1 < 2 ^ 16 ∧ entry.2 < 2 ^ 32
  order : ∀ order ∈ options.settingsOrder, order.Nodup
  windowUpdate : ∀ increment ∈ options.connectionWindowUpdate, 0 ≤ increment ∧ increment < 2 ^ 31
  priorities : ∀ spec ∈ options.priorityFrames.getD [],
    spec.streamId < 2 ^ 31 ∧ spec.streamDependency < 2 ^ 31 ∧ spec.weight < 2 ^ 8

section Settings

variable {frame : SettingsFrame}

/-- The frame without its GREASE setting. -/
def SettingsFrame.plain (frame : SettingsFrame) : SettingsFrame := { frame with grease := false }

theorem collectSettingsEntries_grease (nibble : Nat) (frame : SettingsFrame) :
    collectSettingsEntries nibble frame = greaseEntries nibble frame ++ collectSettingsEntries nibble frame.plain := by
  rw [collectSettingsEntries_eq, collectSettingsEntries_eq nibble frame.plain]
  rfl

theorem plain_agree (nibble : Nat) : ∀ entry ∈ collectSettingsEntries nibble frame.plain, frame.settings.get entry.1 = some entry.2 := by
  have hplain : frame.plain.grease = false := rfl
  exact collectSettingsEntries_agree nibble hplain

/-- The GREASE setting comes first, so that a value of the caller's for its id replaces it. -/
theorem foldl_collectSettingsEntries_advertised (nibble : Nat) (frame : SettingsFrame) :
    (collectSettingsEntries nibble frame).foldl (fun s entry => s.set entry.1 entry.2) .empty = frame.advertised nibble := by
  cases hgrease : frame.grease with
  | false =>
      rw [foldl_collectSettingsEntries nibble hgrease, SettingsFrame.advertised, hgrease, if_neg fun h => Bool.false_ne_true h.1]
  | true =>
      have hfirst : greaseEntries nibble frame = [(generateHttp2GreaseValue nibble, 0)] := if_pos hgrease
      apply SettingsMap.ext_get
      intro k
      rw [collectSettingsEntries_grease, hfirst, List.singleton_append, List.foldl_cons, get_foldl_set (plain_agree nibble),
        SettingsFrame.advertised, hgrease]
      cases hget : frame.settings.get k with
      | some value =>
          have hentry : (k, value) ∈ frame.plain.settings.entries := SettingsMap.mem_iff_get.mpr hget
          have hwritten : k ∈ (collectSettingsEntries nibble frame.plain).map Prod.fst :=
            List.mem_map_of_mem (collectSettingsEntries_complete nibble hentry)
          rw [if_pos hwritten]
          split
          · rename_i hunset
            have hne : k ≠ generateHttp2GreaseValue nibble := by
              intro heq
              rw [heq, hunset.2] at hget
              exact Option.some_ne_none value hget.symm
            rw [SettingsMap.get_set, if_neg hne, hget]
          · exact hget.symm
      | none =>
          have hskipped : k ∉ (collectSettingsEntries nibble frame.plain).map Prod.fst := by
            intro hmem
            obtain ⟨entry, hentry, hkey⟩ := List.mem_map.mp hmem
            have hsome := plain_agree nibble entry hentry
            rw [hkey, hget] at hsome
            exact Option.some_ne_none entry.2 hsome.symm
          rw [if_neg hskipped, SettingsMap.get_set, SettingsMap.get_empty]
          split
          · rename_i heq
            have hkey : k = generateHttp2GreaseValue nibble := heq
            rw [hkey] at hget
            rw [if_pos ⟨rfl, hget⟩, SettingsMap.get_set, if_pos hkey]
          · rename_i hne
            split
            · rw [SettingsMap.get_set, if_neg hne, hget]
            · exact hget.symm

theorem readable_settings (nibble : Nat) (hflags : frame.flags = 0) (hstream : frame.streamId = 0) (hack : frame.ack = false)
    (hentries : ∀ entry ∈ frame.settings.entries, entry.1 < 2 ^ 16 ∧ entry.2 < 2 ^ 32)
    (horder : ∀ order ∈ frame.settingsOrder, order.Nodup) : Readable nibble (.settings frame) := by
  have hpayload : serializePayload nibble (.settings frame) = (collectSettingsEntries nibble frame).flatMap settingOctets := by
    rw [serializePayload, if_neg (Bool.eq_false_iff.mp hack)]
    rfl
  have hrange : ∀ entry ∈ collectSettingsEntries nibble frame, entry.1 < 2 ^ 16 ∧ entry.2 < 2 ^ 32 := by
    intro entry hentry
    rw [collectSettingsEntries_grease] at hentry
    rcases List.mem_append.mp hentry with hgrease | hset
    · exact wireSetting_eq_self_iff.mp (greaseEntries_fit nibble entry hgrease)
    · exact hentries entry (SettingsMap.mem_iff_get.mpr (plain_agree nibble entry hset))
  have hcount : (collectSettingsEntries nibble frame).length ≤ 1 + 2 ^ 16 := by
    have hids : ∀ entry ∈ frame.plain.settings.entries, entry.1 < 2 ^ 16 := fun entry hentry => (hentries entry hentry).1
    have hrest := collectSettingsEntries_length nibble rfl hids horder
    have hfirst : (greaseEntries nibble frame).length ≤ 1 := by
      rw [greaseEntries]
      split
      · exact Nat.le_refl 1
      · exact Nat.zero_le 1
    rw [collectSettingsEntries_grease, List.length_append]
    omega
  have hlength : (serializePayload nibble (.settings frame)).length < 2 ^ 24 := by
    rw [hpayload, settingOctets_length]
    omega
  refine readable_of_decoded nibble (by rw [Frame.flags, hflags]; decide) (by rw [Frame.streamId, hstream]; decide) hlength ?_
  have hread : readSettings .empty (serializePayload nibble (.settings frame)) = frame.advertised nibble := by
    rw [hpayload, readSettings_flatMap hrange, foldl_collectSettingsEntries_advertised]
  have hnoack : frame.ack = true ↔ frame.flags &&& 0x1 ≠ 0 := by
    rw [hflags, hack]
    decide
  show decodeFrame 0x4 frame.flags frame.streamId _ = _
  rw [decodeFrame, show validateFrameType 0x4 = some .settings from rfl]
  dsimp only
  rw [hread, flag_eq hnoack, Frame.asRead, hstream]

end Settings

theorem prefaceFrames_readable (nibble : Nat) {options : ConnectOptions} (hoptions : options.FitWire) :
    ∀ frame ∈ prefaceFrames options, Readable nibble frame := by
  refine List.forall_mem_cons.mpr ⟨readable_settings nibble rfl rfl rfl hoptions.settings hoptions.order, List.forall_mem_append.mpr ⟨?_, ?_⟩⟩
  · intro frame hframe
    obtain ⟨increment, hincrement, rfl⟩ := List.mem_map.mp hframe
    exact readable_of_inWireRange nibble ⟨Nat.two_pow_pos 8, Nat.two_pow_pos 31, hoptions.windowUpdate increment (Option.mem_toList.mp hincrement)⟩
  · intro frame hframe
    obtain ⟨spec, hspec, rfl⟩ := List.mem_map.mp hframe
    obtain ⟨hstream, hdependency, hweight⟩ := hoptions.priorities spec hspec
    exact readable_of_inWireRange nibble ⟨Nat.two_pow_pos 8, hstream, hdependency, hweight⟩

/-! ### What the connection sends is read back -/

/-- The frame is read back as it is. -/
def Frame.Exact (frame : Frame) : Prop := frame.InWireRange ∧ frame.unordered = frame

theorem Frame.Exact.asRead {frame : Frame} (h : frame.Exact) (nibble : Nat) : frame.asRead nibble = frame :=
  (asRead_of_inRange nibble h.1.2.2).trans h.2

theorem dataFrame_exact {id : StreamId} {chunk : Bytes × Bool} (hid : id < 2 ^ 31) (hlength : chunk.1.length ≤ maxMaxFrameSize) :
    (dataFrame id chunk).Exact := by
  refine ⟨⟨?_, hid, hlength.trans_lt (by decide)⟩, rfl⟩
  show (if chunk.2 then 0x1 else 0) < 2 ^ 8
  split <;> decide

theorem creditFrame_exact {streamId : StreamId} {increment : Nat} (hstream : streamId < 2 ^ 31) (hincrement : increment < 2 ^ 24) :
    (creditFrame streamId increment).Exact := by
  refine ⟨⟨Nat.two_pow_pos 8, hstream, Int.natCast_nonneg _, ?_⟩, rfl⟩
  show (increment : Int) < 2 ^ 31
  omega

theorem settingsAckFrame_exact : settingsAckFrame.Exact := by
  refine ⟨⟨by decide, by decide, rfl, by decide, fun _ => rfl, rfl, fun entry hentry => absurd hentry List.not_mem_nil, ?_⟩, rfl⟩
  exact fun order horder => absurd horder (by simp)

theorem pingFrame_exact (ack : Bool) {data : Nat} (hdata : data < 2 ^ 64) :
    (Frame.ping { flags := if ack then 0x1 else 0, streamId := 0, ack, opaqueData := data }).Exact := by
  cases ack with
  | false => exact ⟨⟨Nat.two_pow_pos 8, Nat.two_pow_pos 31, rfl, by simp, hdata⟩, rfl⟩
  | true => exact ⟨⟨by simp [Frame.flags], Nat.two_pow_pos 31, rfl, by simp, hdata⟩, rfl⟩

theorem goawayFrame_exact {lastStreamId : StreamId} {errorCode : Nat} {debugData : Bytes} (hlast : lastStreamId < 2 ^ 31)
    (hcode : errorCode < 2 ^ 32) (hdebug : 8 + debugData.length < 2 ^ 24) :
    (Http2Connection.goawayFrame lastStreamId errorCode debugData).Exact :=
  ⟨⟨Nat.two_pow_pos 8, Nat.two_pow_pos 31, rfl, hlast, hcode, hdebug⟩, rfl⟩

theorem requestHeadersFrame_exact {streamId : StreamId} (endStream : Bool) {payload : Bytes} (hstream : streamId < 2 ^ 31)
    (hpayload : payload.length < 2 ^ 24) : (Frame.headers (Http2Connection.requestHeadersFrame streamId endStream payload)).Exact := by
  refine ⟨⟨?_, hstream, hpayload, ?_, ?_, ?_⟩, rfl⟩
  all_goals cases endStream <;> simp [Frame.flags, Http2Connection.requestHeadersFrame]

theorem Manager.answers_exact {m : Manager} (hids : ∀ id ∈ m.streams.keys, id < 2 ^ 31) {buf : Bytes} {frame : Frame}
    (hparsed : parseFrame buf = .ok frame) : ∀ answer ∈ m.answers frame, answer.Exact := by
  cases frame with
  | data frame =>
      obtain ⟨-, -, hlength⟩ := parseFrame_inWireRange hparsed not_false
      simp only [answers, creditFrames]
      split
      · exact fun _ hmem => absurd hmem List.not_mem_nil
      · rename_i st hget
        have hid : st.id < 2 ^ 31 := hids st.id (List.mem_map_of_mem (Table.mem_of_get hget))
        have hshared := creditFrame_exact (Nat.two_pow_pos 31) hlength
        split
        · exact List.forall_mem_singleton.mpr hshared
        · exact List.forall_mem_cons.mpr ⟨hshared, List.forall_mem_singleton.mpr (creditFrame_exact hid hlength)⟩
  | settings frame =>
      simp only [answers]
      split
      · exact fun _ hmem => absurd hmem List.not_mem_nil
      · exact List.forall_mem_singleton.mpr settingsAckFrame_exact
  | ping frame =>
      obtain ⟨-, -, -, -, hdata⟩ := parseFrame_inWireRange hparsed not_false
      simp only [answers]
      split
      · exact fun _ hmem => absurd hmem List.not_mem_nil
      · exact List.forall_mem_singleton.mpr (pingFrame_exact true hdata)
  | _ => exact fun _ hmem => absurd hmem List.not_mem_nil

/-- The 64-bit value that `ping()` draws: what the first eight random octets spell. -/
def randomUint64 (bytes : Bytes) : Except JsError Nat := do
  let hi ← getUint32 bytes 0
  let lo ← getUint32 bytes 4
  return hi <<< 32 ||| lo

theorem bigEndian_append (high low : Bytes) : bigEndian (high ++ low) = bigEndian high * 256 ^ low.length + bigEndian low := by
  rw [bigEndian, List.foldl_append, foldl_octets_acc]
  rfl

/-- Two words, the high one first, are read as one integer is. -/
theorem randomUint64_eq (bytes : Bytes) : randomUint64 bytes = getBigUint64 bytes 0 := by
  by_cases hlong : 8 ≤ bytes.length
  · have hlength : ((bytes.drop 4).take 4).length = 4 := by simp only [List.length_take, List.length_drop]; omega
    have hlow : bigEndian ((bytes.drop 4).take 4) < 2 ^ 32 := by
      have hlt := bigEndian_lt ((bytes.drop 4).take 4)
      rwa [hlength] at hlt
    have hhi : getUint32 bytes 0 = .ok (bigEndian (bytes.take 4)) := if_pos (by omega)
    have hlo : getUint32 bytes 4 = .ok (bigEndian ((bytes.drop 4).take 4)) := if_pos hlong
    have hboth : getBigUint64 bytes 0 = .ok (bigEndian (bytes.take 8)) := if_pos (by omega)
    have hsplit : bytes.take 8 = bytes.take 4 ++ (bytes.drop 4).take 4 := List.take_add (i := 4) (j := 4)
    rw [randomUint64, hhi, hlo, hboth, hsplit, bigEndian_append, hlength]
    show Except.ok (bigEndian (bytes.take 4) <<< 32 ||| bigEndian ((bytes.drop 4).take 4)) = _
    rw [← Nat.shiftLeft_add_eq_or_of_lt hlow, Nat.shiftLeft_eq, show 256 ^ 4 = 2 ^ 32 from rfl]
  · have hboth : getBigUint64 bytes 0 = .error .range := if_neg (by omega)
    have hlo : getUint32 bytes 4 = .error .range := if_neg hlong
    rw [randomUint64, hboth, hlo]
    by_cases hfirst : 4 ≤ bytes.length
    · have hhi : getUint32 bytes 0 = .ok (bigEndian (bytes.take 4)) := if_pos (by omega)
      rw [hhi]
      rfl
    · have hhi : getUint32 bytes 0 = .error .range := if_neg (by omega)
      rw [hhi]
      rfl

namespace Http2Connection

/-- The numbers a caller hands to the step fit their fields, there is an id for the stream it opens, and the frame that arrives
has been read off the wire. -/
def Fits (c : Http2Connection) : ConnectionStep → Prop
  | .resume call => call ∈ c.granted →
      c.manager.nextStreamId < 2 ^ 31 ∧ ∀ payload, c.requestBlock call.req = .ok payload → payload.length < 2 ^ 24
  | .goaway lastStreamId errorCode debugData => lastStreamId < 2 ^ 31 ∧ errorCode < 2 ^ 32 ∧ 8 + debugData.length < 2 ^ 24
  | .ping _ data => data < 2 ^ 64
  | .receiveFrame frame => ∃ buf, parseFrame buf = .ok frame
  | _ => True

theorem fits_ping_drawn (c : Http2Connection) (promise : Callback) {bytes : Bytes} {data : Nat} (h : randomUint64 bytes = .ok data) :
    c.Fits (.ping promise data) ∧ octetsOf 8 data = bytes.take 8 := by
  rw [randomUint64_eq] at h
  refine ⟨getUint_lt h, ?_⟩
  rw [getBigUint64, getUint] at h
  split at h
  · rename_i hlong
    rw [← Except.ok.inj h, List.drop_zero]
    exact octetsOf_bigEndian (List.length_take_of_le (by omega))
  · exact absurd h (by simp)

/-- What has been sent is read back, and what may be sent has an id that is. -/
structure InRange (c : Http2Connection) : Prop where
  managed : c.Managed
  outbound : ∀ frame ∈ c.outbound, frame.Exact
  ids : ∀ id ∈ c.manager.streams.keys, id < 2 ^ 31

variable {c : Http2Connection} {s : ConnectionStep}

theorem sends_exact (hfits : c.Fits s) : ∀ frame ∈ c.sends s, frame.Exact := by
  have hnone : ∀ frame ∈ ([] : List Frame), frame.Exact := fun _ hmem => absurd hmem List.not_mem_nil
  cases s with
  | resume call =>
      simp only [sends, executorSends]
      split
      · rename_i hgranted
        obtain ⟨hid, hblock⟩ := hfits hgranted
        split
        · exact hnone
        · split
          · exact hnone
          · rename_i payload hpayload
            exact List.forall_mem_singleton.mpr (requestHeadersFrame_exact _ hid (hblock payload hpayload))
      · exact hnone
  | goaway lastStreamId errorCode debugData =>
      obtain ⟨hlast, hcode, hdebug⟩ := hfits
      exact List.forall_mem_singleton.mpr (goawayFrame_exact hlast hcode hdebug)
  | close =>
      simp only [sends]
      split
      · exact hnone
      · exact List.forall_mem_singleton.mpr (goawayFrame_exact (by decide) (by decide) (by decide))
  | ping promise data =>
      simp only [sends]
      split
      · exact hnone
      · exact List.forall_mem_singleton.mpr (pingFrame_exact false hfits)
  | _ => exact hnone

theorem InRange.ids_step (h : c.InRange) (hfits : c.Fits s) : ∀ id ∈ (c.step s).manager.streams.keys, id < 2 ^ 31 := by
  rw [step_manager]
  by_cases hopens : c.Opens s
  · obtain ⟨call, rfl, hgranted⟩ := hopens
    have hasks : c.asks (.resume call) = .openStream :: c.executorAsks c.manager.nextStreamId call := if_pos hgranted
    have hrest : ∀ op ∈ c.executorAsks c.manager.nextStreamId call, op ≠ .openStream ∧ ∀ frame, op ≠ .dispatch frame := by
      intro op hop
      rcases executorAsks_cases hop with rfl | rfl
      · exact ⟨by simp, by simp⟩
      · exact ⟨by simp, by simp⟩
    intro id hid
    rw [hasks] at hid
    rcases (c.manager.step .openStream).steps_keys_from (fun hop => (hrest _ hop).1 rfl) id hid with hopened | ⟨frame, hop, -⟩
    · rcases c.manager.step_keys_from .openStream id hopened with hold | ⟨-, hnew⟩ | ⟨frame, hop, -⟩
      · exact h.ids id hold
      · exact hnew ▸ (hfits hgranted).1
      · exact absurd hop (by simp)
    · exact absurd rfl ((hrest _ hop).2 _)
  · intro id hid
    rcases c.manager.steps_keys_from (fun hop => hopens (asks_openStream hop)) id hid with hold | ⟨frame, hop, hpromised⟩
    · exact h.ids id hold
    · rcases asks_cases hop with ⟨received, hstep, hframe⟩ | ⟨err, habort⟩ | ⟨hopens', -⟩
      · subst hstep
        obtain ⟨buf, hbuf⟩ := hfits
        rw [hpromised]
        rw [← ManagerOp.dispatch.inj hframe] at hbuf
        exact parseFrame_promised hbuf
      · exact absurd habort (by simp)
      · exact absurd hopens' hopens

theorem InRange.step (h : c.InRange) (hfits : c.Fits s) : (c.step s).InRange := by
  obtain ⟨chunks, hchunks, hemits⟩ := c.step_sends s
  have hmanaged : (c.step s).Managed := by
    obtain ⟨ops, hops⟩ := h.managed
    exact ⟨ops ++ c.asks s, by rw [step_manager, hops, Manager.run_append]⟩
  refine ⟨hmanaged, ?_, h.ids_step hfits⟩
  rw [hemits.outbound]
  refine List.forall_mem_append.mpr ⟨List.forall_mem_append.mpr ⟨h.outbound, sends_exact hfits⟩, List.forall_mem_append.mpr ⟨?_, ?_⟩⟩
  · intro frame hframe
    obtain ⟨chunk, hchunk, rfl⟩ := List.mem_map.mp hframe
    have hid : chunk.1 < 2 ^ 31 := by
      rcases (hchunks chunk hchunk).1 with hold | ⟨⟨call, hstep, hgranted⟩, hnew⟩
      · exact h.ids chunk.1 hold
      · subst hstep
        exact hnew ▸ (hfits hgranted).1
    have hsent : dataFrame chunk.1 chunk.2 ∈ (c.step s).manager.sent := by
      rw [hemits.manager]
      exact List.mem_append_right _ (List.mem_append_left _ hframe)
    obtain ⟨ops, hops⟩ := hmanaged
    rw [hops] at hsent
    exact dataFrame_exact hid (Manager.run_sent_limited ops _ hsent)
  · cases s with
    | receiveFrame frame =>
        obtain ⟨buf, hbuf⟩ := hfits
        simp only [answersTo]
        split
        · exact Manager.answers_exact h.ids hbuf
        · exact fun _ hmem => absurd hmem List.not_mem_nil
    | _ => exact fun _ hmem => absurd hmem List.not_mem_nil

end Http2Connection

namespace WireConnection

/-- What arrives on the wire needs no condition. -/
def Fits (w : WireConnection) : WireStep → Prop
  | .own s => w.connection.Fits s
  | _ => True

variable {w : WireConnection}

theorem performs_fits {a : WireStep} (hfits : w.Fits a) : ∀ s ∈ w.performs a, w.connection.Fits s := by
  have hnone : ∀ s ∈ ([] : List ConnectionStep), w.connection.Fits s := fun _ hmem => absurd hmem List.not_mem_nil
  cases a with
  | own s => exact List.forall_mem_singleton.mpr hfits
  | read chunk => exact hnone
  | readRejected err =>
      rw [performs]
      split
      · exact List.forall_mem_singleton.mpr trivial
      · exact hnone
  | proceed =>
      rw [performs]
      cases hproceeds : w.proceeds with
      | none => exact hnone
      | some next =>
          refine List.forall_mem_singleton.mpr ?_
          obtain ⟨-, record, -, ⟨frame, hframe, hs⟩ | ⟨e, -, hs⟩⟩ := proceeds_cases hproceeds
          · rw [hs]
            exact ⟨record, hframe⟩
          · rw [hs]
            exact trivial

theorem step_inRange (h : w.connection.InRange) {a : WireStep} (hfits : w.Fits a) : (w.step a).connection.InRange := by
  have hperforms := performs_fits hfits
  have hone : (w.performs a).length ≤ 1 := by
    cases a with
    | own s => exact Nat.le_refl 1
    | read chunk => exact Nat.zero_le 1
    | readRejected err =>
        rw [performs]
        split <;> simp
    | proceed =>
        rw [performs]
        cases w.proceeds <;> simp
  rw [step_connection]
  cases hsteps : w.performs a with
  | nil => exact h
  | cons s rest =>
      rw [hsteps] at hperforms hone
      obtain rfl : rest = [] := List.eq_nil_of_length_eq_zero (Nat.le_zero.mp (Nat.le_of_succ_le_succ hone))
      exact h.step (hperforms s List.mem_cons_self)

theorem connectHttp2_inRange (options : ConnectOptions) (settingsAck : Callback) : (connectHttp2 options settingsAck).connection.InRange where
  managed := ⟨[], rfl⟩
  outbound _ hframe := absurd hframe List.not_mem_nil
  ids _ hid := absurd hid List.not_mem_nil

end WireConnection

open WireConnection in
/-- Whatever has been written, from the preface string on, a peer that takes off the string and reads frames dispatches the frames
of the preface and then the ones the connection has sent, each as it was sent, however the octets reach it. -/
theorem written_read_back {σ : Type} (dispatch : σ → Frame → σ × Option JsError) (state : σ) (nibble : Nat) {options : ConnectOptions}
    (settingsAck : Callback) {s : List WireStep} (hoptions : options.FitWire)
    (hfits : Throughout WireConnection.step Fits (connectHttp2 options settingsAck) s) {chunks : List Bytes}
    (hchunks : clientPreface ++ chunks.flatten =
      (written nibble options ((connectHttp2 options settingsAck).steps s).connection).flatten) :
    readLoop dispatch state [] chunks = dispatchFrames dispatch state
      ((prefaceFrames options).map (Frame.asRead nibble) ++ ((connectHttp2 options settingsAck).steps s).connection.outbound) := by
  have hrange : ((connectHttp2 options settingsAck).steps s).connection.InRange :=
    hfits.invariant (I := fun w => w.connection.InRange) (fun _ _ h hstep => step_inRange h hstep) (connectHttp2_inRange options settingsAck)
  generalize ((connectHttp2 options settingsAck).steps s).connection = c at hrange hchunks
  have hsame : c.outbound.map (Frame.asRead nibble) = c.outbound :=
    (List.map_congr_left fun frame hframe => (hrange.outbound frame hframe).asRead nibble).trans (List.map_id _)
  rw [written, List.flatten_cons] at hchunks
  rw [readLoop_written dispatch state ?_ (List.append_cancel_left hchunks), List.map_append, hsame]
  refine List.forall_mem_append.mpr ⟨prefaceFrames_readable nibble hoptions, fun frame hframe => ?_⟩
  exact readable_of_inWireRange nibble (hrange.outbound frame hframe).1

/-- A preface with a GREASE setting, a larger connection window and one stream of a priority tree. -/
def greasedPreface : ConnectOptions where
  initialSettings := some ((SettingsMap.empty.set 0x4 6291456).set 0x1 65536)
  settingsOrder := some [0x4, 0x1]
  settingsGrease := some true
  connectionWindowUpdate := some 15663105
  priorityFrames := some [⟨3, 0, false, 200⟩]

/-- A call of `ping()` with the data it has drawn, then a PING of the peer's in two chunks. -/
def crossingPings : List WireStep :=
  [.own ⟨.ping 1 0xdeadbeef01020304, rfl⟩, .read [0, 0, 8, 6, 0, 0, 0], .read [0, 0, 0, 0, 0, 0, 0, 0, 0, 9], .proceed]

theorem written_read_back_greased :
    (readLoop Manager.dispatch .create []
      [((written 3 greasedPreface ((connectHttp2 greasedPreface 0).steps crossingPings).connection).flatten.drop 24).take 40,
        (written 3 greasedPreface ((connectHttp2 greasedPreface 0).steps crossingPings).connection).flatten.drop 64]).dispatched =
      [.settings ⟨0, 0, false, ((SettingsMap.empty.set 0x4 6291456).set 0x1 65536).set 0x3a3a 0, none, false⟩,
        .windowUpdate ⟨0, 0, 15663105⟩, .priority ⟨0, 3, false, 0, 200⟩, .ping ⟨0, 0, false, 0xdeadbeef01020304⟩, .ping ⟨0x1, 0, true, 9⟩] := by
  have hdrawn : randomUint64 [0xde, 0xad, 0xbe, 0xef, 1, 2, 3, 4] = .ok 0xdeadbeef01020304 := rfl
  have hoptions : greasedPreface.FitWire := ⟨by decide, by decide, by decide, by decide⟩
  have hfits : Throughout WireConnection.step WireConnection.Fits (connectHttp2 greasedPreface 0) crossingPings :=
    ⟨((connectHttp2 greasedPreface 0).connection.fits_ping_drawn 1 hdrawn).1, trivial, trivial, trivial, trivial⟩
  rw [written_read_back Manager.dispatch .create 3 0 hoptions hfits (by decide +kernel)]
  decide +kernel

end BrowsercoreHttp2
