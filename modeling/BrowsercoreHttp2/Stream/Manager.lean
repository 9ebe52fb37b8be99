import BrowsercoreHttp2.Frame

/-!
# The stream manager

The manager owns the streams of a connection and reacts to frames. What it does to the outside (frames
it sends, events it emits, callbacks it calls) is recorded in order in `effects`; none of it calls back
into the manager. A handler that can throw returns the manager as the throw leaves it.

A callback is named by a number, the request it settles.
-/

namespace BrowsercoreHttp2

def defaultInitialWindowSize : Int := 65535

def minMaxFrameSize : Nat := 16384

def maxMaxFrameSize : Nat := 16777215

def defaultMaxConcurrentStreams : Nat := 100

abbrev Callback := Nat

structure ManagedStream where
  id : StreamId
  state : StreamState
  localWindow : FlowControlWindow
  remoteWindow : FlowControlWindow
  headersComplete : Bool := false
  endStreamSeen : Bool := false
  responseHeaders : HeaderMap := .empty
  responseChunks : List Bytes := []
  pendingHeaderBytes : Bytes := []
  sendQueue : Bytes := []
  sendQueueEndStream : Bool := false
  resolve : Option Callback := none
  reject : Option Callback := none
  isPushPromise : Bool
  pushResponse : Option Http2Response := none
  deriving DecidableEq

/-- A new stream. A pushed stream starts reserved, a client stream open. -/
def ManagedStream.create (id : StreamId) (localWindow remoteWindow : FlowControlWindow) (isPushPromise : Bool) : ManagedStream :=
  { id, state := if isPushPromise then .remoteReserved else .opened, localWindow, remoteWindow, isPushPromise }

def defaultStatus : Rat := 200

def parseStatus (headers : HeaderMap) : Rat :=
  match headers.value ":status" with
  | none => defaultStatus
  | some raw =>
      match Js.number raw with
      | .finite value => value
      | _ => defaultStatus

/-- A finite setting is clamped into the permitted range. A value off the wire is always finite. -/
def clampMaxFrameSize (value : Nat) : Nat :=
  if value < minMaxFrameSize then minMaxFrameSize
  else if value > maxMaxFrameSize then maxMaxFrameSize
  else value

inductive Event where
  | settingsAck
  | pingAck (opaqueData : Nat)
  | goaway (lastStreamId : StreamId) (errorCode : Nat) (debugData : Bytes)
  | push (streamId : StreamId) (headers : HeaderMap)
  | pushResponse (streamId : StreamId) (response : Http2Response)
  | streamClosed (streamId : StreamId)
  deriving DecidableEq

inductive Effect where
  | sendFrame (frame : Frame)
  | emitEvent (event : Event)
  | resolve (callback : Callback) (response : Http2Response)
  | reject (callback : Callback) (error : JsError)
  deriving DecidableEq

abbrev StreamTable := Table ManagedStream.id

/-- The manager's variables. `retired` holds the streams that have left the table, as whoever kept the
handle still sees them. -/
structure Manager where
  streams : StreamTable
  retired : List ManagedStream
  pendingPushContinuation : Table (Prod.fst : StreamId × StreamId → StreamId)
  remoteInitialWindowSize : Int
  maxConcurrentStreams : Nat
  maxFrameSize : Nat
  connectionSendWindow : Int
  connectionReceiveWindow : Int
  nextStreamId : Nat
  effects : List Effect
  deriving DecidableEq

/-- What a handler leaves: the manager, and the error it threw if it did not return. -/
abbrev Outcome := Manager × Option JsError

/-! ### Streams on their own -/

namespace ManagedStream

def pushHeaderBytes (stream : ManagedStream) (payload : Bytes) : ManagedStream :=
  { stream with pendingHeaderBytes := stream.pendingHeaderBytes ++ payload }

/-- Decode the collected block. The collected bytes are gone even when decoding throws. -/
def decodePendingHeaders (stream : ManagedStream) : ManagedStream × Option HpackError :=
  let block := stream.pendingHeaderBytes
  let stream := { stream with pendingHeaderBytes := [] }
  match decodeHeaders block with
  | .error e => (stream, some e)
  | .ok decoded => ({ stream with responseHeaders := decoded, headersComplete := true }, none)

/-- The first HEADERS on a pushed stream open it. -/
def promoteReserved (stream : ManagedStream) : ManagedStream :=
  match stream.state with
  | .remoteReserved => { stream with state := .opened }
  | _ => stream

def transitionOnEndStream (stream : ManagedStream) : ManagedStream :=
  match stream.state with
  | .opened => { stream with state := .remoteHalfClosed }
  | .localHalfClosed => { stream with state := .closed .normal }
  | .remoteReserved => { stream with state := .closed .normal }
  | _ => stream

def response (stream : ManagedStream) : Http2Response :=
  { statusCode := parseStatus stream.responseHeaders
    headers := stream.responseHeaders
    body := stream.responseChunks.flatten }

end ManagedStream

namespace Manager

def create : Manager :=
  { streams := .empty
    retired := []
    pendingPushContinuation := .empty
    remoteInitialWindowSize := defaultInitialWindowSize
    maxConcurrentStreams := defaultMaxConcurrentStreams
    maxFrameSize := defaultMaxFrameSize
    connectionSendWindow := defaultInitialWindowSize
    connectionReceiveWindow := defaultInitialWindowSize
    nextStreamId := 1
    effects := [] }

/-! ### Output -/

def perform (m : Manager) (effect : Effect) : Manager := { m with effects := m.effects ++ [effect] }

def sendFrame (m : Manager) (frame : Frame) : Manager := m.perform (.sendFrame frame)

def emitEvent (m : Manager) (event : Event) : Manager := m.perform (.emitEvent event)

def sendSettingsAck (m : Manager) : Manager :=
  m.sendFrame (.settings { flags := 0x1, streamId := 0, ack := true, settings := .empty })

def sendPingAck (m : Manager) (opaqueData : Nat) : Manager :=
  m.sendFrame (.ping { flags := 0x1, streamId := 0, ack := true, opaqueData })

def sendWindowUpdate (m : Manager) (streamId : StreamId) (increment : Nat) : Manager :=
  m.sendFrame (.windowUpdate { flags := 0, streamId, windowSizeIncrement := increment })

def sendDataFrame (m : Manager) (streamId : StreamId) (payload : Bytes) (endStream : Bool) : Manager :=
  m.sendFrame (.data { flags := if endStream then 0x1 else 0, streamId, payload })

/-- Write a stream back after changing it in place. -/
def setStream (m : Manager) (stream : ManagedStream) : Manager := { m with streams := m.streams.set stream }

/-- Put a new stream into the table, in the place of the one that had its id. -/
def insertStream (m : Manager) (stream : ManagedStream) : Manager :=
  { m with retired := m.retired ++ (m.streams.get stream.id).toList }.setStream stream

/-! ### Send queue and flow control -/

/-- Drain a single stream's send queue as far as the windows allow. -/
def drainSendQueue (m : Manager) (stream : ManagedStream) : Manager :=
  if 0 < stream.sendQueue.length then
    if m.connectionSendWindow ≤ 0 then m
    else if stream.localWindow.size ≤ 0 then m
    else
      let cap := min (min (m.maxFrameSize : Int) m.connectionSendWindow) stream.localWindow.size
      if cap ≤ 0 then m
      else
        let chunkLen := min cap.toNat stream.sendQueue.length
        let isLast := stream.sendQueueEndStream && chunkLen == stream.sendQueue.length
        let m := m.sendDataFrame stream.id (stream.sendQueue.take chunkLen) isLast
        let stream :=
          { stream with
            localWindow := { stream.localWindow with size := stream.localWindow.size - chunkLen }
            sendQueue := stream.sendQueue.drop chunkLen }
        drainSendQueue ({ m with connectionSendWindow := m.connectionSendWindow - chunkLen }.setStream stream) stream
  else m
termination_by stream.sendQueue.length
decreasing_by
  simp only [List.length_drop]
  omega

/-- `for (const s of streams.values())`, for a body that adds no stream. -/
def forEachStream (m : Manager) (body : Manager → ManagedStream → Manager) : Manager :=
  m.streams.keys.foldl (fun m id => match m.streams.get id with
    | some stream => body m stream
    | none => m) m

/-- The INITIAL_WINDOW_SIZE case: every send window moves by the difference, then every queue drains. -/
def applyInitialWindowSize (m : Manager) (value : Nat) : Manager :=
  let delta := value - m.remoteInitialWindowSize
  let m := { m with remoteInitialWindowSize := value }
  let m := m.forEachStream fun m s =>
    m.setStream { s with localWindow := { s.localWindow with size := s.localWindow.size + delta } }
  m.forEachStream drainSendQueue

def applyRemoteSetting (m : Manager) (key value : Nat) : Manager :=
  match key with
  | 0x3 => { m with maxConcurrentStreams := value }
  | 0x4 => m.applyInitialWindowSize value
  | 0x5 => { m with maxFrameSize := clampMaxFrameSize value }
  -- 0x1, 0x2 and 0x6 are informational, other settings unknown
  | _ => m

def applyRemoteSettings (m : Manager) (settings : SettingsMap) : Manager :=
  settings.entries.foldl (fun m (key, value) => m.applyRemoteSetting key value) m

/-! ### Settling responses -/

/-- Close the stream, remove it and announce it. -/
def finalizeStream (m : Manager) (stream : ManagedStream) : Manager :=
  let stream := { stream with state := .closed .normal }
  { m with
    streams := m.streams.delete stream.id
    retired := m.retired ++ [stream] }.emitEvent (.streamClosed stream.id)

def maybeResolveResponse (m : Manager) (stream : ManagedStream) : Manager :=
  if !stream.headersComplete || !stream.endStreamSeen then m
  else
    match stream.resolve with
    | none => m
    | some resolve =>
        let stream := { stream with resolve := none, reject := none }
        let response := stream.response
        let (m, stream) :=
          if stream.isPushPromise then
            (m.emitEvent (.pushResponse stream.id response), { stream with pushResponse := some response })
          else (m, stream)
        (m.finalizeStream stream).perform (.resolve resolve response)

def rejectStream (m : Manager) (stream : ManagedStream) (err : JsError) : Manager :=
  match stream.reject with
  -- With no resolver registered the stream is still removed, so that it does not leak.
  | none => m.finalizeStream stream
  | some reject =>
      let stream := { stream with resolve := none, reject := none }
      (m.finalizeStream stream).perform (.reject reject err)

/-! ### Frame handlers -/

/-- Strip the pad-length octet and the padding of a DATA payload. -/
def stripPadding (flags : Nat) (payload : Bytes) : Bytes :=
  if flags &&& 0x8 ≠ 0 then
    let padLen := (payload[0]?.map UInt8.toNat).getD 0
    let stop := payload.length - padLen
    if 0 < stop then (payload.take stop).drop 1 else []
  else payload

def handleData (m : Manager) (frame : DataFrame) : Manager :=
  match m.streams.get frame.streamId with
  | none => m
  | some stream =>
      let frameLen := frame.payload.length
      let m := { m with connectionReceiveWindow := m.connectionReceiveWindow - frameLen }
      let stream :=
        { stream with remoteWindow := { stream.remoteWindow with size := stream.remoteWindow.size - frameLen } }
      let m := m.sendWindowUpdate 0 frameLen
      let m := match stream.state with
        | .closed _ => m
        | _ => m.sendWindowUpdate stream.id frameLen
      let data := stripPadding frame.flags frame.payload
      let stream :=
        if 0 < data.length then { stream with responseChunks := stream.responseChunks ++ [data] } else stream
      if frame.flags &&& 0x1 ≠ 0 then
        let stream := { stream with endStreamSeen := true }.transitionOnEndStream
        (m.setStream stream).maybeResolveResponse stream
      else m.setStream stream

def handleHeaders (m : Manager) (frame : HeadersFrame) : Outcome :=
  match m.streams.get frame.streamId with
  | none => (m, none)
  | some stream =>
      let stream := stream.pushHeaderBytes frame.payload
      if !frame.endHeaders then (m.setStream stream, none)
      else
        match stream.decodePendingHeaders with
        | (stream, some e) => (m.setStream stream, some (.hpack e))
        | (stream, none) =>
            let stream := stream.promoteReserved
            let stream :=
              if frame.endStream then { stream with endStreamSeen := true }.transitionOnEndStream else stream
            ((m.setStream stream).maybeResolveResponse stream, none)

def handleRstStream (m : Manager) (frame : RstStreamFrame) : Manager :=
  match m.streams.get frame.streamId with
  | none => m
  | some stream =>
      let stream := { stream with state := .closed (.rstStream frame.errorCode) }
      m.rejectStream stream (.http2 (.rstStream frame.streamId frame.errorCode))

def handleSettings (m : Manager) (frame : SettingsFrame) : Manager :=
  if frame.ack then m.emitEvent .settingsAck
  else (m.applyRemoteSettings frame.settings).sendSettingsAck

def handlePushPromise (m : Manager) (frame : PushPromiseFrame) : Outcome :=
  let promised : ManagedStream := .create frame.promisedStreamId
    ⟨defaultInitialWindowSize, defaultInitialWindowSize⟩ ⟨defaultInitialWindowSize, defaultInitialWindowSize⟩ true
  let promised := promised.pushHeaderBytes frame.payload
  if frame.endHeaders then
    match promised.decodePendingHeaders with
    | (promised, some e) => (m.insertStream promised, some (.hpack e))
    | (promised, none) => ((m.insertStream promised).emitEvent (.push promised.id promised.responseHeaders), none)
  else
    -- The CONTINUATION that follows carries the client stream's id.
    ({ m.insertStream promised with
        pendingPushContinuation := m.pendingPushContinuation.set (frame.streamId, frame.promisedStreamId) }, none)

def handlePing (m : Manager) (frame : PingFrame) : Manager :=
  if frame.ack then m.emitEvent (.pingAck frame.opaqueData) else m.sendPingAck frame.opaqueData

def handleGoaway (m : Manager) (frame : GoawayFrame) : Manager :=
  let m := m.emitEvent (.goaway frame.lastStreamId frame.errorCode frame.debugData)
  m.forEachStream fun m stream =>
    if frame.lastStreamId < stream.id then
      let stream := { stream with state := .closed (.goaway frame.lastStreamId) }
      m.rejectStream stream (.http2 (.goawayReceived frame.lastStreamId frame.errorCode frame.debugData))
    else m

def handleWindowUpdate (m : Manager) (frame : WindowUpdateFrame) : Manager :=
  if frame.streamId = 0 then
    { m with connectionSendWindow := m.connectionSendWindow + frame.windowSizeIncrement }.forEachStream drainSendQueue
  else
    match m.streams.get frame.streamId with
    | none => m
    | some stream =>
        let stream :=
          { stream with
            localWindow := { stream.localWindow with size := stream.localWindow.size + frame.windowSizeIncrement } }
        (m.setStream stream).drainSendQueue stream

/-- Forget a pending PUSH_PROMISE block, if that is what the CONTINUATION finished. -/
def clearPushContinuation (m : Manager) (streamId : StreamId) (promisedId : Option StreamId) : Manager :=
  if promisedId.isSome then { m with pendingPushContinuation := m.pendingPushContinuation.delete streamId } else m

def handleContinuation (m : Manager) (frame : ContinuationFrame) : Outcome :=
  let promisedId := (m.pendingPushContinuation.get frame.streamId).map Prod.snd
  match m.streams.get (promisedId.getD frame.streamId) with
  | none => (m, none)
  | some stream =>
      let stream := stream.pushHeaderBytes frame.payload
      if !frame.endHeaders then (m.setStream stream, none)
      else
        let m := m.clearPushContinuation frame.streamId promisedId
        match stream.decodePendingHeaders with
        | (stream, some e) => (m.setStream stream, some (.hpack e))
        | (stream, none) =>
            let m := m.setStream stream
            let m := if stream.isPushPromise then m.emitEvent (.push stream.id stream.responseHeaders) else m
            (m.maybeResolveResponse stream, none)

def dispatch (m : Manager) : Frame → Outcome
  | .data frame => (m.handleData frame, none)
  | .headers frame => m.handleHeaders frame
  -- Priority scheduling is best effort: nothing is reordered.
  | .priority _ => (m, none)
  | .rstStream frame => (m.handleRstStream frame, none)
  | .settings frame => (m.handleSettings frame, none)
  | .pushPromise frame => m.handlePushPromise frame
  | .ping frame => (m.handlePing frame, none)
  | .goaway frame => (m.handleGoaway frame, none)
  | .windowUpdate frame => (m.handleWindowUpdate frame, none)
  | .continuation frame => m.handleContinuation frame

/-! ### The public surface -/

/-- Open a client stream under the next odd id. -/
def openStream (m : Manager) : Manager × ManagedStream :=
  let id := m.nextStreamId
  let nextStreamId := m.nextStreamId + 2
  let stream : ManagedStream := .create id
    ⟨m.remoteInitialWindowSize, m.remoteInitialWindowSize⟩ ⟨defaultInitialWindowSize, defaultInitialWindowSize⟩ false
  -- A number does not overflow, so the guard that wraps a negative id back to 1 never applies.
  ({ m with nextStreamId }.insertStream stream, stream)

def applyWindowUpdate (m : Manager) (streamId : StreamId) (increment : Int) : Manager :=
  m.handleWindowUpdate { flags := 0, streamId, windowSizeIncrement := increment }

def sendData (m : Manager) (streamId : StreamId) (data : Bytes) (endStream : Bool) : Manager :=
  match m.streams.get streamId with
  | none => m
  | some stream =>
      let stream := if 0 < data.length then { stream with sendQueue := stream.sendQueue ++ data } else stream
      let stream := if endStream then { stream with sendQueueEndStream := true } else stream
      (m.setStream stream).drainSendQueue stream

def expectResponse (m : Manager) (streamId : StreamId) (resolve reject : Callback) : Manager :=
  match m.streams.get streamId with
  | none => m.perform (.reject reject (.http2 (.rstStream streamId 0x1)))
  | some stream => m.setStream { stream with resolve := some resolve, reject := some reject }

def abortAll (m : Manager) (error : JsError) : Manager :=
  let m := m.forEachStream fun m stream =>
    let stream := { stream with state := .closed .normal }
    m.rejectStream stream error
  { m with streams := .empty }

end Manager

/-! ### Runs -/

/-- The operations the connection performs on its manager. -/
inductive ManagerOp where
  | openStream
  | dispatch (frame : Frame)
  | sendData (streamId : StreamId) (data : Bytes) (endStream : Bool)
  | applyWindowUpdate (streamId : StreamId) (increment : Int)
  | expectResponse (streamId : StreamId) (resolve reject : Callback)
  | abortAll (error : JsError)
  deriving DecidableEq

def Manager.step (m : Manager) : ManagerOp → Manager
  | .openStream => m.openStream.1
  | .dispatch frame => (m.dispatch frame).1
  | .sendData streamId data endStream => m.sendData streamId data endStream
  | .applyWindowUpdate streamId increment => m.applyWindowUpdate streamId increment
  | .expectResponse streamId resolve reject => m.expectResponse streamId resolve reject
  | .abortAll error => m.abortAll error

def Manager.steps (m : Manager) (ops : List ManagerOp) : Manager := ops.foldl Manager.step m

def Manager.run (ops : List ManagerOp) : Manager := Manager.create.steps ops

end BrowsercoreHttp2
