import BrowsercoreHttp2.Stream.Manager

/-!
# The connection

`Http2ConnectionImpl` over its stream manager. A call of `request()` runs in pieces: up to the first
`await`, after the resolver of a slot waiter was called, and after `acquireSlot` returned. Each piece is a
step of its own, and so are the other calls, the frames the read loop gets and the timers; any step may
come before any other.

A promise is named by a number, and what happens to it, to the wire and to the transport is recorded in
order in `effects`.
-/

namespace BrowsercoreHttp2

/-! ### Options and calls -/

/-- The options that shape request header blocks. -/
structure Http2Options where
  pseudoHeaderOrder : Option (List String) := none
  headerOrder : Option (List String) := none
  hpackHuffman : Option Bool := none
  hpackIndexing : Option Bool := none
  hpackMaxTableSize : Option Int := none
  deriving DecidableEq

/-- A call of `request()` and the promise it returned. -/
structure RequestCall where
  req : Http2Request
  promise : Callback
  deriving DecidableEq

/-- A `pingAck` listener: the promise it resolves and the data it waits for. -/
structure PingHandler where
  promise : Callback
  data : Nat
  deriving DecidableEq

/-- A `waitForSettingsAck` whose timer and whose listener are still set. -/
structure SettingsAckWait where
  promise : Callback
  timeoutMs : Nat
  deriving DecidableEq

inductive ConnectionEffect where
  | manager (effect : Effect)
  | sendFrame (frame : Frame)
  | reject (promise : Callback) (error : JsError)
  | resolvePing (promise : Callback) (data : Nat)
  | resolveSettingsAck (promise : Callback)
  | closeTransport
  deriving DecidableEq

abbrev StreamIdSet := Table (id : StreamId → StreamId)

structure Http2Connection where
  options : Http2Options
  manager : Manager := .create
  closing : Bool := false
  closed : Bool := false
  receivedGoaway : Option (StreamId × Nat × Bytes) := none
  activeClientStreams : StreamIdSet := .empty
  slotWaiters : List RequestCall := []
  /-- Calls whose waiter has been called and that have not run since. -/
  woken : List RequestCall := []
  /-- Calls that `acquireSlot` has let through and that have not run since. -/
  granted : List RequestCall := []
  settingsAckReject : Option Callback := none
  settingsAckWaits : List SettingsAckWait := []
  pingHandlers : List PingHandler := []
  /-- The read loop is waiting for a frame. -/
  reading : Bool := true
  effects : List ConnectionEffect := []
  deriving DecidableEq

namespace Http2Connection

def perform (c : Http2Connection) (effect : ConnectionEffect) : Http2Connection := { c with effects := c.effects ++ [effect] }

def sendFrame (c : Http2Connection) (frame : Frame) : Http2Connection := c.perform (.sendFrame frame)

/-! ### Request headers -/

def pseudoSources (req : Http2Request) : List (String × String) :=
  [(":method", req.method), (":scheme", req.scheme), (":authority", req.authority), (":path", req.path)]

def pseudoHeaders (options : Http2Options) (req : Http2Request) : HeaderMap :=
  match options.pseudoHeaderOrder with
  | none => (pseudoSources req).foldl Table.set .empty
  | some pseudoOrder =>
      let headers : HeaderMap := pseudoOrder.foldl (fun headers name =>
        match (pseudoSources req).find? fun source => source.1 = name with
        | some source => headers.set source
        | none => headers) .empty
      -- Append any pseudo-headers not listed in the explicit order.
      (pseudoSources req).foldl (fun headers source =>
        if !pseudoOrder.contains source.1 && !headers.contains source.1 then headers.set source else headers) headers

/-- The ordered request header map: pseudo-headers first, then the request's own. -/
def buildRequestHeaders (options : Http2Options) (req : Http2Request) : HeaderMap :=
  let headers := pseudoHeaders options req
  match options.headerOrder with
  | none => req.headers.entries.foldl Table.set headers
  | some headerOrder =>
      let (headers, seen) := headerOrder.foldl (fun (headers, seen) name =>
        match req.headers.value name with
        | some value => (headers.set (name, value), name :: seen)
        | none => (headers, seen)) (headers, ([] : List String))
      -- Append remaining headers not covered by the explicit order.
      req.headers.entries.foldl (fun headers field => if !seen.contains field.1 then headers.set field else headers) headers

def requestHeadersFrame (streamId : StreamId) (endStream : Bool) (payload : Bytes) : HeadersFrame where
  flags := 0x4 ||| (if endStream then 0x1 else 0)
  streamId := streamId
  endHeaders := true
  endStream := endStream
  padded := false
  payload := payload

/-- Encode and send the HEADERS frame of a request. Encoding may throw, and then nothing is sent. -/
def sendHeaders (c : Http2Connection) (streamId : StreamId) (req : Http2Request) (endStream : Bool) :
    Http2Connection × Option JsError :=
  let encoded := encodeHeaders (buildRequestHeaders c.options req)
    { indexing := c.options.hpackIndexing, useHuffman := c.options.hpackHuffman, maxTableSize := c.options.hpackMaxTableSize }
  match encoded with
  | .error e => (c, some (.hpack e))
  | .ok payload => (c.sendFrame (.headers (requestHeadersFrame streamId endStream payload)), none)

/-! ### The slot pool -/

/-- Release one slot and wake a waiter, if any. -/
def releaseSlot (c : Http2Connection) : Http2Connection :=
  match c.slotWaiters with
  | [] => c
  | waiter :: slotWaiters => { c with slotWaiters, woken := c.woken ++ [waiter] }

/-- Wake every waiting request. -/
def drainSlotWaiters (c : Http2Connection) : Http2Connection :=
  { c with slotWaiters := [], woken := c.woken ++ c.slotWaiters }

def onStreamClosed (c : Http2Connection) (streamId : StreamId) : Http2Connection :=
  if c.activeClientStreams.contains streamId then
    { c with activeClientStreams := c.activeClientStreams.delete streamId }.releaseSlot
  else c

/-- The condition on which `acquireSlot` leaves its loop. -/
def slotFree (c : Http2Connection) : Bool :=
  c.closing || c.closed || c.activeClientStreams.entries.length < c.manager.maxConcurrentStreams

/-- Go through the loop of `acquireSlot` once: return, or wait for a slot to free. -/
def acquireSlot (c : Http2Connection) (call : RequestCall) : Http2Connection :=
  if c.slotFree then { c with granted := c.granted ++ [call] }
  else { c with slotWaiters := c.slotWaiters ++ [call] }

/-- The error to raise for a request that cannot proceed because the connection is closing. -/
def closingError (c : Http2Connection) : JsError :=
  match c.receivedGoaway with
  | none => .http2 .connectionClosed
  | some (lastStreamId, errorCode, debugData) => .http2 (.goawayReceived lastStreamId errorCode debugData)

/-! ### Listening to the manager -/

/-- The `pingAck` listeners: the ones that wait for this data resolve and remove themselves. -/
def onPingAck (c : Http2Connection) (acked : Nat) : Http2Connection :=
  let resolved := c.pingHandlers.filter fun handler => handler.data = acked
  { c with
    pingHandlers := c.pingHandlers.filter fun handler => handler.data ≠ acked
    effects := c.effects ++ resolved.map fun handler => .resolvePing handler.promise acked }

/-- The `settingsAck` listeners. -/
def onSettingsAck (c : Http2Connection) : Http2Connection :=
  if c.settingsAckWaits = [] then c
  else
    { c with
      settingsAckReject := none
      settingsAckWaits := []
      effects := c.effects ++ c.settingsAckWaits.map fun wait => .resolveSettingsAck wait.promise }

def onEvent (c : Http2Connection) : Event → Http2Connection
  | .goaway lastStreamId errorCode debugData =>
      { c with receivedGoaway := some (lastStreamId, errorCode, debugData), closing := true }
  | .streamClosed streamId => c.onStreamClosed streamId
  | .pingAck opaqueData => c.onPingAck opaqueData
  | .settingsAck => c.onSettingsAck
  | .push _ _ | .pushResponse _ _ => c

def onEffect (c : Http2Connection) (effect : Effect) : Http2Connection :=
  let c := c.perform (.manager effect)
  match effect with
  | .emitEvent event => c.onEvent event
  | _ => c

/-- The connection once its manager has come to be `m`: the listeners have heard what the manager did. They
do not call back into it. -/
def managed (c : Http2Connection) (m : Manager) : Http2Connection :=
  (m.effects.drop c.manager.effects.length).foldl onEffect { c with manager := m }

def manage (c : Http2Connection) (op : ManagerOp) : Http2Connection := c.managed (c.manager.step op)

/-! ### Requests -/

/-- `request()` up to its first `await`. -/
def request (c : Http2Connection) (call : RequestCall) : Http2Connection :=
  if c.closing || c.closed then c.perform (.reject call.promise c.closingError)
  else c.acquireSlot call

/-- The loop of `acquireSlot` goes on after its waiter was called. -/
def wake (c : Http2Connection) (call : RequestCall) : Http2Connection :=
  if call ∈ c.woken then { c with woken := c.woken.erase call }.acquireSlot call else c

/-- `manager.openStream()` and `activeClientStreams.add`. -/
def openRequestStream (c : Http2Connection) : Http2Connection :=
  let c' := c.manage .openStream
  { c' with activeClientStreams := c'.activeClientStreams.set c.manager.nextStreamId }

/-- The executor of the promise `request()` returns. What it throws rejects the promise. -/
def executeRequest (c : Http2Connection) (streamId : StreamId) (call : RequestCall) : Http2Connection :=
  let endStreamNoBody := call.req.body.all (·.length = 0)
  if c.closing || c.closed then
    let c := { c with activeClientStreams := c.activeClientStreams.delete streamId }.releaseSlot
    c.perform (.reject call.promise c.closingError)
  else
    match (c.manage (.expectResponse streamId call.promise call.promise)).sendHeaders streamId call.req endStreamNoBody with
    | (c, some e) => c.perform (.reject call.promise e)
    | (c, none) => if endStreamNoBody then c else c.manage (.sendData streamId (call.req.body.getD []) true)

/-- `request()` goes on after `acquireSlot` returned. -/
def resume (c : Http2Connection) (call : RequestCall) : Http2Connection :=
  if call ∈ c.granted then
    { c with granted := c.granted.erase call }.openRequestStream.executeRequest c.manager.nextStreamId call
  else c

/-! ### Shutdown -/

def goawayFrame (lastStreamId : StreamId) (errorCode : Nat) (debugData : Bytes) : Frame :=
  .goaway { flags := 0, streamId := 0, lastStreamId, errorCode, debugData }

def goaway (c : Http2Connection) (lastStreamId : StreamId) (errorCode : Nat) (debugData : Bytes) : Http2Connection :=
  { c with closing := true }.sendFrame (goawayFrame lastStreamId errorCode debugData)

/-- Reject what is in flight and let every waiting request run into the closed connection. -/
def tearDown (c : Http2Connection) (error : JsError) : Http2Connection :=
  let c := c.manage (.abortAll error)
  { { c with activeClientStreams := .empty }.drainSlotWaiters with closed := true }

def close (c : Http2Connection) : Http2Connection :=
  if c.closed then c
  else ((c.goaway 0 0 []).tearDown (.http2 .connectionClosed)).perform .closeTransport

/-- Tear the connection down on a transport or dispatch error. -/
def handleFatal (c : Http2Connection) (err : JsError) : Http2Connection :=
  if c.closed then c
  else
    let c := { c with closing := true }
    let c := match c.settingsAckReject with
      | some promise => { c with settingsAckReject := none }.perform (.reject promise err)
      | none => c
    c.tearDown err

/-! ### Pings, settings and the read loop -/

/-- `ping()` with its opaque data, given or drawn. -/
def ping (c : Http2Connection) (promise : Callback) (data : Nat) : Http2Connection :=
  if c.closed then c.perform (.reject promise (.http2 .connectionClosed))
  else
    { c with pingHandlers := c.pingHandlers ++ [({ promise, data } : PingHandler)] }.sendFrame
      (.ping { flags := 0, streamId := 0, ack := false, opaqueData := data })

def waitForSettingsAck (c : Http2Connection) (promise : Callback) (timeoutMs : Nat) : Http2Connection :=
  { c with settingsAckReject := some promise, settingsAckWaits := c.settingsAckWaits ++ [({ promise, timeoutMs } : SettingsAckWait)] }

/-- The timer of a wait runs out. -/
def settingsAckTimeout (c : Http2Connection) (wait : SettingsAckWait) : Http2Connection :=
  if wait ∈ c.settingsAckWaits then
    { c with settingsAckReject := none, settingsAckWaits := c.settingsAckWaits.erase wait }.perform
      (.reject wait.promise (.http2 (.settingsAckTimeout wait.timeoutMs)))
  else c

/-- The read loop gets a frame: it dispatches it and goes on unless dispatching threw or the connection
is closed. -/
def receiveFrame (c : Http2Connection) (frame : Frame) : Http2Connection :=
  if c.reading then
    match c.manager.dispatch frame with
    | (m, none) =>
        let c := c.managed m
        { c with reading := !c.closed }
    | (m, some e) => { (c.managed m).handleFatal e with reading := false }
  else c

/-- Reading or parsing a frame fails. -/
def readError (c : Http2Connection) (err : JsError) : Http2Connection :=
  if c.reading then { c.handleFatal err with reading := false } else c

end Http2Connection

/-! ### Runs -/

inductive ConnectionStep where
  | request (call : RequestCall)
  | wake (call : RequestCall)
  | resume (call : RequestCall)
  | goaway (lastStreamId : StreamId) (errorCode : Nat) (debugData : Bytes)
  | close
  | ping (promise : Callback) (data : Nat)
  | waitForSettingsAck (promise : Callback) (timeoutMs : Nat)
  | settingsAckTimeout (wait : SettingsAckWait)
  | receiveFrame (frame : Frame)
  | readError (err : JsError)
  deriving DecidableEq

namespace Http2Connection

def step (c : Http2Connection) : ConnectionStep → Http2Connection
  | .request call => c.request call
  | .wake call => c.wake call
  | .resume call => c.resume call
  | .goaway lastStreamId errorCode debugData => c.goaway lastStreamId errorCode debugData
  | .close => c.close
  | .ping promise data => c.ping promise data
  | .waitForSettingsAck promise timeoutMs => c.waitForSettingsAck promise timeoutMs
  | .settingsAckTimeout wait => c.settingsAckTimeout wait
  | .receiveFrame frame => c.receiveFrame frame
  | .readError err => c.readError err

def steps (c : Http2Connection) (s : List ConnectionStep) : Http2Connection := s.foldl step c

/-- A connection whose read loop has been started, after these steps. -/
def run (options : Http2Options) (s : List ConnectionStep) : Http2Connection := steps { options } s

end Http2Connection

end BrowsercoreHttp2
