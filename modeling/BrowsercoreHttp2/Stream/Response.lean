import BrowsercoreHttp2.Stream.HeaderBlocks

/-!
# Responses

A response is interim header blocks, a final one, DATA frames and possibly a trailing block, the last
frame carrying END_STREAM. Every block goes through `decodePendingHeaders`, which replaces the headers of
the one before, so the request resolves with the headers of the last block: the final one, or the
trailers where there are any.
-/

namespace BrowsercoreHttp2

open ManagedStream

/-! ### Response sequences -/

/-- A header block as it is cut into frames: one HEADERS frame, or one and its CONTINUATION frames. -/
structure BlockFragments where
  first : Bytes
  continuations : Option (List Bytes × Bytes) := none

namespace BlockFragments

def block (b : BlockFragments) : Bytes :=
  match b.continuations with
  | none => b.first
  | some (middle, last) => b.first ++ (middle.flatten ++ last)

def frames (b : BlockFragments) (streamId : StreamId) (endStream : Bool) : List Frame :=
  match b.continuations with
  | none => [headersFrame streamId true endStream b.first]
  | some (middle, last) => splitBlock streamId endStream b.first middle last

/-- The block is one HEADERS frame. -/
def whole (b : BlockFragments) : Bool := b.continuations.isNone

end BlockFragments

/-- A DATA frame, its payload as it stands on the wire. -/
structure DataFragment where
  padded : Bool := false
  payload : Bytes

def DataFragment.frame (d : DataFragment) (streamId : StreamId) (endStream : Bool) : Frame :=
  .data { flags := (if d.padded then 0x8 else 0) ||| (if endStream then 0x1 else 0), streamId, payload := d.payload }

/-- What follows the final header block, and with it the place of END_STREAM. -/
inductive ResponseTail where
  | endOnHeaders
  | endOnData (data : List DataFragment) (last : DataFragment)
  | endOnTrailers (data : List DataFragment) (trailers : BlockFragments)

structure ResponseSequence where
  interim : List BlockFragments
  final : BlockFragments
  tail : ResponseTail

namespace ResponseSequence

def frames (r : ResponseSequence) (streamId : StreamId) : List Frame :=
  r.interim.flatMap (fun b => b.frames streamId false) ++
    match r.tail with
    | .endOnHeaders => r.final.frames streamId true
    | .endOnData data last =>
        r.final.frames streamId false ++ (data.map (fun d => d.frame streamId false) ++ [last.frame streamId true])
    | .endOnTrailers data trailers =>
        r.final.frames streamId false ++ (data.map (fun d => d.frame streamId false) ++ trailers.frames streamId true)

/-- The last header block of the sequence. -/
def lastBlock (r : ResponseSequence) : BlockFragments :=
  match r.tail with
  | .endOnTrailers _ trailers => trailers
  | _ => r.final

/-- END_STREAM is on a DATA frame, or on a HEADERS frame that is a block by itself. -/
def endsWhole (r : ResponseSequence) : Bool :=
  match r.tail with
  | .endOnHeaders => r.final.whole
  | .endOnData _ _ => true
  | .endOnTrailers _ trailers => trailers.whole

/-- Every block of the sequence decodes: the final one to `final`, the last one to `last`. -/
structure Decodes (r : ResponseSequence) (final last : HeaderMap) : Prop where
  interim : ∀ b ∈ r.interim, ∃ headers, decodeHeaders b.block = .ok headers
  final : decodeHeaders r.final.block = .ok final
  last : decodeHeaders r.lastBlock.block = .ok last

end ResponseSequence

/-! ### A stream receiving its response -/

namespace Manager

/-- A client stream between two frames of its response, with a callback registered. -/
structure Receiving (m : Manager) (st : ManagedStream) (callback : Callback) : Prop where
  get : m.streams.get st.id = some st
  client : st.isPushPromise = false
  opened : st.state = .opened
  unended : st.endStreamSeen = false
  collected : st.pendingHeaderBytes = []
  resolve : st.resolve = some callback
  route : m.continuationTarget st.id = st.id

/-- Between the two managers nothing but frames was sent. -/
def OnlySends (m m' : Manager) : Prop :=
  ∃ sent : List Frame, m'.effects = m.effects ++ sent.map .sendFrame

theorem OnlySends.refl (m : Manager) : OnlySends m m := ⟨[], (List.append_nil _).symm⟩

theorem OnlySends.of_eq {m m' : Manager} (h : m'.effects = m.effects) : OnlySends m m' :=
  ⟨[], h.trans (List.append_nil _).symm⟩

theorem OnlySends.trans {m m' m'' : Manager} (h : OnlySends m m') (h' : OnlySends m' m'') : OnlySends m m'' := by
  obtain ⟨sent, hsent⟩ := h
  obtain ⟨sent', hsent'⟩ := h'
  exact ⟨sent ++ sent', by rw [hsent', hsent, List.map_append, List.append_assoc]⟩

variable {m : Manager} {st : ManagedStream} {callback : Callback}

theorem Receiving.of_run (ops : List ManagerOp) (hget : (run ops).streams.get st.id = some st) (hclient : st.isPushPromise = false)
    (hresolve : st.resolve = some callback) (hunended : st.endStreamSeen = false) (hcollected : st.pendingHeaderBytes = [])
    (hroute : (run ops).continuationTarget st.id = st.id) : Receiving (run ops) st callback := by
  have hopened : st.state = .opened := by
    rw [run_clientState ops st (Table.mem_of_get hget) hclient, hunended]
    rfl
  exact ⟨hget, hclient, hopened, hunended, hcollected, hresolve, hroute⟩

theorem continuationDone_target {streamId : StreamId} (h : m.continuationTarget streamId = streamId) :
    (m.continuationDone streamId).continuationTarget streamId = streamId := by
  rw [continuationDone, clearPushContinuation]
  split
  · simp only [continuationTarget, Table.get_delete_self, Option.map_none, Option.getD_none]
  · exact h

theorem Receiving.setStream (h : Receiving m st callback) {m' : Manager} {st' : ManagedStream} (hid : st'.id = st.id)
    (hclient : st'.isPushPromise = st.isPushPromise) (hstate : st'.state = st.state)
    (hend : st'.endStreamSeen = st.endStreamSeen) (hcollected : st'.pendingHeaderBytes = [])
    (hresolve : st'.resolve = st.resolve) (hroute : m'.continuationTarget st.id = st.id) :
    Receiving (m'.setStream st') st' callback where
  get := Table.get_set_self m'.streams st'
  client := hclient.trans h.client
  opened := hstate.trans h.opened
  unended := hend.trans h.unended
  collected := hcollected
  resolve := hresolve.trans h.resolve
  route := by
    rw [hid]
    exact hroute

theorem Receiving.decode (h : Receiving m st callback) {block : Bytes} {headers : HeaderMap}
    (hdecode : decodeHeaders block = .ok headers) : decodeHeaders (st.pendingHeaderBytes ++ block) = .ok headers := by
  rw [h.collected, List.nil_append, hdecode]

theorem Receiving.not_reserved (h : Receiving m st callback) : st.state ≠ .remoteReserved := by
  rw [h.opened]
  decide

theorem Receiving.collected_append (h : Receiving m st callback) (first : Bytes) (middle : List Bytes) (last : Bytes) :
    (st.pushHeaderBytes (first ++ middle.flatten)).pendingHeaderBytes ++ last = first ++ (middle.flatten ++ last) := by
  rw [pushHeaderBytes, h.collected, List.nil_append, List.append_assoc]

/-- A header block without END_STREAM replaces the headers, however it is cut. -/
theorem Receiving.block (h : Receiving m st callback) (b : BlockFragments) {headers : HeaderMap}
    (hdecode : decodeHeaders b.block = .ok headers) :
    Receiving (m.dispatchAll (b.frames st.id false)) (st.withHeaders headers) callback ∧
      OnlySends m (m.dispatchAll (b.frames st.id false)) := by
  have hwaits : ∀ m' : Manager, m'.maybeResolveResponse (st.withHeaders headers) = m' := fun m' =>
    maybeResolveResponse_of_waiting m' fun _ hend => by
      rw [show (st.withHeaders headers).endStreamSeen = st.endStreamSeen from rfl, h.unended] at hend
      exact absurd hend (by decide)
  obtain ⟨first, continuations⟩ := b
  cases continuations with
  | none =>
      have hdecode : decodeHeaders first = .ok headers := hdecode
      have hrun : m.dispatchAll [headersFrame st.id true false first] = m.setStream (st.withHeaders headers) := by
        rw [dispatchAll_single_ok h.get h.not_reserved false (h.decode hdecode)]
        exact hwaits _
      simp only [BlockFragments.frames, hrun]
      exact ⟨h.setStream rfl rfl rfl rfl rfl rfl h.route, OnlySends.of_eq rfl⟩
  | some rest =>
      obtain ⟨middle, last⟩ := rest
      have hdecode : decodeHeaders (first ++ (middle.flatten ++ last)) = .ok headers := hdecode
      have hrun : m.dispatchAll (splitBlock st.id false first middle last) =
          (m.continuationDone st.id).setStream (st.withHeaders headers) := by
        rw [dispatchAll_splitBlock_ok h.route h.get h.client false (h.decode hdecode)]
        exact hwaits _
      simp only [BlockFragments.frames, hrun]
      exact ⟨h.setStream rfl rfl rfl rfl rfl rfl (continuationDone_target h.route),
        OnlySends.of_eq (continuationDone_effects m st.id)⟩

/-- The stream once a DATA payload is accounted for and buffered. -/
def afterData (st : ManagedStream) (frame : DataFrame) : ManagedStream :=
  let st := { st with remoteWindow := { st.remoteWindow with size := st.remoteWindow.size - frame.payload.length } }
  let data := stripPadding frame.flags frame.payload
  if 0 < data.length then { st with responseChunks := st.responseChunks ++ [data] } else st

/-- The manager once it has given back the credit of a DATA payload on an open stream. -/
def creditReturned (m : Manager) (frame : DataFrame) : Manager :=
  ({ m with connectionReceiveWindow := m.connectionReceiveWindow - frame.payload.length }.sendWindowUpdate 0
    frame.payload.length).sendWindowUpdate frame.streamId frame.payload.length

theorem creditReturned_onlySends (m : Manager) (frame : DataFrame) : OnlySends m (m.creditReturned frame) := by
  refine ⟨[.windowUpdate ⟨0, 0, frame.payload.length⟩, .windowUpdate ⟨0, frame.streamId, frame.payload.length⟩], ?_⟩
  simp [creditReturned, sendWindowUpdate, sendFrame, perform]

theorem afterData_eq (st : ManagedStream) (frame : DataFrame) :
    afterData st frame =
      { st with remoteWindow := (afterData st frame).remoteWindow, responseChunks := (afterData st frame).responseChunks } := by
  rw [afterData]
  dsimp only
  split <;> rfl

theorem handleData_opened {frame : DataFrame} (hget : m.streams.get frame.streamId = some st) (hopened : st.state = .opened) :
    m.handleData frame =
      if frame.flags &&& 0x1 ≠ 0 then
        let st' := { afterData st frame with endStreamSeen := true }.transitionOnEndStream
        ((m.creditReturned frame).setStream st').maybeResolveResponse st'
      else (m.creditReturned frame).setStream (afterData st frame) := by
  have hid : st.id = frame.streamId := Table.key_of_get hget
  simp only [handleData, hget, hopened, hid, afterData, creditReturned]

/-- Nothing was done but sending WINDOW_UPDATE frames. -/
def OnlyCredits (m m' : Manager) : Prop :=
  ∃ sent : List WindowUpdateFrame, m'.effects = m.effects ++ sent.map fun frame => .sendFrame (.windowUpdate frame)

theorem OnlyCredits.onlySends {m m' : Manager} (h : OnlyCredits m m') : OnlySends m m' := by
  obtain ⟨sent, hsent⟩ := h
  exact ⟨sent.map .windowUpdate, by rw [hsent, List.map_map]; rfl⟩

/-- A payload was taken off the connection's window and its credit sent back. -/
structure Accounted (m m' : Manager) (octets : Nat) : Prop where
  streams : m'.streams = m.streams
  nextStreamId : m'.nextStreamId = m.nextStreamId
  retired : m'.retired = m.retired
  connectionReceiveWindow : m'.connectionReceiveWindow = m.connectionReceiveWindow - octets
  credits : OnlyCredits m m'

/-- A DATA frame is accounted for before the stream is written back. -/
theorem handleData_eq {frame : DataFrame} (hget : m.streams.get frame.streamId = some st) :
    ∃ m₁ : Manager, m.Accounted m₁ frame.payload.length ∧
      m.handleData frame =
        if frame.flags &&& 0x1 ≠ 0 then
          let st' := { afterData st frame with endStreamSeen := true }.transitionOnEndStream
          (m₁.setStream st').maybeResolveResponse st'
        else m₁.setStream (afterData st frame) := by
  let credited := { m with connectionReceiveWindow := m.connectionReceiveWindow - frame.payload.length }.sendWindowUpdate 0
    frame.payload.length
  have hcredited : OnlyCredits m credited := ⟨[⟨0, 0, frame.payload.length⟩], rfl⟩
  by_cases hclosed : ∃ reason, st.state = .closed reason
  · obtain ⟨reason, hreason⟩ := hclosed
    exact ⟨credited, ⟨rfl, rfl, rfl, rfl, hcredited⟩, by simp only [handleData, hget, hreason, afterData, credited]⟩
  · have hboth : OnlyCredits m (credited.sendWindowUpdate st.id frame.payload.length) :=
      ⟨[⟨0, 0, frame.payload.length⟩, ⟨0, st.id, frame.payload.length⟩], List.append_assoc _ _ _⟩
    refine ⟨credited.sendWindowUpdate st.id frame.payload.length, ⟨rfl, rfl, rfl, rfl, hboth⟩, ?_⟩
    simp only [handleData, hget, afterData, credited]
    cases hstate : st.state with
    | closed reason => exact absurd ⟨reason, hstate⟩ hclosed
    | _ => rfl

theorem DataFragment_flags (d : DataFragment) (endStream : Bool) :
    ((if d.padded then 0x8 else 0) ||| (if endStream then 0x1 else 0)) &&& 0x1 ≠ 0 ↔ endStream = true := by
  cases d.padded <;> cases endStream <;> decide

theorem Receiving.dispatch_data (h : Receiving m st callback) (d : DataFragment) (endStream : Bool) :
    ∃ frame : DataFrame, m.dispatchAll [d.frame st.id endStream] =
      if endStream then
        let ended := { afterData st frame with endStreamSeen := true }.transitionOnEndStream
        ((m.creditReturned frame).setStream ended).maybeResolveResponse ended
      else (m.creditReturned frame).setStream (afterData st frame) := by
  let frame : DataFrame :=
    { flags := (if d.padded then 0x8 else 0) ||| (if endStream then 0x1 else 0), streamId := st.id, payload := d.payload }
  have hdata := @handleData_opened m st frame h.get h.opened
  simp only [frame, DataFragment_flags] at hdata
  exact ⟨frame, hdata⟩

theorem Receiving.data (h : Receiving m st callback) (d : DataFragment) :
    ∃ st', Receiving (m.dispatchAll [d.frame st.id false]) st' callback ∧ st'.id = st.id ∧
      st'.responseHeaders = st.responseHeaders ∧ st'.headersComplete = st.headersComplete ∧
      OnlySends m (m.dispatchAll [d.frame st.id false]) := by
  obtain ⟨frame, hrun⟩ := h.dispatch_data d false
  rw [if_neg Bool.false_ne_true] at hrun
  have hsame := afterData_eq st frame
  refine ⟨afterData st frame, ?_, by rw [hsame], by rw [hsame], by rw [hsame], ?_⟩
  · rw [hrun]
    refine h.setStream (by rw [hsame]) (by rw [hsame]) (by rw [hsame]) (by rw [hsame]) (by rw [hsame]; exact h.collected)
      (by rw [hsame]) ?_
    exact h.route
  · rw [hrun]
    exact creditReturned_onlySends m frame

theorem Receiving.dataAll (h : Receiving m st callback) (data : List DataFragment) :
    ∃ st', Receiving (m.dispatchAll (data.map fun d => d.frame st.id false)) st' callback ∧ st'.id = st.id ∧
      st'.responseHeaders = st.responseHeaders ∧ st'.headersComplete = st.headersComplete ∧
      OnlySends m (m.dispatchAll (data.map fun d => d.frame st.id false)) := by
  induction data generalizing m st with
  | nil => exact ⟨st, h, rfl, rfl, rfl, .refl m⟩
  | cons d data ih =>
      obtain ⟨st₁, h₁, hid₁, hheaders₁, hcomplete₁, hsends₁⟩ := h.data d
      obtain ⟨st₂, h₂, hid₂, hheaders₂, hcomplete₂, hsends₂⟩ := ih h₁
      rw [hid₁] at h₂ hsends₂
      exact ⟨st₂, h₂, hid₂.trans hid₁, hheaders₂.trans hheaders₁, hcomplete₂.trans hcomplete₁, hsends₁.trans hsends₂⟩

theorem Receiving.interimAll (h : Receiving m st callback) (interim : List BlockFragments)
    (hdecode : ∀ b ∈ interim, ∃ headers, decodeHeaders b.block = .ok headers) :
    ∃ st', Receiving (m.dispatchAll (interim.flatMap fun b => b.frames st.id false)) st' callback ∧ st'.id = st.id ∧
      OnlySends m (m.dispatchAll (interim.flatMap fun b => b.frames st.id false)) := by
  induction interim generalizing m st with
  | nil => exact ⟨st, h, rfl, .refl m⟩
  | cons b interim ih =>
      obtain ⟨headers, hheaders⟩ := hdecode b (by simp)
      obtain ⟨h₁, hsends₁⟩ := h.block b hheaders
      obtain ⟨st₂, h₂, hid₂, hsends₂⟩ := ih h₁ fun b' hb' => hdecode b' (by simp [hb'])
      rw [List.flatMap_cons, dispatchAll_append]
      exact ⟨st₂, h₂, hid₂, hsends₁.trans hsends₂⟩

/-! ### The frame that ends the stream -/

/-- The request was settled with this response, and only frames were sent before. -/
def ResolvedWith (m m' : Manager) (callback : Callback) (response : Http2Response) : Prop :=
  ∃ (sent : List Frame) (streamId : StreamId),
    m'.effects = m.effects ++ (sent.map .sendFrame ++ [.emitEvent (.streamClosed streamId), .resolve callback response])

theorem OnlySends.resolvedWith {m m' m'' : Manager} {response : Http2Response} (h : OnlySends m m')
    (h' : ResolvedWith m' m'' callback response) : ResolvedWith m m'' callback response := by
  obtain ⟨sent, hsent⟩ := h
  obtain ⟨sent', streamId, hsent'⟩ := h'
  exact ⟨sent ++ sent', streamId, by rw [hsent', hsent, List.map_append, List.append_assoc, List.append_assoc]⟩

theorem maybeResolveResponse_client_effects (m : Manager) (hclient : st.isPushPromise = false)
    (hheaders : st.headersComplete = true) (hend : st.endStreamSeen = true) (hresolve : st.resolve = some callback) :
    (m.maybeResolveResponse st).effects =
      m.effects ++ [.emitEvent (.streamClosed st.id), .resolve callback st.response] := by
  rw [(maybeResolveResponse_settles m hheaders hend hresolve).2, settlement, if_neg (by rw [hclient]; decide), List.nil_append]

theorem maybeResolveResponse_client (m : Manager) (hclient : st.isPushPromise = false) (hheaders : st.headersComplete = true)
    (hend : st.endStreamSeen = true) (hresolve : st.resolve = some callback) :
    ResolvedWith m (m.maybeResolveResponse st) callback st.response := by
  refine ⟨[], st.id, ?_⟩
  rw [maybeResolveResponse_client_effects m hclient hheaders hend hresolve, List.map_nil, List.nil_append]

/-- END_STREAM on a HEADERS frame that is a whole block: the request resolves with that block. -/
theorem Receiving.endOnBlock (h : Receiving m st callback) {block : Bytes} {headers : HeaderMap}
    (hdecode : decodeHeaders block = .ok headers) :
    ∃ body, ResolvedWith m (m.dispatchAll [headersFrame st.id true true block]) callback
      { statusCode := parseStatus headers, headers, body } := by
  rw [dispatchAll_single_ok h.get h.not_reserved true (h.decode hdecode)]
  have hclient : (afterHeaders st true headers).isPushPromise = false := by
    rw [afterHeaders]
    rw [if_pos rfl, transitionOnEndStream_isPushPromise]
    exact h.client
  have hresolved := maybeResolveResponse_client (m.setStream (afterHeaders st true headers)) hclient
    (afterHeaders_headersComplete st true headers) (by rw [afterHeaders_endStreamSeen, Bool.true_or])
    ((afterHeaders_resolve st true headers).trans h.resolve)
  refine ⟨(afterHeaders st true headers).responseChunks.flatten, ?_⟩
  have hresponse : (afterHeaders st true headers).response =
      { statusCode := parseStatus headers, headers, body := (afterHeaders st true headers).responseChunks.flatten } := by
    rw [response]
    rw [afterHeaders_responseHeaders]
  rw [← hresponse]
  exact (OnlySends.of_eq rfl).resolvedWith hresolved

/-- END_STREAM on a HEADERS frame whose block goes on in CONTINUATION frames: nothing is settled. -/
theorem Receiving.endOnSplitBlock (h : Receiving m st callback) {first last : Bytes} {middle : List Bytes}
    {headers : HeaderMap} (hdecode : decodeHeaders (first ++ (middle.flatten ++ last)) = .ok headers) :
    OnlySends m (m.dispatchAll (splitBlock st.id true first middle last)) := by
  rw [dispatchAll_splitBlock_ok h.route h.get h.client true (h.decode hdecode),
    maybeResolveResponse_of_waiting _ fun _ hend => by
      rw [show (st.withHeaders headers).endStreamSeen = st.endStreamSeen from rfl, h.unended] at hend
      exact absurd hend (by decide)]
  exact OnlySends.of_eq (continuationDone_effects m st.id)

/-- END_STREAM on a DATA frame: the request resolves with the headers the stream holds. -/
theorem Receiving.endOnData (h : Receiving m st callback) (hheaders : st.headersComplete = true) (d : DataFragment) :
    ∃ body, ResolvedWith m (m.dispatchAll [d.frame st.id true]) callback
      { statusCode := parseStatus st.responseHeaders, headers := st.responseHeaders, body } := by
  obtain ⟨frame, hrun⟩ := h.dispatch_data d true
  rw [if_pos rfl] at hrun
  have hsame := afterData_eq st frame
  rw [hrun]
  dsimp only
  generalize hended : ({ afterData st frame with endStreamSeen := true } : ManagedStream).transitionOnEndStream = ended
  have hfields : ended = { afterData st frame with endStreamSeen := true, state := ended.state } := by
    rw [← hended, transitionOnEndStream_eq]
  have hresolved := @maybeResolveResponse_client ended callback ((m.creditReturned frame).setStream ended)
    (by rw [hfields, hsame]; exact h.client) (by rw [hfields, hsame]; exact hheaders) (by rw [hfields])
    (by rw [hfields, hsame]; exact h.resolve)
  refine ⟨ended.responseChunks.flatten, ?_⟩
  have hresponse : ended.response =
      { statusCode := parseStatus st.responseHeaders, headers := st.responseHeaders, body := ended.responseChunks.flatten } := by
    rw [response]
    rw [show ended.responseHeaders = st.responseHeaders by rw [hfields, hsame]]
  rw [← hresponse]
  exact (creditReturned_onlySends m frame).resolvedWith hresolved

/-! ### A whole response -/

/-- The request was settled with the headers of a block that ended the stream, if that block was whole. -/
def Answered (m m' : Manager) (callback : Callback) (whole : Bool) (headers : HeaderMap) : Prop :=
  match whole with
  | true => ∃ body, ResolvedWith m m' callback { statusCode := parseStatus headers, headers, body }
  | false => OnlySends m m'

theorem OnlySends.answered {m m' m'' : Manager} {whole : Bool} {headers : HeaderMap} (h : OnlySends m m')
    (h' : Answered m' m'' callback whole headers) : Answered m m'' callback whole headers := by
  cases whole with
  | true =>
      obtain ⟨body, hresolved⟩ := h'
      exact ⟨body, h.resolvedWith hresolved⟩
  | false => exact h.trans h'

theorem Receiving.endOnFragments (h : Receiving m st callback) (b : BlockFragments) {headers : HeaderMap}
    (hdecode : decodeHeaders b.block = .ok headers) :
    Answered m (m.dispatchAll (b.frames st.id true)) callback b.whole headers := by
  obtain ⟨first, continuations⟩ := b
  cases continuations with
  | none => exact h.endOnBlock hdecode
  | some rest => exact h.endOnSplitBlock hdecode

theorem Receiving.finalAndData (h : Receiving m st callback) (b : BlockFragments) {final : HeaderMap}
    (hdecode : decodeHeaders b.block = .ok final) (data : List DataFragment) :
    ∃ st', Receiving (m.dispatchAll (b.frames st.id false ++ data.map fun d => d.frame st.id false)) st' callback ∧
      st'.id = st.id ∧ st'.responseHeaders = final ∧ st'.headersComplete = true ∧
      OnlySends m (m.dispatchAll (b.frames st.id false ++ data.map fun d => d.frame st.id false)) := by
  obtain ⟨hblock, hsends⟩ := h.block b hdecode
  obtain ⟨st', h', hid, hheaders, hcomplete, hsends'⟩ := hblock.dataAll data
  rw [dispatchAll_append]
  exact ⟨st', h', hid, hheaders, hcomplete, hsends.trans hsends'⟩

/-- The request resolves with the headers of the last block, unless that block carries END_STREAM and is
split, in which case nothing is settled. -/
theorem Receiving.response (h : Receiving m st callback) (r : ResponseSequence) {final last : HeaderMap}
    (hdecodes : r.Decodes final last) : Answered m (m.dispatchAll (r.frames st.id)) callback r.endsWhole last := by
  obtain ⟨st₁, h₁, hid₁, hsends₁⟩ := h.interimAll r.interim hdecodes.interim
  obtain ⟨interim, finalBlock, tail⟩ := r
  rw [ResponseSequence.frames, dispatchAll_append]
  refine hsends₁.answered ?_
  rw [← hid₁] at h₁ ⊢
  cases tail with
  | endOnHeaders => exact h₁.endOnFragments finalBlock hdecodes.last
  | endOnData data lastData =>
      obtain ⟨st₂, h₂, hid₂, hheaders₂, hcomplete₂, hsends₂⟩ := h₁.finalAndData finalBlock hdecodes.final data
      have hlast : st₂.responseHeaders = last := hheaders₂.trans (Except.ok.inj (hdecodes.final.symm.trans hdecodes.last))
      obtain ⟨body, hresolved⟩ := h₂.endOnData hcomplete₂ lastData
      rw [hlast, hid₂] at hresolved
      simp only [← List.append_assoc]
      rw [dispatchAll_append]
      exact hsends₂.answered ⟨body, hresolved⟩
  | endOnTrailers data trailers =>
      obtain ⟨st₂, h₂, hid₂, -, -, hsends₂⟩ := h₁.finalAndData finalBlock hdecodes.final data
      have hanswered := h₂.endOnFragments trailers hdecodes.last
      rw [hid₂] at hanswered
      simp only [← List.append_assoc]
      rw [dispatchAll_append]
      exact hsends₂.answered hanswered

end Manager

/-! ### What the request resolves with -/

/-- The responses a callback was given, in order. -/
def responsesTo (callback : Callback) (effects : List Effect) : List Http2Response :=
  effects.filterMap fun
    | .resolve c response => if c = callback then some response else none
    | _ => none

/-- The response has the status of these headers and all their fields. -/
def Http2Response.Carries (response : Http2Response) (headers : HeaderMap) : Prop :=
  response.statusCode = parseStatus headers ∧ ∀ field ∈ headers.entries, response.headers.value field.1 = some field.2

instance (response : Http2Response) (headers : HeaderMap) : Decidable (response.Carries headers) :=
  inferInstanceAs (Decidable (_ ∧ _))

theorem responsesTo_append (callback : Callback) (effects effects' : List Effect) :
    responsesTo callback (effects ++ effects') = responsesTo callback effects ++ responsesTo callback effects' :=
  List.filterMap_append

theorem responsesTo_sent (callback : Callback) (sent : List Frame) : responsesTo callback (sent.map .sendFrame) = [] := by
  induction sent with
  | nil => rfl
  | cons frame sent ih => exact ih

theorem Manager.OnlySends.responses {m m' : Manager} (h : Manager.OnlySends m m') (callback : Callback) :
    responsesTo callback (m'.effects.drop m.effects.length) = [] := by
  obtain ⟨sent, hsent⟩ := h
  rw [hsent, List.drop_left, responsesTo_sent]

theorem Manager.ResolvedWith.responses {m m' : Manager} {callback : Callback} {response : Http2Response}
    (h : Manager.ResolvedWith m m' callback response) :
    responsesTo callback (m'.effects.drop m.effects.length) = [response] := by
  obtain ⟨sent, streamId, hsent⟩ := h
  rw [hsent, List.drop_left, responsesTo_append, responsesTo_sent]
  simp [responsesTo]

/-- The final headers come through: END_STREAM is not on a split block, and trailers, where there are any,
repeat the status and every field of the final block. -/
def ResponseSequence.FinalKept (r : ResponseSequence) (final last : HeaderMap) : Prop :=
  r.endsWhole = true ∧ parseStatus last = parseStatus final ∧
    ∀ field ∈ final.entries, last.value field.1 = some field.2

/-- In every run, for every client stream whose response is expected and not yet begun to end, and every
response sequence, the request resolves with the status and the fields of the final header block exactly
when `FinalKept` holds. -/
theorem final_headers_win_iff (ops : List ManagerOp) (st : ManagedStream) (callback : Callback) (r : ResponseSequence)
    (final last : HeaderMap) (hget : (Manager.run ops).streams.get st.id = some st) (hclient : st.isPushPromise = false)
    (hresolve : st.resolve = some callback) (hunended : st.endStreamSeen = false) (hcollected : st.pendingHeaderBytes = [])
    (hroute : (Manager.run ops).continuationTarget st.id = st.id) (hdecodes : r.Decodes final last) :
    (∃ response ∈ responsesTo callback
        (((Manager.run ops).dispatchAll (r.frames st.id)).effects.drop (Manager.run ops).effects.length),
      response.Carries final) ↔ r.FinalKept final last := by
  have hreceiving := Manager.Receiving.of_run ops hget hclient hresolve hunended hcollected hroute
  have hrun := hreceiving.response r hdecodes
  rw [ResponseSequence.FinalKept]
  cases hwhole : r.endsWhole with
  | true =>
      rw [hwhole] at hrun
      obtain ⟨body, hresolved⟩ := hrun
      rw [hresolved.responses]
      simp only [List.mem_singleton, exists_eq_left, Http2Response.Carries, true_and]
  | false =>
      rw [hwhole] at hrun
      rw [Manager.OnlySends.responses hrun]
      simp

/-- A header block of one field, a literal with a new name. -/
def literalBlock (name value : String) : Bytes :=
  0x00 :: ((name.length.toUInt8 :: name.toUTF8.toList) ++ (value.length.toUInt8 :: value.toUTF8.toList))

/-- A 404 response whose trailers carry another field. -/
def responseWithTrailers : ResponseSequence where
  interim := []
  final := ⟨literalBlock ":status" "404", none⟩
  tail := .endOnTrailers [] ⟨literalBlock "grpc-status" "0", none⟩

theorem final_headers_win_iff_trailers :
    (∃ response ∈ responsesTo 0 (((Manager.run [.openStream, .expectResponse 1 0 0]).dispatchAll
        (responseWithTrailers.frames 1)).effects.drop (Manager.run [.openStream, .expectResponse 1 0 0]).effects.length),
      response.Carries (Table.empty.set (":status", "404"))) ↔
      responseWithTrailers.FinalKept (Table.empty.set (":status", "404")) (Table.empty.set ("grpc-status", "0")) :=
  final_headers_win_iff [.openStream, .expectResponse 1 0 0] expectingStream 0 responseWithTrailers _ _ (by decide +kernel) rfl rfl
    rfl rfl (by decide +kernel) ⟨by simp [responseWithTrailers], by decide +kernel, by decide +kernel⟩

/-- The 404 is reported as a 200 without a `:status` field. -/
theorem trailers_replace_final_headers :
    decodeHeaders responseWithTrailers.final.block = .ok (Table.empty.set (":status", "404")) ∧
      ¬ ∃ response ∈ responsesTo 0 (((Manager.run [.openStream, .expectResponse 1 0 0]).dispatchAll
          (responseWithTrailers.frames 1)).effects.drop (Manager.run [.openStream, .expectResponse 1 0 0]).effects.length),
        response.Carries (Table.empty.set (":status", "404")) := by
  constructor <;> decide +kernel

end BrowsercoreHttp2
