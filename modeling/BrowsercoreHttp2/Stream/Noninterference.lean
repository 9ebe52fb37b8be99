import BrowsercoreHttp2.Library.Runs
import BrowsercoreHttp2.Stream.Departures

/-!
# Streams do not interfere

The streams of a connection share tables, windows and an event bus, but what settles a request comes from
the frames of its own stream. Seen from one stream, the manager is a receiver that collects a header block
and a body and settles one promise: every operation moves what is seen of it by `react`, which looks at
nothing else. Whatever `react` ignores can then be left out of a run.

Two frames are not among the operations. PUSH_PROMISE diverts CONTINUATION frames between streams, and
GOAWAY rejects streams it is not addressed to.
-/

namespace BrowsercoreHttp2

open Relation

/-! ### A receiver -/

/-- What bears on the response of a stream: the headers once there are some, the body so far, the octets of
a header block that is not complete, and whether the peer has ended the stream. -/
structure Receiver where
  headers : Option HeaderMap
  body : Bytes
  block : Bytes
  ended : Bool
  resolve : Option Callback
  reject : Option Callback
  deriving DecidableEq

def Receiver.fresh : Receiver := ⟨none, [], [], false, none, none⟩

def ManagedStream.receiver (st : ManagedStream) : Receiver where
  headers := if st.headersComplete then some st.responseHeaders else none
  body := st.responseChunks.flatten
  block := st.pendingHeaderBytes
  ended := st.endStreamSeen
  resolve := st.resolve
  reject := st.reject

/-- A stream and the callbacks of the promise that waits for its response. -/
structure Exchange where
  streamId : StreamId
  resolve : Callback
  reject : Callback

/-- What is seen of a manager from one stream. -/
structure ExchangeView where
  nextStreamId : Nat
  receiver : Option Receiver
  outcome : List (Except JsError Http2Response)
  deriving DecidableEq

namespace Exchange

/-- How an effect settles the promise, if it does. -/
def settlement (x : Exchange) : Effect → Option (Except JsError Http2Response)
  | .resolve callback response => if callback = x.resolve then some (.ok response) else none
  | .reject callback error => if callback = x.reject then some (.error error) else none
  | _ => none

/-- What became of the promise: nothing yet, a response or an error. -/
def outcome (x : Exchange) (effects : List Effect) : List (Except JsError Http2Response) := effects.filterMap x.settlement

def view (x : Exchange) (m : Manager) : ExchangeView where
  nextStreamId := m.nextStreamId
  receiver := (m.streams.get x.streamId).map ManagedStream.receiver
  outcome := x.outcome m.effects

/-! ### How it reacts -/

def receive (v : ExchangeView) (rc : Receiver) : ExchangeView := { v with receiver := some rc }

/-- The stream leaves the table, and an effect is done. -/
def depart (x : Exchange) (v : ExchangeView) (effect : Option Effect) : ExchangeView :=
  { v with receiver := none, outcome := v.outcome ++ x.outcome effect.toList }

/-- Resolve the promise if there is one and the response is complete. -/
def settle (x : Exchange) (v : ExchangeView) (rc : Receiver) : ExchangeView :=
  match rc.headers, rc.ended, rc.resolve with
  | some headers, true, some callback => x.depart v (some (.resolve callback ⟨parseStatus headers, headers, rc.body⟩))
  | _, _, _ => receive v rc

def fail (x : Exchange) (v : ExchangeView) (rc : Receiver) (error : JsError) : ExchangeView :=
  x.depart v (rc.reject.map fun callback => .reject callback error)

/-- A piece of a header block. -/
def receiveBlock (x : Exchange) (v : ExchangeView) (rc : Receiver) (payload : Bytes) (endHeaders endStream : Bool) : ExchangeView :=
  if !endHeaders then receive v { rc with block := rc.block ++ payload }
  else
    match decodeHeaders (rc.block ++ payload) with
    | .error _ => receive v { rc with block := [] }
    | .ok headers => x.settle v { rc with block := [], headers := some headers, ended := rc.ended || endStream }

def receiveFrame (x : Exchange) (v : ExchangeView) (rc : Receiver) : Frame → ExchangeView
  | .data frame =>
      let rc := { rc with body := rc.body ++ Manager.stripPadding frame.flags frame.payload }
      if frame.flags &&& 0x1 ≠ 0 then x.settle v { rc with ended := true } else receive v rc
  | .headers frame => x.receiveBlock v rc frame.payload frame.endHeaders frame.endStream
  | .continuation frame => x.receiveBlock v rc frame.payload frame.endHeaders false
  | .rstStream frame => x.fail v rc (.http2 (.rstStream frame.streamId frame.errorCode))
  | _ => v

/-- What an operation does to what is seen. -/
def react (x : Exchange) (v : ExchangeView) : ManagerOp → ExchangeView
  | .openStream =>
      { v with
        nextStreamId := v.nextStreamId + 2
        receiver := if v.nextStreamId = x.streamId then some .fresh else v.receiver }
  | .dispatch frame =>
      match v.receiver with
      | some rc => if frame.streamId = x.streamId then x.receiveFrame v rc frame else v
      | none => v
  | .expectResponse streamId resolve reject =>
      if streamId = x.streamId then
        match v.receiver with
        | some rc => receive v { rc with resolve := some resolve, reject := some reject }
        | none => x.depart v (some (.reject reject (.http2 (.rstStream streamId 0x1))))
      else v
  | .abortAll error =>
      match v.receiver with
      | some rc => x.fail v rc error
      | none => v
  | .sendData _ _ _ | .applyWindowUpdate _ _ => v

/-! ### The manager's pieces, seen from the stream -/

variable {x : Exchange} {m m' : Manager} {st : ManagedStream}

theorem outcome_append (effects effects' : List Effect) : x.outcome (effects ++ effects') = x.outcome effects ++ x.outcome effects' :=
  List.filterMap_append

@[simp] theorem outcome_nil : x.outcome [] = [] := rfl

theorem outcome_of_settlement {effect : Effect} (h : x.settlement effect = none) : x.outcome [effect] = [] :=
  List.filterMap_cons_none h

theorem view_perform (m : Manager) {effect : Effect} (h : x.settlement effect = none) : x.view (m.perform effect) = x.view m := by
  simp only [view, Manager.perform, outcome_append, outcome_of_settlement h, List.append_nil]

theorem view_onlySends (hstreams : m'.streams = m.streams) (hnext : m'.nextStreamId = m.nextStreamId) (h : Manager.OnlySends m m') :
    x.view m' = x.view m := by
  obtain ⟨sent, hsent⟩ := h
  have hsilent : x.outcome (sent.map .sendFrame) = [] := by
    refine List.filterMap_eq_nil_iff.mpr fun effect hmem => ?_
    obtain ⟨frame, -, rfl⟩ := List.mem_map.mp hmem
    rfl
  simp only [view, hstreams, hnext, hsent, outcome_append, hsilent, List.append_nil]

theorem view_setStream (m : Manager) (st : ManagedStream) :
    x.view (m.setStream st) = if st.id = x.streamId then receive (x.view m) st.receiver else x.view m := by
  simp only [view, receive, Manager.setStream, Table.get_set]
  split <;> rfl

theorem view_setStream_same (hget : m.streams.get st.id = some st) {st' : ManagedStream} (hid : st'.id = st.id)
    (h : st'.receiver = st.receiver) : x.view (m.setStream st') = x.view m := by
  rw [view_setStream]
  split
  · rename_i hown
    have hsame : (x.view m).receiver = some st'.receiver := by
      rw [h, view, ← hown, hid, hget, Option.map_some]
    rw [receive, ← hsame]
  · rfl

theorem view_finalizeStream (m : Manager) (st : ManagedStream) :
    x.view (m.finalizeStream st) = if st.id = x.streamId then x.depart (x.view m) none else x.view m := by
  rw [Manager.finalizeStream, Manager.emitEvent, view_perform _ rfl]
  simp only [view, depart, Table.get_delete]
  split
  · rename_i hown
    rw [if_pos hown.symm, Option.toList_none, outcome_nil, List.append_nil, Option.map_none]
  · rename_i hother
    rw [if_neg (Ne.symm hother)]

theorem view_finalizeStream_perform (m : Manager) (st : ManagedStream) {effect : Effect}
    (hother : st.id ≠ x.streamId → x.settlement effect = none) :
    x.view ((m.finalizeStream st).perform effect) =
      if st.id = x.streamId then x.depart (x.view m) (some effect) else x.view m := by
  split
  · rename_i hown
    have hgone := @view_finalizeStream x m st
    rw [if_pos hown] at hgone
    simp only [view, depart, ExchangeView.mk.injEq, Manager.perform, outcome_append, outcome_nil, Option.toList_none,
      Option.toList_some, List.append_nil] at hgone ⊢
    obtain ⟨hnext, hreceiver, houtcome⟩ := hgone
    exact ⟨hnext, hreceiver, by rw [houtcome]⟩
  · rename_i hne
    rw [view_perform _ (hother hne), view_finalizeStream, if_neg hne]

theorem view_rejectStream (m : Manager) (st : ManagedStream) (err : JsError)
    (hown : st.id ≠ x.streamId → st.reject ≠ some x.reject) :
    x.view (m.rejectStream st err) = if st.id = x.streamId then x.fail (x.view m) st.receiver err else x.view m := by
  have hreject : st.receiver.reject = st.reject := rfl
  rw [Manager.rejectStream, fail, hreject]
  cases hcallback : st.reject with
  | none => exact view_finalizeStream m st
  | some callback =>
      refine view_finalizeStream_perform m _ fun hne => ?_
      have hother : callback ≠ x.reject := fun h => hown hne (h ▸ hcallback)
      rw [settlement, if_neg hother]

theorem settle_of_waiting (v : ExchangeView) (h : st.headersComplete = true → st.endStreamSeen = true → st.resolve = none) :
    x.settle v st.receiver = receive v st.receiver := by
  rw [settle]
  split
  · rename_i headers callback hheaders hend hresolve
    have hcomplete : st.headersComplete = true := by
      by_contra hnot
      simp [ManagedStream.receiver, hnot] at hheaders
    rw [show st.receiver.resolve = st.resolve from rfl, h hcomplete hend] at hresolve
    exact absurd hresolve (by simp)
  · rfl

theorem settle_of_ready (v : ExchangeView) {callback : Callback} (hheaders : st.headersComplete = true)
    (hend : st.endStreamSeen = true) (hresolve : st.resolve = some callback) :
    x.settle v st.receiver = x.depart v (some (.resolve callback st.response)) := by
  simp only [settle, ManagedStream.receiver, hheaders, hend, hresolve, if_true, ManagedStream.response]

theorem view_maybeResolveResponse (hget : m.streams.get st.id = some st) (hown : st.id ≠ x.streamId → st.resolve ≠ some x.resolve) :
    x.view (m.maybeResolveResponse st) = if st.id = x.streamId then x.settle (x.view m) st.receiver else x.view m := by
  by_cases hwaits : st.headersComplete = true → st.endStreamSeen = true → st.resolve = none
  · have hsame := @view_setStream_same x m st hget st rfl rfl
    rw [Manager.maybeResolveResponse_of_waiting m hwaits, settle_of_waiting _ hwaits, ← view_setStream, hsame]
  · simp only [Classical.not_imp] at hwaits
    obtain ⟨hheaders, hend, hresolve⟩ := hwaits
    obtain ⟨callback, hcallback⟩ := Option.ne_none_iff_exists'.mp hresolve
    have hother : st.id ≠ x.streamId → x.settlement (.resolve callback st.response) = none := by
      intro hne
      have hdiffers : callback ≠ x.resolve := fun h => hown hne (h ▸ hcallback)
      rw [settlement, if_neg hdiffers]
    rw [settle_of_ready _ hheaders hend hcallback, Manager.maybeResolveResponse]
    simp only [hheaders, hend, hcallback, Bool.not_true, Bool.or_self, Bool.false_eq_true, if_false]
    split
    · rw [← @view_perform x m (.emitEvent (.pushResponse st.id st.response)) rfl]
      exact view_finalizeStream_perform _ { st with resolve := none, reject := none, pushResponse := some st.response } hother
    · exact view_finalizeStream_perform m { st with resolve := none, reject := none } hother

/-! ### Sending is not seen -/

theorem view_sendsChunk (h : Manager.SendsChunk m m') : x.view m' = x.view m := by
  cases h with
  | chunk st chunkLen isLast hget =>
      let m₁ : Manager := { m.sendDataFrame st.id (st.sendQueue.take chunkLen) isLast with
        connectionSendWindow := m.connectionSendWindow - chunkLen }
      have hsent : x.view m₁ = x.view m := view_perform m rfl
      rw [← hsent]
      exact @view_setStream_same x m₁ st hget
        { st with
          localWindow := { st.localWindow with size := st.localWindow.size - chunkLen }
          sendQueue := st.sendQueue.drop chunkLen } rfl rfl

theorem view_sendMove (h : Manager.SendMove m m') : x.view m' = x.view m := by
  cases h with
  | limited => rfl
  | credited st size hget => exact view_setStream_same hget rfl rfl
  | sent hchunk => exact view_sendsChunk hchunk

theorem view_sendMoves (h : ReflTransGen Manager.SendMove m m') : x.view m' = x.view m := by
  induction h with
  | refl => rfl
  | tail _ hmove ih => exact (view_sendMove hmove).trans ih

theorem view_handleSettings (m : Manager) (frame : SettingsFrame) : x.view (m.handleSettings frame) = x.view m := by
  rw [Manager.handleSettings]
  split
  · exact view_perform m rfl
  · exact (view_perform _ rfl).trans (view_sendMoves (Manager.applyRemoteSettings_moves m frame.settings))

theorem view_handlePing (m : Manager) (frame : PingFrame) : x.view (m.handlePing frame) = x.view m := by
  rw [Manager.handlePing]
  split <;> exact view_perform m rfl

theorem view_sendData (m : Manager) (streamId : StreamId) (data : Bytes) (endStream : Bool) :
    x.view (m.sendData streamId data endStream) = x.view m := by
  cases hget : m.streams.get streamId with
  | none => simp only [Manager.sendData, hget]
  | some st =>
      have hself : m.streams.get st.id = some st := Table.get_of_mem (Table.mem_of_get hget)
      have hwritten : x.view (m.setStream (st.written data endStream)) = x.view m := view_setStream_same hself rfl rfl
      rw [Manager.sendData_eq hget, ← hwritten]
      exact view_sendMoves (Manager.moves_of_sends (Manager.drainSendQueue_sends (Table.get_set_self _ _)))

/-! ### Frames for a stream -/

/-- Nobody else's stream holds the callbacks, and no PUSH_PROMISE diverts a block. -/
structure Alone (x : Exchange) (m : Manager) : Prop where
  own : ∀ st ∈ m.streams.entries, st.id ≠ x.streamId → st.resolve ≠ some x.resolve ∧ st.reject ≠ some x.reject
  pushes : m.pendingPushContinuation = .empty

theorem react_none {frame : Frame} (hget : m.streams.get frame.streamId = none) : x.react (x.view m) (.dispatch frame) = x.view m := by
  rw [react]
  split
  · rename_i rc hreceiver
    split
    · rename_i hown
      rw [view, ← hown, hget] at hreceiver
      exact absurd hreceiver (by simp)
    · rfl
  · rfl

theorem react_some {frame : Frame} (hget : m.streams.get frame.streamId = some st) :
    x.react (x.view m) (.dispatch frame) =
      if st.id = x.streamId then x.receiveFrame (x.view m) st.receiver frame else x.view m := by
  rw [react, Table.key_of_get hget]
  split
  · rename_i rc hreceiver
    split
    · rename_i hown
      rw [view, ← hown, hget] at hreceiver
      rw [Option.some.inj hreceiver]
    · rfl
  · rename_i hreceiver
    split
    · rename_i hown
      rw [view, ← hown, hget] at hreceiver
      exact absurd hreceiver (by simp)
    · rfl

theorem settle_receive (v : ExchangeView) (rc rc' : Receiver) : x.settle (receive v rc) rc' = x.settle v rc' := by
  rw [settle, settle]
  split <;> rfl

theorem view_settled (m : Manager) (hown : st.id ≠ x.streamId → st.resolve ≠ some x.resolve) :
    x.view ((m.setStream st).maybeResolveResponse st) = if st.id = x.streamId then x.settle (x.view m) st.receiver else x.view m := by
  rw [view_maybeResolveResponse (Table.get_set_self m.streams st) hown, view_setStream]
  split
  · rw [settle_receive]
  · rfl

theorem transitionOnEndStream_receiver (st : ManagedStream) : st.transitionOnEndStream.receiver = st.receiver := by
  rw [ManagedStream.transitionOnEndStream_eq]
  rfl

theorem promoteReserved_receiver (st : ManagedStream) : st.promoteReserved.receiver = st.receiver := by
  rw [ManagedStream.promoteReserved_eq]
  rfl

theorem afterData_receiver (st : ManagedStream) (frame : DataFrame) :
    (Manager.afterData st frame).receiver =
      { st.receiver with body := st.receiver.body ++ Manager.stripPadding frame.flags frame.payload } := by
  rw [Manager.afterData]
  dsimp only
  split
  · simp only [ManagedStream.receiver, List.flatten_append, List.flatten_cons, List.flatten_nil, List.append_nil]
  · rename_i hempty
    have hnil : Manager.stripPadding frame.flags frame.payload = [] := List.eq_nil_of_length_eq_zero (by omega)
    simp only [ManagedStream.receiver, hnil, List.append_nil]

theorem Alone.resolve_ne (h : x.Alone m) {streamId : StreamId} (hget : m.streams.get streamId = some st) {st' : ManagedStream}
    (hid : st'.id = st.id) (hcallbacks : st'.callbacks = st.callbacks) : st'.id ≠ x.streamId → st'.resolve ≠ some x.resolve := by
  intro hne
  rw [(ManagedStream.callbacks_eq_iff.mp hcallbacks).1]
  exact (h.own st (Table.mem_of_get hget) (hid ▸ hne)).1

theorem view_handleData (halone : x.Alone m) (frame : DataFrame) :
    x.view (m.handleData frame) = x.react (x.view m) (.dispatch (.data frame)) := by
  cases hget : m.streams.get frame.streamId with
  | none =>
      rw [@react_none x m (.data frame) hget]
      simp only [Manager.handleData, hget]
  | some st =>
      obtain ⟨m₁, haccounted, hrun⟩ := Manager.handleData_eq hget
      have hview := view_onlySends (x := x) haccounted.streams haccounted.nextStreamId haccounted.credits.onlySends
      have hbuffered := Manager.afterData_eq st frame
      rw [@react_some x m st (.data frame) hget, receiveFrame, hrun, ← afterData_receiver, ← hview]
      split
      · let ended : ManagedStream := { Manager.afterData st frame with endStreamSeen := true }
        have hid : ended.transitionOnEndStream.id = st.id := by
          rw [ManagedStream.transitionOnEndStream_id, show ended.id = (Manager.afterData st frame).id from rfl, hbuffered]
        have hcallbacks : ended.transitionOnEndStream.callbacks = st.callbacks := by
          rw [ManagedStream.transitionOnEndStream_callbacks,
            show ended.callbacks = (Manager.afterData st frame).callbacks from rfl, hbuffered]
          rfl
        have hsettled := view_settled m₁ (halone.resolve_ne hget hid hcallbacks)
        rw [hid, transitionOnEndStream_receiver] at hsettled
        exact hsettled
      · have hwritten := @view_setStream x m₁ (Manager.afterData st frame)
        rw [show (Manager.afterData st frame).id = st.id by rw [hbuffered]] at hwritten
        exact hwritten

/-- A stream whose block is complete is written back and settles if the response is. -/
theorem view_completed (halone : x.Alone m) {streamId : StreamId} (hget : m.streams.get streamId = some st) {st' : ManagedStream}
    (hid : st'.id = st.id) {headers : HeaderMap} {endStream : Bool}
    (hreceiver : st'.receiver =
      { st.receiver with block := [], headers := some headers, ended := st.receiver.ended || endStream })
    (hm' : x.view m' = x.view (m.setStream st')) (hstreams : m'.streams = (m.setStream st').streams) :
    x.view (m'.maybeResolveResponse st') =
      if st.id = x.streamId then
        x.settle (x.view m) { st.receiver with block := [], headers := some headers, ended := st.receiver.ended || endStream }
      else x.view m := by
  have hget' : m'.streams.get st'.id = some st' := hstreams ▸ Table.get_set_self m.streams st'
  have hown : st'.id ≠ x.streamId → st'.resolve ≠ some x.resolve := by
    intro hne
    rw [show st'.resolve = st.resolve from congrArg Receiver.resolve hreceiver]
    exact (halone.own st (Table.mem_of_get hget) (hid ▸ hne)).1
  rw [view_maybeResolveResponse hget' hown, hm', view_setStream, hid, hreceiver]
  split
  · exact settle_receive _ _ _
  · rfl

theorem view_handleHeaders (halone : x.Alone m) (frame : HeadersFrame) :
    x.view (m.handleHeaders frame).1 = x.react (x.view m) (.dispatch (.headers frame)) := by
  cases hget : m.streams.get frame.streamId with
  | none =>
      rw [@react_none x m (.headers frame) hget]
      simp only [Manager.handleHeaders, hget]
  | some st =>
      rw [@react_some x m st (.headers frame) hget, receiveFrame, receiveBlock, Manager.handleHeaders, hget]
      dsimp only
      cases frame.endHeaders with
      | false => exact view_setStream m (st.pushHeaderBytes frame.payload)
      | true =>
          have hblock : (st.pushHeaderBytes frame.payload).pendingHeaderBytes = st.receiver.block ++ frame.payload := rfl
          cases hdecode : decodeHeaders (st.receiver.block ++ frame.payload) with
          | error e =>
              rw [(st.pushHeaderBytes frame.payload).decodePendingHeaders_error (hblock ▸ hdecode)]
              exact view_setStream m { st with pendingHeaderBytes := [] }
          | ok headers =>
              rw [(st.pushHeaderBytes frame.payload).decodePendingHeaders_ok (hblock ▸ hdecode)]
              let promoted := ((st.pushHeaderBytes frame.payload).withHeaders headers).promoteReserved
              let st' := if frame.endStream then { promoted with endStreamSeen := true }.transitionOnEndStream else promoted
              have hpromoted : promoted.id = st.id ∧
                  promoted.receiver = { st.receiver with block := [], headers := some headers } := by
                refine ⟨?_, promoteReserved_receiver _⟩
                simp only [promoted, ManagedStream.promoteReserved]
                split <;> rfl
              have hid : st'.id = st.id := by
                simp only [st']
                split
                · exact (ManagedStream.transitionOnEndStream_id _).trans hpromoted.1
                · exact hpromoted.1
              refine view_completed halone hget hid ?_ rfl rfl
              simp only [st']
              cases frame.endStream with
              | true =>
                  rw [if_pos rfl, transitionOnEndStream_receiver, Bool.or_true]
                  exact congrArg (fun rc => { rc with ended := true }) hpromoted.2
              | false =>
                  rw [if_neg Bool.false_ne_true, Bool.or_false]
                  exact hpromoted.2

theorem view_handleContinuation (halone : x.Alone m) (frame : ContinuationFrame) :
    x.view (m.handleContinuation frame).1 = x.react (x.view m) (.dispatch (.continuation frame)) := by
  have hroute : (m.pendingPushContinuation.get frame.streamId).map Prod.snd = none := by
    rw [halone.pushes, Table.get_empty, Option.map_none]
  have hcleared : m.clearPushContinuation frame.streamId none = m := rfl
  cases hget : m.streams.get frame.streamId with
  | none =>
      rw [@react_none x m (.continuation frame) hget]
      simp only [Manager.handleContinuation, hroute, Option.getD_none, hget]
  | some st =>
      rw [@react_some x m st (.continuation frame) hget, receiveFrame, receiveBlock, Manager.handleContinuation]
      simp only [hroute, Option.getD_none, hget, hcleared]
      cases frame.endHeaders with
      | false => exact view_setStream m (st.pushHeaderBytes frame.payload)
      | true =>
          have hblock : (st.pushHeaderBytes frame.payload).pendingHeaderBytes = st.receiver.block ++ frame.payload := rfl
          cases hdecode : decodeHeaders (st.receiver.block ++ frame.payload) with
          | error e =>
              rw [(st.pushHeaderBytes frame.payload).decodePendingHeaders_error (hblock ▸ hdecode)]
              exact view_setStream m { st with pendingHeaderBytes := [] }
          | ok headers =>
              rw [(st.pushHeaderBytes frame.payload).decodePendingHeaders_ok (hblock ▸ hdecode)]
              let st' := (st.pushHeaderBytes frame.payload).withHeaders headers
              have hid : st'.id = st.id := rfl
              have hreceiver : st'.receiver =
                  { st.receiver with block := [], headers := some headers, ended := st.receiver.ended || false } := by
                rw [Bool.or_false]
                rfl
              have hwritten : x.view ((m.setStream st').emitEvent (.push st'.id st'.responseHeaders)) = x.view (m.setStream st') :=
                view_perform _ rfl
              cases hpushed : st'.isPushPromise with
              | false =>
                  simp only [st', hpushed, Bool.not_true, Bool.false_eq_true, if_false]
                  exact view_completed halone hget hid hreceiver rfl rfl
              | true =>
                  simp only [st', hpushed, Bool.not_true, Bool.false_eq_true, if_false, if_true]
                  exact view_completed halone hget hid hreceiver hwritten rfl

theorem view_handleRstStream (halone : x.Alone m) (frame : RstStreamFrame) :
    x.view (m.handleRstStream frame) = x.react (x.view m) (.dispatch (.rstStream frame)) := by
  cases hget : m.streams.get frame.streamId with
  | none =>
      rw [@react_none x m (.rstStream frame) hget]
      simp only [Manager.handleRstStream, hget]
  | some st =>
      rw [@react_some x m st (.rstStream frame) hget]
      simp only [Manager.handleRstStream, hget]
      exact view_rejectStream m _ _ fun hne => (halone.own st (Table.mem_of_get hget) hne).2

/-! ### Operations -/

theorem view_openStream (m : Manager) : x.view m.openStream.1 = x.react (x.view m) .openStream := by
  have hstreams : m.openStream.1.streams = m.streams.set m.newClientStream := rfl
  have hreceiver : (m.openStream.1.streams.get x.streamId).map ManagedStream.receiver =
      if m.nextStreamId = x.streamId then some .fresh else (m.streams.get x.streamId).map ManagedStream.receiver := by
    rw [hstreams, Table.get_set, show m.newClientStream.id = m.nextStreamId from rfl]
    split <;> rfl
  exact congrArg (fun receiver => ExchangeView.mk (m.nextStreamId + 2) receiver (x.outcome m.effects)) hreceiver

theorem view_expectResponse (m : Manager) (streamId : StreamId) (resolve reject : Callback)
    (hown : streamId ≠ x.streamId → reject ≠ x.reject) :
    x.view (m.expectResponse streamId resolve reject) = x.react (x.view m) (.expectResponse streamId resolve reject) := by
  cases hget : m.streams.get streamId with
  | none =>
      simp only [Manager.expectResponse, hget, react]
      split
      · rename_i hid
        have hnone : (x.view m).receiver = none := by rw [view, ← hid, hget, Option.map_none]
        rw [hnone]
        simp only [view, Manager.perform, depart, outcome_append, ← hid, hget, Option.map_none, Option.toList_some]
      · rename_i hne
        refine view_perform m ?_
        rw [settlement, if_neg (hown hne)]
  | some st =>
      have hid := Table.key_of_get hget
      simp only [Manager.expectResponse, hget, react, view_setStream, hid]
      split
      · rename_i hsame
        have hsome : (x.view m).receiver = some st.receiver := by rw [view, ← hsame, hget, Option.map_some]
        rw [hsome]
        rfl
      · rfl

/-- Rejecting every stream rejects the one that is watched. -/
theorem view_abortAll (halone : x.Alone m) (error : JsError) :
    x.view (m.abortAll error) = x.react (x.view m) (.abortAll error) := by
  let Passed (m' : Manager) : Prop := (∀ st ∈ m'.streams.entries, st ∈ m.streams.entries) ∧
    (x.view m' = x.view m ∨ (x.view m').receiver = none ∧ x.view m' = x.react (x.view m) (.abortAll error))
  let body (m' : Manager) (st : ManagedStream) : Manager := m'.rejectStream { st with state := .closed .normal } error
  have hstep : ∀ m' st, Passed m' → m'.streams.get st.id = some st → Passed (body m' st) := by
    rintro m' st ⟨hold, hview⟩ hget
    have hmem := hold st (Table.mem_of_get hget)
    refine ⟨fun w hw => hold w ?_, ?_⟩
    · rw [Manager.rejectStream_streams] at hw
      exact (Table.mem_delete.mp hw).1
    · have hbody := @view_rejectStream x m' { st with state := .closed .normal } error fun hne => (halone.own st hmem hne).2
      dsimp only at hbody
      rw [hbody]
      split
      · rename_i hid
        have hseen : (x.view m').receiver = some st.receiver := by rw [view, ← hid, hget, Option.map_some]
        have hbefore := hview.resolve_right fun hgone => by rw [hgone.1] at hseen; exact absurd hseen (by simp)
        rw [hbefore] at hseen ⊢
        refine .inr ⟨rfl, ?_⟩
        rw [react, hseen]
        rfl
      · exact hview
  have hpassed : Passed (m.abortAll error) := by
    rw [Manager.abortAll_eq]
    exact Manager.forEachStream_induction ⟨fun _ hst => hst, .inl rfl⟩ hstep
  have hnone : (x.view (m.abortAll error)).receiver = none := rfl
  rcases hpassed.2 with hsame | ⟨-, hrejected⟩
  · rw [hsame] at hnone ⊢
    rw [react, hnone]
  · exact hrejected

/-! ### The invariant -/

/-- An operation that neither diverts blocks nor rejects streams it is not addressed to, and does not give
the callbacks of the exchange to another stream. -/
structure Regular (x : Exchange) (op : ManagerOp) : Prop where
  push : ∀ frame, op ≠ .dispatch (.pushPromise frame)
  goaway : ∀ frame, op ≠ .dispatch (.goaway frame)
  own : ∀ streamId resolve reject, op = .expectResponse streamId resolve reject → streamId ≠ x.streamId →
    resolve ≠ x.resolve ∧ reject ≠ x.reject

theorem expectResponse_own (halone : x.Alone m) (streamId : StreamId) (resolve reject : Callback)
    (hown : streamId ≠ x.streamId → resolve ≠ x.resolve ∧ reject ≠ x.reject) :
    ∀ st ∈ (m.expectResponse streamId resolve reject).streams.entries, st.id ≠ x.streamId →
      st.resolve ≠ some x.resolve ∧ st.reject ≠ some x.reject := by
  intro st' hst' hne
  rw [Manager.expectResponse] at hst'
  split at hst'
  · exact halone.own st' hst' hne
  · rename_i st hget
    rcases Table.mem_set hst' with rfl | ⟨hst, -⟩
    · have hid : st.id = streamId := Table.key_of_get hget
      obtain ⟨hresolve, hreject⟩ := hown (hid ▸ hne)
      exact ⟨fun h => hresolve (Option.some.inj h), fun h => hreject (Option.some.inj h)⟩
    · exact halone.own st' hst hne

theorem maybeResolveResponse_pushes (m : Manager) (st : ManagedStream) :
    (m.maybeResolveResponse st).pendingPushContinuation = m.pendingPushContinuation :=
  ((Manager.Evolves.refl m).maybeResolveResponse st : Manager.Evolves .quiet m _).pushes (by decide)

theorem handleContinuation_pushes (halone : x.Alone m) (frame : ContinuationFrame) :
    (m.handleContinuation frame).1.pendingPushContinuation = .empty := by
  have hroute : (m.pendingPushContinuation.get frame.streamId).map Prod.snd = none := by
    rw [halone.pushes, Table.get_empty, Option.map_none]
  have hcleared : m.clearPushContinuation frame.streamId none = m := rfl
  rw [Manager.handleContinuation]
  simp only [hroute, hcleared]
  split
  · exact halone.pushes
  · split
    · exact halone.pushes
    · split
      · exact halone.pushes
      · rw [maybeResolveResponse_pushes]
        split <;> exact halone.pushes

theorem handleHeaders_pushes (m : Manager) (frame : HeadersFrame) :
    (m.handleHeaders frame).1.pendingPushContinuation = m.pendingPushContinuation := by
  rw [Manager.handleHeaders]
  split
  · rfl
  · dsimp only
    split
    · rfl
    · split
      · rfl
      · exact maybeResolveResponse_pushes _ _

theorem Alone.step (halone : x.Alone m) {op : ManagerOp} (hop : x.Regular op) : x.Alone (m.step op) where
  own st' hst' hne := by
    by_cases hexpects : ∃ streamId resolve reject, op = .expectResponse streamId resolve reject
    · obtain ⟨streamId, resolve, reject, rfl⟩ := hexpects
      exact expectResponse_own halone streamId resolve reject (hop.own _ _ _ rfl) st' hst' hne
    · have hscope : op.scope ≠ .expects := by
        cases op with
        | expectResponse streamId resolve reject => exact absurd ⟨streamId, resolve, reject, rfl⟩ hexpects
        | dispatch frame => cases frame <;> simp [ManagerOp.scope]
        | _ => simp [ManagerOp.scope]
      rcases Manager.step_streams hst' with ⟨st, hst, hchanges⟩ | ⟨-, rfl⟩ | ⟨id, hchanges⟩
      · obtain ⟨hresolve, hreject⟩ := ManagedStream.callbacks_eq_iff.mp (hchanges.callbacks_eq hscope)
        rw [hresolve, hreject]
        exact halone.own st hst (hchanges.id_eq ▸ hne)
      · exact ⟨by simp [Manager.newClientStream, ManagedStream.create], by simp [Manager.newClientStream, ManagedStream.create]⟩
      · obtain ⟨hresolve, hreject⟩ := ManagedStream.callbacks_eq_iff.mp (hchanges.callbacks_eq (by decide))
        rw [hresolve, hreject]
        exact ⟨by simp [Manager.newPushStream, ManagedStream.create], by simp [Manager.newPushStream, ManagedStream.create]⟩
  pushes := by
    by_cases hopen : op = .openStream
    · subst hopen
      exact halone.pushes
    by_cases hscope : op.scope = .collects
    · cases op with
      | dispatch frame =>
          cases frame with
          | headers frame => exact (handleHeaders_pushes m frame).trans halone.pushes
          | continuation frame => exact handleContinuation_pushes halone frame
          | pushPromise frame => exact absurd rfl (hop.push frame)
          | _ => exact absurd hscope (by simp [ManagerOp.scope])
      | _ => exact absurd hscope (by simp [ManagerOp.scope])
    · exact ((Manager.step_evolves hopen hop.push).pushes hscope).trans halone.pushes

/-! ### Runs -/

theorem react_ignored (v : ExchangeView) {frame : Frame} (h : ∀ rc, x.receiveFrame v rc frame = v) :
    x.react v (.dispatch frame) = v := by
  rw [react]
  split
  · split
    · exact h _
    · rfl
  · rfl

/-- The manager moves as the receiver does. -/
theorem view_step (halone : x.Alone m) {op : ManagerOp} (hop : x.Regular op) : x.view (m.step op) = x.react (x.view m) op := by
  cases op with
  | openStream => exact view_openStream m
  | dispatch frame =>
      cases frame with
      | data frame => exact view_handleData halone frame
      | headers frame => exact view_handleHeaders halone frame
      | priority frame => exact (react_ignored _ fun _ => rfl).symm
      | rstStream frame => exact view_handleRstStream halone frame
      | settings frame => exact (view_handleSettings m frame).trans (react_ignored _ fun _ => rfl).symm
      | pushPromise frame => exact absurd rfl (hop.push frame)
      | ping frame => exact (view_handlePing m frame).trans (react_ignored _ fun _ => rfl).symm
      | goaway frame => exact absurd rfl (hop.goaway frame)
      | windowUpdate frame =>
          exact (view_sendMoves (Manager.handleWindowUpdate_moves m frame)).trans (react_ignored _ fun _ => rfl).symm
      | continuation frame => exact view_handleContinuation halone frame
  | sendData streamId data endStream => exact view_sendData m streamId data endStream
  | applyWindowUpdate streamId increment => exact view_sendMoves (Manager.handleWindowUpdate_moves m _)
  | expectResponse streamId resolve reject => exact view_expectResponse m streamId resolve reject fun hne => (hop.own _ _ _ rfl hne).2
  | abortAll error => exact view_abortAll halone error

end Exchange

/-- The local operations and the frames addressed to a stream. -/
def ManagerOp.addressedTo (streamId : StreamId) : ManagerOp → Bool
  | .dispatch frame => frame.streamId = streamId
  | _ => true

/-- The local operations and the frames of a stream that carry or end a response. -/
def ManagerOp.bearsOn (streamId : StreamId) : ManagerOp → Bool
  | .dispatch (.data frame) => frame.streamId = streamId
  | .dispatch (.headers frame) => frame.streamId = streamId
  | .dispatch (.rstStream frame) => frame.streamId = streamId
  | .dispatch (.continuation frame) => frame.streamId = streamId
  | .dispatch _ => false
  | _ => true

/-- The receiver ignores what does not bear on its stream. -/
theorem Exchange.react_of_not_bearsOn (x : Exchange) (v : ExchangeView) {op : ManagerOp} (h : op.bearsOn x.streamId = false) :
    x.react v op = v := by
  cases op with
  | dispatch frame =>
      have hother : frame.streamId ≠ x.streamId ∨ ∀ rc, x.receiveFrame v rc frame = v := by
        cases frame with
        | data frame => exact .inl (of_decide_eq_false h)
        | headers frame => exact .inl (of_decide_eq_false h)
        | rstStream frame => exact .inl (of_decide_eq_false h)
        | continuation frame => exact .inl (of_decide_eq_false h)
        | _ => exact .inr fun _ => rfl
      rcases hother with hne | hignored
      · rw [react]
        split
        · rw [if_neg hne]
        · rfl
      · exact react_ignored v hignored
  | _ => exact absurd h (by simp [ManagerOp.bearsOn])

theorem ManagerOp.addressedTo_of_bearsOn {streamId : StreamId} {op : ManagerOp} (h : op.bearsOn streamId = true) :
    op.addressedTo streamId = true := by
  cases op with
  | dispatch frame =>
      cases frame with
      | data frame => exact h
      | headers frame => exact h
      | rstStream frame => exact h
      | continuation frame => exact h
      | _ => exact absurd h (by simp [bearsOn])
  | _ => rfl

/-- In every run without PUSH_PROMISE and GOAWAY frames that gives no other stream the callbacks of an exchange,
the outcome of the exchange is as in the run that receives only the frames addressed to its stream, and as in
the run that receives only those of them that carry or end a response. -/
theorem response_noninterference (ops : List ManagerOp) (x : Exchange)
    (hpush : ∀ frame, .dispatch (.pushPromise frame) ∉ ops) (hgoaway : ∀ frame, .dispatch (.goaway frame) ∉ ops)
    (hown : ∀ streamId resolve reject, .expectResponse streamId resolve reject ∈ ops → streamId ≠ x.streamId →
      resolve ≠ x.resolve ∧ reject ≠ x.reject) :
    x.outcome (Manager.run ops).effects = x.outcome (Manager.run (ops.filter (ManagerOp.addressedTo x.streamId))).effects ∧
      x.outcome (Manager.run ops).effects = x.outcome (Manager.run (ops.filter (ManagerOp.bearsOn x.streamId))).effects := by
  have hregular : ∀ op ∈ ops, x.Regular op := fun op hop =>
    ⟨fun frame h => hpush frame (h ▸ hop), fun frame h => hgoaway frame (h ▸ hop), fun _ _ _ h => hown _ _ _ (h ▸ hop)⟩
  have hstart : x.Alone .create := ⟨fun _ hst => absurd hst List.not_mem_nil, rfl⟩
  have hfilter : ∀ visible : ManagerOp → Bool, (∀ op, op.bearsOn x.streamId = true → visible op = true) →
      x.view (Manager.run ops) = x.view (Manager.run (ops.filter visible)) := by
    intro visible hvisible
    have hstep : ∀ m op, x.Alone m → op ∈ ops → x.Alone (m.step op) ∧ x.view (m.step op) = x.react (x.view m) op :=
      fun m op halone hop => ⟨halone.step (hregular op hop), Exchange.view_step halone (hregular op hop)⟩
    have hhidden : ∀ v op, visible op = false → x.react v op = v := by
      intro v op h
      refine x.react_of_not_bearsOn v (Bool.eq_false_iff.mpr fun hbears => ?_)
      rw [hvisible op hbears] at h
      exact absurd h (by decide)
    exact view_foldl_filter hstep hhidden hstart
  exact ⟨congrArg ExchangeView.outcome (hfilter _ fun _ => ManagerOp.addressedTo_of_bearsOn),
    congrArg ExchangeView.outcome (hfilter _ fun _ => id)⟩

/-- Two responses, their frames interleaved with each other, with SETTINGS and with PING. -/
def twoResponses : List ManagerOp :=
  [.openStream, .expectResponse 1 0 0, .openStream, .expectResponse 3 1 1,
    .dispatch (headersFrame 3 true false [0x88]),
    .dispatch (headersFrame 1 true false [0x88]),
    .dispatch (.data ⟨0, 1, [0x61]⟩),
    .dispatch (.settings { flags := 0, streamId := 0, ack := false, settings := SettingsMap.empty.set 0x3 1 }),
    .dispatch (.data ⟨0x1, 3, [0x62]⟩),
    .dispatch (.ping { flags := 0, streamId := 0, ack := false, opaqueData := 0 }),
    .dispatch (.data ⟨0x1, 1, [0x63]⟩)]

theorem response_noninterference_two :
    let x : Exchange := ⟨1, 0, 0⟩
    x.outcome (Manager.run twoResponses).effects =
        x.outcome (Manager.run (twoResponses.filter (ManagerOp.addressedTo 1))).effects ∧
      x.outcome (Manager.run twoResponses).effects = x.outcome (Manager.run (twoResponses.filter (ManagerOp.bearsOn 1))).effects :=
  response_noninterference twoResponses ⟨1, 0, 0⟩ (by simp [twoResponses, headersFrame]) (by simp [twoResponses, headersFrame]) (by
      intro streamId resolve reject hmem hne
      simp only [twoResponses, headersFrame, List.mem_cons, ManagerOp.expectResponse.injEq, reduceCtorEq, List.not_mem_nil,
        or_false, false_or] at hmem
      rcases hmem with ⟨rfl, -, -⟩ | ⟨-, rfl, rfl⟩
      · exact absurd rfl hne
      · decide)

example : (⟨1, 0, 0⟩ : Exchange).outcome (Manager.run twoResponses).effects =
    [.ok ⟨200, (Table.empty : HeaderMap).set ("status", "200"), [0x61, 0x63]⟩] := by decide +kernel

end BrowsercoreHttp2
