import BrowsercoreHttp2.Stream.Changes

/-!
# Header blocks in one frame and in several

A header block arrives in one HEADERS frame, or cut into a HEADERS frame and CONTINUATION frames.
`handleHeaders` and `handleContinuation` each finish a block, and they do not do the same: END_STREAM,
which only a HEADERS frame can carry, is acted on only where the HEADERS frame finishes the block. A
split block that carries it leaves the stream waiting for an end that has already come.
-/

namespace BrowsercoreHttp2

open ManagedStream

def headersFrame (streamId : StreamId) (endHeaders endStream : Bool) (payload : Bytes) : Frame :=
  .headers
    { flags := (if endHeaders then 0x4 else 0) ||| (if endStream then 0x1 else 0)
      streamId, endHeaders, endStream
      padded := false
      payload }

def continuationFrame (streamId : StreamId) (endHeaders : Bool) (payload : Bytes) : Frame :=
  .continuation { flags := if endHeaders then 0x4 else 0, streamId, endHeaders, payload }

/-- A block cut into a HEADERS frame and one or more CONTINUATION frames. -/
def splitBlock (streamId : StreamId) (endStream : Bool) (first : Bytes) (middle : List Bytes) (last : Bytes) : List Frame :=
  headersFrame streamId false endStream first ::
    (middle.map (continuationFrame streamId false) ++ [continuationFrame streamId true last])

def Manager.dispatchAll (m : Manager) (frames : List Frame) : Manager := m.steps (frames.map .dispatch)

@[simp] theorem Manager.dispatchAll_nil (m : Manager) : m.dispatchAll [] = m := rfl

@[simp] theorem Manager.dispatchAll_cons (m : Manager) (frame : Frame) (frames : List Frame) :
    m.dispatchAll (frame :: frames) = (m.dispatch frame).1.dispatchAll frames := rfl

theorem Manager.dispatchAll_append (m : Manager) (frames frames' : List Frame) :
    m.dispatchAll (frames ++ frames') = (m.dispatchAll frames).dispatchAll frames' := by
  simp only [Manager.dispatchAll, Manager.steps, List.map_append, List.foldl_append]

/-! ### What shows of a stream -/

structure StreamView where
  state : StreamState
  headersComplete : Bool
  endStreamSeen : Bool
  responseHeaders : HeaderMap
  resolve : Option Callback
  reject : Option Callback
  deriving DecidableEq

def ManagedStream.view (st : ManagedStream) : StreamView :=
  ⟨st.state, st.headersComplete, st.endStreamSeen, st.responseHeaders, st.resolve, st.reject⟩

/-- The stream as far as it shows, `none` once it has left the table, and everything done so far. -/
def Manager.observe (m : Manager) (streamId : StreamId) : Option StreamView × List Effect :=
  ((m.streams.get streamId).map ManagedStream.view, m.effects)

namespace Manager

theorem maybeResolveResponse_of_waiting (m : Manager) {st : ManagedStream}
    (h : st.headersComplete = true → st.endStreamSeen = true → st.resolve = none) : m.maybeResolveResponse st = m := by
  rw [maybeResolveResponse]
  split
  · rfl
  · rename_i hready
    simp only [Bool.or_eq_true, Bool.not_eq_true', not_or, Bool.not_eq_false] at hready
    rw [h hready.1 hready.2]

/-- What settling a stream is seen to do. -/
def settlement (st : ManagedStream) (resolve : Callback) : List Effect :=
  (if st.isPushPromise then [.emitEvent (.pushResponse st.id st.response)] else []) ++
    [.emitEvent (.streamClosed st.id), .resolve resolve st.response]

theorem maybeResolveResponse_settles (m : Manager) {st : ManagedStream} {resolve : Callback}
    (hheaders : st.headersComplete = true) (hend : st.endStreamSeen = true) (hresolve : st.resolve = some resolve) :
    (m.maybeResolveResponse st).streams = m.streams.delete st.id ∧
      (m.maybeResolveResponse st).effects = m.effects ++ settlement st resolve := by
  rw [maybeResolveResponse, settlement]
  simp only [hheaders, hend, hresolve, Bool.not_true, Bool.or_self, Bool.false_eq_true, if_false]
  split
  · exact ⟨rfl, by simp [finalizeStream, emitEvent, perform, ManagedStream.response]⟩
  · exact ⟨rfl, by simp [finalizeStream, emitEvent, perform, ManagedStream.response]⟩

theorem maybeResolveResponse_cases (m : Manager) (st : ManagedStream) :
    m.maybeResolveResponse st = m ∨ ∃ resolve, st.resolve = some resolve ∧
      (m.maybeResolveResponse st).streams = m.streams.delete st.id ∧
      (m.maybeResolveResponse st).effects = m.effects ++ settlement st resolve := by
  by_cases hwaits : st.headersComplete = true → st.endStreamSeen = true → st.resolve = none
  · exact .inl (maybeResolveResponse_of_waiting m hwaits)
  · simp only [Classical.not_imp] at hwaits
    obtain ⟨hheaders, hend, hresolve⟩ := hwaits
    obtain ⟨resolve, hcallback⟩ := Option.ne_none_iff_exists'.mp hresolve
    exact .inr ⟨resolve, hcallback, maybeResolveResponse_settles m hheaders hend hcallback⟩

theorem maybeResolveResponse_get (m : Manager) {st : ManagedStream} {resolve : Callback}
    (hheaders : st.headersComplete = true) (hend : st.endStreamSeen = true) (hresolve : st.resolve = some resolve) :
    (m.maybeResolveResponse st).streams.get st.id = none := by
  rw [(maybeResolveResponse_settles m hheaders hend hresolve).1, Table.get_delete_self]

theorem maybeResolveResponse_effects (m : Manager) {st : ManagedStream} {resolve : Callback}
    (hheaders : st.headersComplete = true) (hend : st.endStreamSeen = true) (hresolve : st.resolve = some resolve) :
    m.effects.length < (m.maybeResolveResponse st).effects.length := by
  rw [(maybeResolveResponse_settles m hheaders hend hresolve).2, settlement, List.length_append, List.length_append,
    List.length_cons]
  omega

theorem maybeResolveResponse_get_ne (m : Manager) (st : ManagedStream) {streamId : StreamId} (h : streamId ≠ st.id) :
    (m.maybeResolveResponse st).streams.get streamId = m.streams.get streamId := by
  rcases maybeResolveResponse_cases m st with hsame | ⟨resolve, -, hstreams, -⟩
  · rw [hsame]
  · rw [hstreams, Table.get_delete_ne _ h]

theorem setStream_setStream (m : Manager) (st st' : ManagedStream) (h : st.id = st'.id) :
    (m.setStream st).setStream st' = m.setStream st' := by
  simp only [setStream, Table.set_set m.streams h]

end Manager

/-! ### One frame -/

/-- The stream once its block is decoded. -/
def ManagedStream.withHeaders (st : ManagedStream) (headers : HeaderMap) : ManagedStream :=
  { st with pendingHeaderBytes := [], responseHeaders := headers, headersComplete := true }

theorem ManagedStream.decodePendingHeaders_ok (st : ManagedStream) {headers : HeaderMap}
    (h : decodeHeaders st.pendingHeaderBytes = .ok headers) : st.decodePendingHeaders = (st.withHeaders headers, none) := by
  simp only [decodePendingHeaders, h, withHeaders]

theorem ManagedStream.decodePendingHeaders_error (st : ManagedStream) {e : HpackError}
    (h : decodeHeaders st.pendingHeaderBytes = .error e) :
    st.decodePendingHeaders = ({ st with pendingHeaderBytes := [] }, some e) := by
  simp only [decodePendingHeaders, h]

theorem ManagedStream.promoteReserved_of_ne {st : ManagedStream} (h : st.state ≠ .remoteReserved) :
    st.promoteReserved = st := by
  rw [promoteReserved]
  split
  · rename_i hreserved
    exact absurd hreserved h
  · rfl

namespace Manager

variable {m : Manager} {st : ManagedStream}

theorem dispatch_headers_more (hget : m.streams.get st.id = some st) (endStream : Bool) (payload : Bytes) :
    (m.dispatch (headersFrame st.id false endStream payload)).1 = m.setStream (st.pushHeaderBytes payload) := by
  simp only [dispatch, headersFrame, handleHeaders, hget, Bool.not_false, if_true]

theorem dispatch_headers_error (hget : m.streams.get st.id = some st) (endStream : Bool) {payload : Bytes} {e : HpackError}
    (hdecode : decodeHeaders (st.pendingHeaderBytes ++ payload) = .error e) :
    m.dispatch (headersFrame st.id true endStream payload) =
      (m.setStream { st with pendingHeaderBytes := [] }, some (.hpack e)) := by
  have h := decodePendingHeaders_error (st.pushHeaderBytes payload) hdecode
  simp only [dispatch, headersFrame, handleHeaders, hget, Bool.not_true, Bool.false_eq_true, if_false, h]
  rfl

theorem dispatch_headers_ok (hget : m.streams.get st.id = some st) (hstate : st.state ≠ .remoteReserved) (endStream : Bool)
    {payload : Bytes} {headers : HeaderMap} (hdecode : decodeHeaders (st.pendingHeaderBytes ++ payload) = .ok headers) :
    m.dispatch (headersFrame st.id true endStream payload) =
      let st' := if endStream then { st.withHeaders headers with endStreamSeen := true }.transitionOnEndStream
        else st.withHeaders headers
      ((m.setStream st').maybeResolveResponse st', none) := by
  have h := decodePendingHeaders_ok (st.pushHeaderBytes payload) hdecode
  have hsame : (st.pushHeaderBytes payload).withHeaders headers = st.withHeaders headers := rfl
  have hkept : (st.withHeaders headers).promoteReserved = st.withHeaders headers := promoteReserved_of_ne hstate
  simp only [dispatch, headersFrame, handleHeaders, hget, Bool.not_true, Bool.false_eq_true, if_false, h, hsame, hkept]

/-- The stream the CONTINUATION frames of an id are for. -/
def continuationTarget (m : Manager) (streamId : StreamId) : StreamId :=
  ((m.pendingPushContinuation.get streamId).map Prod.snd).getD streamId

theorem dispatch_continuation_none {streamId : StreamId} (hget : m.streams.get (m.continuationTarget streamId) = none)
    (endHeaders : Bool) (payload : Bytes) : (m.dispatch (continuationFrame streamId endHeaders payload)).1 = m := by
  rw [continuationTarget] at hget
  simp only [dispatch, continuationFrame, handleContinuation, hget]

theorem dispatch_continuation_more {streamId : StreamId} (hget : m.streams.get (m.continuationTarget streamId) = some st)
    (payload : Bytes) :
    (m.dispatch (continuationFrame streamId false payload)).1 = m.setStream (st.pushHeaderBytes payload) := by
  rw [continuationTarget] at hget
  simp only [dispatch, continuationFrame, handleContinuation, hget, Bool.not_false, if_true]

theorem dispatchAll_continuations {streamId : StreamId} (hid : st.id = m.continuationTarget streamId) (middle : List Bytes) :
    (m.setStream st).dispatchAll (middle.map (continuationFrame streamId false)) =
      m.setStream (st.pushHeaderBytes middle.flatten) := by
  induction middle generalizing st with
  | nil => simp [pushHeaderBytes]
  | cons payload middle ih =>
      have hself : (m.setStream st).streams.get ((m.setStream st).continuationTarget streamId) = some st := by
        change (m.streams.set st).get (m.continuationTarget streamId) = some st
        rw [← hid, Table.get_set_self]
      rw [List.map_cons, dispatchAll_cons, dispatch_continuation_more hself,
        setStream_setStream m st (st.pushHeaderBytes payload) rfl, @ih (st.pushHeaderBytes payload) hid]
      simp only [pushHeaderBytes, List.flatten_cons, List.append_assoc]

@[simp] theorem clearPushContinuation_streams (m : Manager) (streamId : StreamId) (promisedId : Option StreamId) :
    (m.clearPushContinuation streamId promisedId).streams = m.streams := by
  rw [clearPushContinuation]
  split <;> rfl

@[simp] theorem clearPushContinuation_effects (m : Manager) (streamId : StreamId) (promisedId : Option StreamId) :
    (m.clearPushContinuation streamId promisedId).effects = m.effects := by
  rw [clearPushContinuation]
  split <;> rfl

/-- The manager once the CONTINUATION frames of an id are finished. -/
def continuationDone (m : Manager) (streamId : StreamId) : Manager :=
  m.clearPushContinuation streamId ((m.pendingPushContinuation.get streamId).map Prod.snd)

theorem dispatch_continuation_error {streamId : StreamId} (hget : m.streams.get (m.continuationTarget streamId) = some st)
    {payload : Bytes} {e : HpackError} (hdecode : decodeHeaders (st.pendingHeaderBytes ++ payload) = .error e) :
    m.dispatch (continuationFrame streamId true payload) =
      ((m.continuationDone streamId).setStream { st with pendingHeaderBytes := [] }, some (.hpack e)) := by
  have h := decodePendingHeaders_error (st.pushHeaderBytes payload) hdecode
  rw [continuationTarget] at hget
  simp only [dispatch, continuationFrame, handleContinuation, hget, Bool.not_true, Bool.false_eq_true, if_false, h]
  rfl

theorem dispatch_continuation_ok {streamId : StreamId} (hget : m.streams.get (m.continuationTarget streamId) = some st)
    {payload : Bytes} {headers : HeaderMap} (hdecode : decodeHeaders (st.pendingHeaderBytes ++ payload) = .ok headers) :
    m.dispatch (continuationFrame streamId true payload) =
      let st' := st.withHeaders headers
      let m' := (m.continuationDone streamId).setStream st'
      ((if st.isPushPromise then m'.emitEvent (.push st.id headers) else m').maybeResolveResponse st', none) := by
  have h := decodePendingHeaders_ok (st.pushHeaderBytes payload) hdecode
  rw [continuationTarget] at hget
  simp only [dispatch, continuationFrame, handleContinuation, hget, Bool.not_true, Bool.false_eq_true, if_false, h]
  rfl

theorem dispatchAll_continuations_none {streamId : StreamId} (hget : m.streams.get (m.continuationTarget streamId) = none)
    (middle : List Bytes) : m.dispatchAll (middle.map (continuationFrame streamId false)) = m := by
  induction middle with
  | nil => rfl
  | cons payload middle ih => rw [List.map_cons, dispatchAll_cons, dispatch_continuation_none hget, ih]

theorem continuationDone_setStream (m : Manager) (streamId : StreamId) (st : ManagedStream) :
    (m.setStream st).continuationDone streamId = (m.continuationDone streamId).setStream st := by
  unfold continuationDone clearPushContinuation
  change (if ((m.pendingPushContinuation.get streamId).map Prod.snd).isSome then _ else _) = _
  split <;> rfl

@[simp] theorem continuationDone_streams (m : Manager) (streamId : StreamId) :
    (m.continuationDone streamId).streams = m.streams := clearPushContinuation_streams _ _ _

@[simp] theorem continuationDone_effects (m : Manager) (streamId : StreamId) :
    (m.continuationDone streamId).effects = m.effects := clearPushContinuation_effects _ _ _

theorem setStream_self (h : m.streams.get st.id = some st) : m.setStream st = m := by
  simp only [setStream, Table.set_eq_self m.streams h]

theorem observe_setStream (m : Manager) (st : ManagedStream) :
    (m.setStream st).observe st.id = (some st.view, m.effects) := by
  simp only [observe, setStream_streams, Table.get_set_self, Option.map_some, setStream_effects]

/-! ### A block in one frame -/

/-- What a HEADERS frame that finishes a block makes of a stream that is not reserved. -/
def afterHeaders (st : ManagedStream) (endStream : Bool) (headers : HeaderMap) : ManagedStream :=
  if endStream then { st.withHeaders headers with endStreamSeen := true }.transitionOnEndStream else st.withHeaders headers

@[simp] theorem afterHeaders_id (st : ManagedStream) (endStream : Bool) (headers : HeaderMap) :
    (afterHeaders st endStream headers).id = st.id := by
  rw [afterHeaders]
  split
  · exact transitionOnEndStream_id _
  · rfl

theorem afterHeaders_headersComplete (st : ManagedStream) (endStream : Bool) (headers : HeaderMap) :
    (afterHeaders st endStream headers).headersComplete = true := by
  rw [afterHeaders]
  split
  · rw [transitionOnEndStream_eq]
    rfl
  · rfl

theorem afterHeaders_endStreamSeen (st : ManagedStream) (endStream : Bool) (headers : HeaderMap) :
    (afterHeaders st endStream headers).endStreamSeen = (endStream || st.endStreamSeen) := by
  rw [afterHeaders]
  split
  · rename_i hend
    rw [transitionOnEndStream_eq, hend, Bool.true_or]
  · rename_i hend
    rw [Bool.not_eq_true _ |>.mp hend, Bool.false_or]
    rfl

theorem afterHeaders_responseHeaders (st : ManagedStream) (endStream : Bool) (headers : HeaderMap) :
    (afterHeaders st endStream headers).responseHeaders = headers := by
  rw [afterHeaders]
  split
  · rw [transitionOnEndStream_eq]
    rfl
  · rfl

theorem afterHeaders_resolve (st : ManagedStream) (endStream : Bool) (headers : HeaderMap) :
    (afterHeaders st endStream headers).resolve = st.resolve := by
  rw [afterHeaders]
  split
  · rw [transitionOnEndStream_eq]
    rfl
  · rfl

/-- An end that had already come changes nothing. -/
theorem afterHeaders_of_ended (hstate : st.ClientState) (hclient : st.isPushPromise = false) {endStream : Bool}
    (hend : endStream = true → st.endStreamSeen = true) (headers : HeaderMap) :
    afterHeaders st endStream headers = st.withHeaders headers := by
  rw [afterHeaders]
  split
  · rename_i hflag
    have hseen := hend hflag
    have hclosed : st.state = .remoteHalfClosed := by rw [hstate hclient, hseen, if_pos rfl]
    rw [transitionOnEndStream, withHeaders]
    dsimp only
    rw [hclosed, ← hseen]
  · rfl

theorem observe_single_error (hget : m.streams.get st.id = some st) (endStream : Bool) {block : Bytes} {e : HpackError}
    (hdecode : decodeHeaders (st.pendingHeaderBytes ++ block) = .error e) :
    (m.dispatchAll [headersFrame st.id true endStream block]).observe st.id = (some st.view, m.effects) := by
  rw [dispatchAll_cons, dispatchAll_nil, dispatch_headers_error hget endStream hdecode]
  exact observe_setStream m _

theorem dispatchAll_single_ok (hget : m.streams.get st.id = some st) (hstate : st.state ≠ .remoteReserved) (endStream : Bool)
    {block : Bytes} {headers : HeaderMap} (hdecode : decodeHeaders (st.pendingHeaderBytes ++ block) = .ok headers) :
    m.dispatchAll [headersFrame st.id true endStream block] =
      (m.setStream (afterHeaders st endStream headers)).maybeResolveResponse (afterHeaders st endStream headers) := by
  rw [dispatchAll_cons, dispatchAll_nil, dispatch_headers_ok hget hstate endStream hdecode]
  rfl

/-! ### A block in several frames -/

section Routed

variable (hroute : m.continuationTarget st.id = st.id) (hget : m.streams.get st.id = some st)

include hroute

theorem get_collected (block : Bytes) :
    (m.setStream (st.pushHeaderBytes block)).streams.get
      ((m.setStream (st.pushHeaderBytes block)).continuationTarget st.id) = some (st.pushHeaderBytes block) := by
  change (m.streams.set (st.pushHeaderBytes block)).get (m.continuationTarget st.id) = _
  rw [hroute]
  exact Table.get_set_self m.streams (st.pushHeaderBytes block)

include hget

theorem dispatchAll_splitBlock_collected (endStream : Bool) (first : Bytes) (middle : List Bytes) (last : Bytes) :
    m.dispatchAll (splitBlock st.id endStream first middle last) =
      ((m.setStream (st.pushHeaderBytes (first ++ middle.flatten))).dispatch (continuationFrame st.id true last)).1 := by
  have hmiddle := @dispatchAll_continuations m (st.pushHeaderBytes first) st.id hroute.symm middle
  rw [splitBlock, dispatchAll_cons, dispatchAll_append, dispatch_headers_more hget, hmiddle, dispatchAll_cons, dispatchAll_nil]
  simp only [pushHeaderBytes, List.append_assoc]

theorem observe_splitBlock_error (endStream : Bool) {first last : Bytes} {middle : List Bytes} {e : HpackError}
    (hdecode : decodeHeaders (st.pendingHeaderBytes ++ (first ++ (middle.flatten ++ last))) = .error e) :
    (m.dispatchAll (splitBlock st.id endStream first middle last)).observe st.id = (some st.view, m.effects) := by
  have hsplit : decodeHeaders ((st.pushHeaderBytes (first ++ middle.flatten)).pendingHeaderBytes ++ last) = .error e := by
    simpa only [pushHeaderBytes, List.append_assoc] using hdecode
  rw [dispatchAll_splitBlock_collected hroute hget,
    dispatch_continuation_error (get_collected hroute _) hsplit, continuationDone_setStream,
    setStream_setStream _ _ _ (by rfl)]
  exact (observe_setStream _ _).trans (by rw [continuationDone_effects]; rfl)

theorem dispatchAll_splitBlock_ok (hclient : st.isPushPromise = false) (endStream : Bool) {first last : Bytes}
    {middle : List Bytes} {headers : HeaderMap}
    (hdecode : decodeHeaders (st.pendingHeaderBytes ++ (first ++ (middle.flatten ++ last))) = .ok headers) :
    m.dispatchAll (splitBlock st.id endStream first middle last) =
      ((m.continuationDone st.id).setStream (st.withHeaders headers)).maybeResolveResponse (st.withHeaders headers) := by
  have hsplit : decodeHeaders ((st.pushHeaderBytes (first ++ middle.flatten)).pendingHeaderBytes ++ last) = .ok headers := by
    simpa only [pushHeaderBytes, List.append_assoc] using hdecode
  have hclient' : (st.pushHeaderBytes (first ++ middle.flatten)).isPushPromise = false := hclient
  rw [dispatchAll_splitBlock_collected hroute hget, dispatch_continuation_ok (get_collected hroute _) hsplit]
  dsimp only
  rw [if_neg (by rw [hclient']; decide), continuationDone_setStream, setStream_setStream _ _ _ (by rfl)]
  rfl

end Routed

/-! ### A block whose continuation goes elsewhere -/

/-- Finishing the block on this stream emits nothing and settles nothing. -/
def Silent (st : ManagedStream) (block : Bytes) : Prop :=
  ∀ headers, decodeHeaders (st.pendingHeaderBytes ++ block) = .ok headers →
    st.isPushPromise = false ∧ (st.endStreamSeen = true → st.resolve = none)

theorem silent_pushHeaderBytes (st : ManagedStream) (collected rest : Bytes) :
    Silent (st.pushHeaderBytes collected) rest ↔ Silent st (collected ++ rest) := by
  simp only [Silent, pushHeaderBytes, List.append_assoc]

theorem maybeResolveResponse_effects_eq_iff (m : Manager) (hheaders : st.headersComplete = true) :
    (m.maybeResolveResponse st).effects = m.effects ↔ (st.endStreamSeen = true → st.resolve = none) := by
  constructor
  · intro hsame hend
    cases hresolve : st.resolve with
    | none => rfl
    | some resolve =>
        have hgrow := maybeResolveResponse_effects m hheaders hend hresolve
        rw [hsame] at hgrow
        exact absurd hgrow (lt_irrefl _)
  · intro h
    rw [maybeResolveResponse_of_waiting m fun _ => h]

/-- A CONTINUATION frame that finishes the block of another stream leaves what shows of this one. -/
theorem observe_continuation_other {streamId : StreamId} {other : ManagedStream}
    (hget : m.streams.get streamId = some st) (hne : streamId ≠ other.id)
    (hother : m.streams.get (m.continuationTarget streamId) = some other) (payload : Bytes) :
    ((m.dispatch (continuationFrame streamId true payload)).1.observe streamId).1 = some st.view ∧
      (((m.dispatch (continuationFrame streamId true payload)).1.observe streamId).2 = m.effects ↔ Silent other payload) := by
  have hkept : ∀ (m' : Manager) (other' : ManagedStream), other'.id = other.id →
      m'.streams = ((m.continuationDone streamId).setStream other').streams → m'.streams.get streamId = some st := by
    intro m' other' hid hstreams
    rw [hstreams, setStream_streams, continuationDone_streams, Table.get_set_ne _ (hid ▸ hne.symm), hget]
  cases hdecode : decodeHeaders (other.pendingHeaderBytes ++ payload) with
  | error e =>
      rw [dispatch_continuation_error hother hdecode]
      have hstreams := hkept _ { other with pendingHeaderBytes := [] } rfl rfl
      refine ⟨by simp only [observe, hstreams, Option.map_some], ?_⟩
      simp only [observe, setStream_effects, continuationDone_effects, true_iff]
      intro headers hheaders
      rw [hdecode] at hheaders
      exact absurd hheaders (by simp)
  | ok headers =>
      rw [dispatch_continuation_ok hother hdecode]
      dsimp only
      have hsilent : Silent other payload ↔
          other.isPushPromise = false ∧ (other.endStreamSeen = true → other.resolve = none) :=
        ⟨fun h => h headers hdecode, fun h _ _ => h⟩
      have hsettled : ∀ m' : Manager, m'.streams = ((m.continuationDone streamId).setStream (other.withHeaders headers)).streams →
          (m'.maybeResolveResponse (other.withHeaders headers)).streams.get streamId = some st := by
        intro m' hstreams
        rw [maybeResolveResponse_get_ne m' (other.withHeaders headers) hne]
        exact hkept m' (other.withHeaders headers) rfl hstreams
      rw [hsilent]
      split
      · rename_i hpush
        generalize hemit : ((m.continuationDone streamId).setStream (other.withHeaders headers)).emitEvent
          (.push other.id headers) = m'
        have hstreams : m'.streams = ((m.continuationDone streamId).setStream (other.withHeaders headers)).streams := by
          rw [← hemit]
          rfl
        have hgrow : m.effects.length < (m'.maybeResolveResponse (other.withHeaders headers)).effects.length := by
          refine lt_of_lt_of_le ?_ (maybeResolveResponse_effects_kept m' (other.withHeaders headers)).length_le
          simp [← hemit, emitEvent, perform]
        refine ⟨by simp only [observe, hsettled m' hstreams, Option.map_some], ?_⟩
        constructor
        · intro hsame
          rw [show (m'.maybeResolveResponse (other.withHeaders headers)).effects = m.effects from hsame] at hgrow
          exact absurd hgrow (lt_irrefl _)
        · rintro ⟨hclient, -⟩
          rw [hpush] at hclient
          exact absurd hclient (by decide)
      · rename_i hclient
        refine ⟨by simp only [observe, hsettled _ rfl, Option.map_some], ?_⟩
        have hiff := @maybeResolveResponse_effects_eq_iff (other.withHeaders headers)
          ((m.continuationDone streamId).setStream (other.withHeaders headers)) rfl
        simp only [setStream_effects, continuationDone_effects] at hiff
        simp only [observe, hiff, Bool.not_eq_true _ |>.mp hclient, true_and]
        rfl

/-- The CONTINUATION frames reach another stream, or none: this one keeps what shows of it. -/
theorem observe_splitBlock_misrouted (hroute : m.continuationTarget st.id ≠ st.id) (hget : m.streams.get st.id = some st)
    (endStream : Bool) (first : Bytes) (middle : List Bytes) (last : Bytes) :
    ((m.dispatchAll (splitBlock st.id endStream first middle last)).observe st.id).1 = some st.view ∧
      (((m.dispatchAll (splitBlock st.id endStream first middle last)).observe st.id).2 = m.effects ↔
        ∀ other, m.streams.get (m.continuationTarget st.id) = some other → Silent other (middle.flatten ++ last)) := by
  have hstart : (m.setStream (st.pushHeaderBytes first)).streams.get
      ((m.setStream (st.pushHeaderBytes first)).continuationTarget st.id) = m.streams.get (m.continuationTarget st.id) :=
    Table.get_set_ne m.streams (Ne.symm hroute)
  have hself : (m.setStream (st.pushHeaderBytes first)).streams.get st.id = some (st.pushHeaderBytes first) :=
    Table.get_set_self m.streams (st.pushHeaderBytes first)
  rw [splitBlock, dispatchAll_cons, dispatchAll_append, dispatch_headers_more hget, dispatchAll_cons, dispatchAll_nil]
  cases htarget : m.streams.get (m.continuationTarget st.id) with
  | none =>
      rw [htarget] at hstart
      rw [dispatchAll_continuations_none hstart, dispatch_continuation_none hstart]
      refine ⟨?_, by simp [observe]⟩
      simp only [observe, hself, Option.map_some]
      rfl
  | some other =>
      rw [htarget] at hstart
      have hother : other.id = m.continuationTarget st.id := Table.key_of_get htarget
      have hne : st.id ≠ other.id := fun h => hroute (hother.symm.trans h.symm)
      have hsame : (m.setStream (st.pushHeaderBytes first)).setStream other = m.setStream (st.pushHeaderBytes first) :=
        setStream_self (by rw [← hstart, hother]; rfl)
      have hmiddle := @dispatchAll_continuations (m.setStream (st.pushHeaderBytes first)) other st.id hother middle
      rw [hsame] at hmiddle
      rw [hmiddle]
      have hcollected : ((m.setStream (st.pushHeaderBytes first)).setStream (other.pushHeaderBytes middle.flatten)).streams.get
          (m.continuationTarget st.id) = some (other.pushHeaderBytes middle.flatten) := by
        rw [← hother]
        exact Table.get_set_self _ (other.pushHeaderBytes middle.flatten)
      have hkept : ((m.setStream (st.pushHeaderBytes first)).setStream (other.pushHeaderBytes middle.flatten)).streams.get st.id =
          some (st.pushHeaderBytes first) := by
        rw [setStream_streams, @Table.get_set_ne _ _ _ _ _ (other.pushHeaderBytes middle.flatten) _ (Ne.symm hne), hself]
      obtain ⟨hview, heffects⟩ := @observe_continuation_other _ _ _ (other.pushHeaderBytes middle.flatten) hkept hne
        hcollected last
      refine ⟨hview, ?_⟩
      simp only [Option.some.injEq, forall_eq', ← silent_pushHeaderBytes]
      exact heffects

/-! ### Comparing the two -/

theorem observe_settle_waiting (m : Manager) (st : ManagedStream) (h : st.headersComplete = true → st.endStreamSeen = true → st.resolve = none) :
    ((m.setStream st).maybeResolveResponse st).observe st.id = (some st.view, m.effects) := by
  rw [maybeResolveResponse_of_waiting _ h, observe_setStream]

theorem observe_settle_ready (m : Manager) {resolve : Callback} (hheaders : st.headersComplete = true)
    (hend : st.endStreamSeen = true) (hresolve : st.resolve = some resolve) :
    (((m.setStream st).maybeResolveResponse st).observe st.id).1 = none := by
  simp only [observe, maybeResolveResponse_get _ hheaders hend hresolve, Option.map_none]

theorem waits_of_observe_settle (m : Manager) {view : StreamView} (hheaders : st.headersComplete = true)
    (hshows : (((m.setStream st).maybeResolveResponse st).observe st.id).1 = some view) :
    st.endStreamSeen = true → st.resolve = none := by
  intro hend
  cases hresolve : st.resolve with
  | none => rfl
  | some resolve =>
      rw [observe_settle_ready m hheaders hend hresolve] at hshows
      exact absurd hshows (by simp)

theorem observe_maybeResolveResponse_congr (m m' : Manager) (hstreams : m.streams = m'.streams)
    (heffects : m.effects = m'.effects) (st : ManagedStream) (streamId : StreamId) :
    (m.maybeResolveResponse st).observe streamId = (m'.maybeResolveResponse st).observe streamId := by
  unfold maybeResolveResponse
  dsimp only
  split
  · simp only [observe, hstreams, heffects]
  · split
    · simp only [observe, hstreams, heffects]
    · split <;> simp only [observe, perform, finalizeStream, emitEvent, hstreams, heffects]

/-- The stream already shows what the block would make of it, or the block does not decode. -/
def Unmoved (st : ManagedStream) (endStream : Bool) (block : Bytes) : Prop :=
  ∀ headers, decodeHeaders (st.pendingHeaderBytes ++ block) = .ok headers →
    st.headersComplete = true ∧ st.responseHeaders = headers ∧ (endStream = true → st.endStreamSeen = true) ∧
      (st.endStreamSeen = true → st.resolve = none)

/-- When cutting a block makes no difference. Where the stream's CONTINUATION frames reach it, END_STREAM
has to be clear or already seen, or the block must not decode. Where an unfinished PUSH_PROMISE diverts
them, neither way of sending the block may show at all. -/
def SplitTransparent (m : Manager) (st : ManagedStream) (endStream : Bool) (first rest : Bytes) : Prop :=
  if m.continuationTarget st.id = st.id then
    endStream = false ∨ st.endStreamSeen = true ∨
      ∀ headers, decodeHeaders (st.pendingHeaderBytes ++ (first ++ rest)) ≠ .ok headers
  else
    Unmoved st endStream (first ++ rest) ∧
      ∀ other, m.streams.get (m.continuationTarget st.id) = some other → Silent other rest

theorem observe_routed_iff (hroute : m.continuationTarget st.id = st.id) (hget : m.streams.get st.id = some st)
    (hstate : st.ClientState) (hclient : st.isPushPromise = false) (endStream : Bool) (first : Bytes) (middle : List Bytes)
    (last : Bytes) :
    (m.dispatchAll (splitBlock st.id endStream first middle last)).observe st.id =
        (m.dispatchAll [headersFrame st.id true endStream (first ++ (middle.flatten ++ last))]).observe st.id ↔
      endStream = false ∨ st.endStreamSeen = true ∨
        ∀ headers, decodeHeaders (st.pendingHeaderBytes ++ (first ++ (middle.flatten ++ last))) ≠ .ok headers := by
  have hreserved : st.state ≠ .remoteReserved := by
    rw [hstate hclient]
    split <;> simp
  cases hdecode : decodeHeaders (st.pendingHeaderBytes ++ (first ++ (middle.flatten ++ last))) with
  | error e =>
      rw [observe_single_error hget endStream hdecode, observe_splitBlock_error hroute hget endStream hdecode]
      simp
  | ok headers =>
      rw [dispatchAll_single_ok hget hreserved endStream hdecode, dispatchAll_splitBlock_ok hroute hget hclient endStream hdecode]
      have hcongr := observe_maybeResolveResponse_congr (m.continuationDone st.id |>.setStream (st.withHeaders headers))
        (m.setStream (st.withHeaders headers)) (by simp) (by simp) (st.withHeaders headers) st.id
      rw [hcongr]
      constructor
      · intro hsame
        by_contra hnot
        simp only [not_or, Bool.not_eq_false, Bool.not_eq_true] at hnot
        obtain ⟨hflag, hseen, -⟩ := hnot
        have hseen' : (afterHeaders st endStream headers).endStreamSeen = true := by
          rw [afterHeaders_endStreamSeen, hflag, Bool.true_or]
        have hwaiting := observe_settle_waiting m (st.withHeaders headers) fun _ hend => by
          rw [show (st.withHeaders headers).endStreamSeen = st.endStreamSeen from rfl, hseen] at hend
          exact absurd hend (by decide)
        rw [show (st.withHeaders headers).id = st.id from rfl] at hwaiting
        rw [hwaiting] at hsame
        have hshows := congrArg Prod.fst hsame.symm
        have hwaits := waits_of_observe_settle m (afterHeaders_headersComplete st endStream headers)
          ((congrArg (fun id => (Manager.observe _ id).1) (afterHeaders_id st endStream headers)).trans hshows)
        have hsettled := observe_settle_waiting m (afterHeaders st endStream headers) fun _ => hwaits
        rw [afterHeaders_id] at hsettled
        rw [hsettled] at hsame
        have hview := congrArg StreamView.endStreamSeen (Option.some.inj (Prod.mk.inj hsame).1)
        rw [show (st.withHeaders headers).view.endStreamSeen = st.endStreamSeen from rfl,
          show (afterHeaders st endStream headers).view.endStreamSeen = true from hseen', hseen] at hview
        exact absurd hview (by decide)
      · intro h
        have hend : endStream = true → st.endStreamSeen = true := by
          intro hflag
          rcases h with h | h | h
          · rw [hflag] at h
            exact absurd h (by decide)
          · exact h
          · exact absurd rfl (h headers)
        rw [afterHeaders_of_ended hstate hclient hend]

theorem observe_misrouted_iff (hroute : m.continuationTarget st.id ≠ st.id) (hget : m.streams.get st.id = some st)
    (hstate : st.ClientState) (hclient : st.isPushPromise = false) (endStream : Bool) (first : Bytes) (middle : List Bytes)
    (last : Bytes) :
    (m.dispatchAll (splitBlock st.id endStream first middle last)).observe st.id =
        (m.dispatchAll [headersFrame st.id true endStream (first ++ (middle.flatten ++ last))]).observe st.id ↔
      Unmoved st endStream (first ++ (middle.flatten ++ last)) ∧
        ∀ other, m.streams.get (m.continuationTarget st.id) = some other → Silent other (middle.flatten ++ last) := by
  have hreserved : st.state ≠ .remoteReserved := by
    rw [hstate hclient]
    split <;> simp
  obtain ⟨hview, heffects⟩ := observe_splitBlock_misrouted hroute hget endStream first middle last
  rw [← heffects]
  generalize (m.dispatchAll (splitBlock st.id endStream first middle last)).observe st.id = split at hview
  obtain ⟨splitView, splitEffects⟩ := split
  simp only at hview
  subst hview
  cases hdecode : decodeHeaders (st.pendingHeaderBytes ++ (first ++ (middle.flatten ++ last))) with
  | error e =>
      have hunmoved : Unmoved st endStream (first ++ (middle.flatten ++ last)) := by
        intro headers hheaders
        rw [hdecode] at hheaders
        exact absurd hheaders (by simp)
      rw [observe_single_error hget endStream hdecode]
      simp only [Prod.mk.injEq, true_and, hunmoved]
  | ok headers =>
      rw [dispatchAll_single_ok hget hreserved endStream hdecode]
      have hafter := afterHeaders_id st endStream headers
      constructor
      · intro hsame
        have hshows := congrArg Prod.fst hsame.symm
        have hwaits := waits_of_observe_settle m (afterHeaders_headersComplete st endStream headers)
          ((congrArg (fun id => (Manager.observe _ id).1) hafter).trans hshows)
        have hsettled := observe_settle_waiting m (afterHeaders st endStream headers) fun _ => hwaits
        rw [hafter] at hsettled
        rw [afterHeaders_endStreamSeen, afterHeaders_resolve, Bool.or_eq_true] at hwaits
        rw [hsettled, Prod.mk.injEq, Option.some.injEq] at hsame
        refine ⟨?_, hsame.2⟩
        intro headers' hheaders'
        rw [hdecode, Except.ok.injEq] at hheaders'
        subst hheaders'
        refine ⟨?_, ?_, ?_, fun hend => hwaits (.inr hend)⟩
        · exact (congrArg StreamView.headersComplete hsame.1).trans (afterHeaders_headersComplete st endStream headers)
        · exact (congrArg StreamView.responseHeaders hsame.1).trans (afterHeaders_responseHeaders st endStream headers)
        · intro hflag
          refine (congrArg StreamView.endStreamSeen hsame.1).trans ((afterHeaders_endStreamSeen st endStream headers).trans ?_)
          rw [hflag, Bool.true_or]
      · rintro ⟨hunmoved, hsplit⟩
        obtain ⟨hheaders, hsame, hend, hwaits⟩ := hunmoved headers hdecode
        rw [afterHeaders_of_ended hstate hclient hend]
        have hsettled := observe_settle_waiting m (st.withHeaders headers) fun _ => hwaits
        rw [show (st.withHeaders headers).id = st.id from rfl] at hsettled
        rw [hsettled, show splitEffects = m.effects from hsplit]
        simp only [view, withHeaders, hheaders, hsame]

end Manager

/-- In every run, for every client stream in the table and every way of cutting a block, the split block
leaves the stream and the effects as the single HEADERS frame does exactly when `SplitTransparent` holds. -/
theorem continuation_transparent_iff (ops : List ManagerOp) (st : ManagedStream)
    (hget : (Manager.run ops).streams.get st.id = some st) (hclient : st.isPushPromise = false) (endStream : Bool)
    (first : Bytes) (middle : List Bytes) (last : Bytes) :
    ((Manager.run ops).dispatchAll (splitBlock st.id endStream first middle last)).observe st.id =
        ((Manager.run ops).dispatchAll [headersFrame st.id true endStream (first ++ (middle.flatten ++ last))]).observe st.id ↔
      (Manager.run ops).SplitTransparent st endStream first (middle.flatten ++ last) := by
  have hstate := Manager.run_clientState ops st (Table.mem_of_get hget)
  rw [Manager.SplitTransparent]
  split
  · rename_i hroute
    exact Manager.observe_routed_iff hroute hget hstate hclient endStream first middle last
  · rename_i hroute
    exact Manager.observe_misrouted_iff hroute hget hstate hclient endStream first middle last

/-- A client stream just opened, its response expected. -/
def expectingStream : ManagedStream :=
  { ManagedStream.create 1 ⟨65535, 65535⟩ ⟨65535, 65535⟩ false with resolve := some 0, reject := some 0 }

theorem continuation_transparent_iff_first_stream :
    ((Manager.run [.openStream, .expectResponse 1 0 0]).dispatchAll (splitBlock 1 false [0x88] [] [])).observe 1 =
        ((Manager.run [.openStream, .expectResponse 1 0 0]).dispatchAll [headersFrame 1 true false [0x88]]).observe 1 ↔
      (Manager.run [.openStream, .expectResponse 1 0 0]).SplitTransparent expectingStream false [0x88] [] :=
  continuation_transparent_iff [.openStream, .expectResponse 1 0 0] expectingStream (by decide +kernel) rfl false [0x88] [] []

/-- The block 0x88 with END_STREAM resolves the request in one frame and leaves it pending in two. -/
theorem split_endStream_lost :
    ((Manager.run [.openStream, .expectResponse 1 0 0]).dispatchAll (splitBlock 1 true [0x88] [] [])).observe 1 ≠
      ((Manager.run [.openStream, .expectResponse 1 0 0]).dispatchAll [headersFrame 1 true true [0x88]]).observe 1 := by
  decide +kernel

end BrowsercoreHttp2
